import Mboot.Common.Run
import Mboot.Common.RingLog
import Mboot.E1k.Model

/-!
# The transmit ring

Frames are numbered in the order in which they are submitted; the descriptors
with `DD` clear are a `RingLog` of the submitted frames. `e1k_send` looks at the
`DD` bit of one slot only and gives up waiting after a time, so it can fill all
eight slots. The controller then sees head and tail equal, which means empty.

* `tx_ring_protocol`: as long as no frame is submitted with seven outstanding,
  the outstanding frames are `TDT - TDH` in number, the controller can always go
  on with the oldest one, and their buffers are intact.
* `tx_buffers_intact`: the buffer of an untransmitted frame is never
  overwritten, full ring or not.
* `tx_ring_overflow`: eight calls that time out fill the ring, and no
  continuation transmits any of the frames.
-/

namespace Mboot.E1k

open Common

namespace Tx

variable {s s' : Tx}

/-- The frame descriptor `i` describes, as long as `DD` is clear. -/
def slot (s : Tx) (i : ℕ) : Option (List UInt8) :=
  if s.Done i then none else some (slice s.mem (s.ring i).addr (s.ring i).length.toNat)

/-- The submitted frames, with the one about to be submitted. -/
def queued (s : Tx) : List (List UInt8) :=
  match s.place with
  | .submit frame _ => s.submitted ++ [frame]
  | _ => s.submitted

/-- What holds at a place of the driver. -/
def PlaceOk (s : Tx) : TxPlace → Prop
  | .idle | .waitDone _ _ => True
  | .waitFree frame cur _ => frame.length ≤ txBufSize ∧ cur = s.submitted.length % numTxDesc
  | .fill frame cur =>
    frame.length ≤ txBufSize ∧ cur = s.submitted.length % numTxDesc ∧ s.Done cur
  | .submit _ cur => cur = s.submitted.length % numTxDesc

structure Inv (s : Tx) : Prop where
  log : RingLog numTxDesc s.slot s.queued s.transmitted.length
  addr : ∀ i < numTxDesc, (s.ring i).addr = s.bufAddr i
  length : ∀ i < numTxDesc, (s.ring i).length.toNat ≤ txBufSize
  tdt : s.tdt = s.submitted.length % numTxDesc
  tdh : s.tdh = s.transmitted.length % numTxDesc
  place : s.PlaceOk s.place
  le : s.transmitted.length ≤ s.submitted.length
  transmitted : s.transmitted = s.submitted.take s.transmitted.length

theorem Inv.init (bufs : ℕ) (mem : ℕ → UInt8) : Inv (e1kTxInit bufs mem) where
  log := by
    apply RingLog.nil
    intro i _
    apply if_pos
    show (1 : UInt8) &&& statusDd ≠ 0
    decide
  addr := fun _ _ => rfl
  length := fun _ _ => Nat.zero_le _
  tdt := rfl
  tdh := rfl
  place := trivial
  le := le_rfl
  transmitted := rfl

theorem submitted_le_queued (s : Tx) : s.submitted.length ≤ s.queued.length := by
  unfold queued
  split
  · simp
  · exact le_rfl

theorem queued_getElem? (s : Tx) {k : ℕ} (hk : k < s.submitted.length) :
    s.queued[k]? = s.submitted[k]? := by
  unfold queued
  split
  · exact List.getElem?_append_left hk
  · rfl

theorem slot_of_clear {i : ℕ} {desc : TxDesc} (hring : s.ring i = desc) (hclear : desc.status = 0) :
    s.slot i = some (slice s.mem desc.addr desc.length.toNat) := by
  have hdone : ¬ s.Done i := by
    unfold Done
    rw [hring, hclear]
    decide
  rw [slot, if_neg hdone, hring]

theorem slot_congr {i : ℕ} (hring : s'.ring i = s.ring i)
    (hmem : slice s'.mem (s.ring i).addr (s.ring i).length.toNat =
      slice s.mem (s.ring i).addr (s.ring i).length.toNat) : s'.slot i = s.slot i := by
  have hdone : s'.Done i ↔ s.Done i := by
    unfold Done
    rw [hring]
  simp only [slot, hdone, hring, hmem]

/-- At most eight frames are outstanding, and the registers count them modulo
    eight. -/
theorem Inv.outstanding (h : Inv s) :
    s.submitted.length ≤ s.transmitted.length + numTxDesc ∧
      (s.tdt + numTxDesc - s.tdh) % numTxDesc =
        (s.submitted.length - s.transmitted.length) % numTxDesc := by
  have hroom := h.log.room
  have hq := s.submitted_le_queued
  have hle := h.le
  have htdt := h.tdt
  have htdh := h.tdh
  simp only [numTxDesc] at *
  omega

/-- The oldest outstanding frame is at `TDH`. -/
theorem Inv.slot_tdh (h : Inv s) (hlt : s.transmitted.length < s.submitted.length) :
    ¬ s.Done s.tdh ∧
      s.submitted[s.transmitted.length]? =
        some (slice s.mem (s.ring s.tdh).addr (s.ring s.tdh).length.toNat) := by
  have hhead := h.log.head (by decide)
  rw [queued_getElem? s hlt, ← h.tdh, slot] at hhead
  split_ifs at hhead with hdone
  · have := List.getElem?_eq_none_iff.mp hhead.symm
    omega
  · exact ⟨hdone, hhead.symm⟩

/-! ## Steps -/

theorem status_or_dd : ∀ b : UInt8, (b ||| statusDd) &&& statusDd ≠ 0 := by
  decide +kernel

theorem Inv.transmit (h : Inv s) (hs : s.transmit = some s') :
    Inv s' ∧ s'.submitted = s.submitted ∧ s'.place = s.place ∧
      ∃ f, s.submitted[s.transmitted.length]? = some f ∧ s'.transmitted = s.transmitted ++ [f] := by
  unfold Tx.transmit at hs
  split_ifs at hs with hne
  have hlt : s.transmitted.length < s.submitted.length := by
    have htdt := h.tdt
    have htdh := h.tdh
    refine lt_of_le_of_ne h.le fun heq => hne ?_
    rw [htdt, htdh, heq]
  obtain ⟨-, hframe⟩ := h.slot_tdh hlt
  cases hs
  refine ⟨⟨?_, fun i hi => ?_, fun i hi => ?_, h.tdt, ?_, ?_, ?_, ?_⟩, rfl, rfl, _, hframe, rfl⟩
  · show RingLog numTxDesc _ s.queued (s.transmitted ++ [_]).length
    rw [List.length_append, List.length_singleton]
    refine h.log.pop (hlt.trans_le s.submitted_le_queued) ?_ fun i _ hi => ?_
    · rw [← h.tdh]
      apply if_pos
      show (Function.update s.ring s.tdh _ s.tdh).status &&& statusDd ≠ 0
      rw [Function.update_self]
      exact status_or_dd _
    · rw [← h.tdh] at hi
      exact slot_congr (Function.update_of_ne hi _ _) rfl
  · show (Function.update s.ring s.tdh _ i).addr = s.bufAddr i
    by_cases hi' : i = s.tdh
    · subst hi'
      rw [Function.update_self]
      exact h.addr _ hi
    · rw [Function.update_of_ne hi']
      exact h.addr i hi
  · show (Function.update s.ring s.tdh _ i).length.toNat ≤ txBufSize
    by_cases hi' : i = s.tdh
    · subst hi'
      rw [Function.update_self]
      exact h.length _ hi
    · rw [Function.update_of_ne hi']
      exact h.length i hi
  · show (s.tdh + 1) % numTxDesc = (s.transmitted ++ [_]).length % numTxDesc
    rw [h.tdh, List.length_append, List.length_singleton, Nat.mod_add_mod]
  · have hplace := h.place
    show PlaceOk _ s.place
    cases hp : s.place with
    | idle | waitDone cur wait => trivial
    | waitFree frame cur wait | submit frame cur => rw [hp] at hplace; exact hplace
    | fill frame cur =>
      rw [hp] at hplace
      obtain ⟨hlen, hcur, hdone⟩ := hplace
      refine ⟨hlen, hcur, ?_⟩
      show (Function.update s.ring s.tdh _ cur).status &&& statusDd ≠ 0
      by_cases hc : cur = s.tdh
      · subst hc
        rw [Function.update_self]
        exact status_or_dd _
      · rw [Function.update_of_ne hc]
        exact hdone
  · show (s.transmitted ++ [_]).length ≤ s.submitted.length
    rw [List.length_append, List.length_singleton]
    exact hlt
  · show s.transmitted ++ [_] = s.submitted.take (s.transmitted ++ [_]).length
    rw [List.length_append, List.length_singleton, List.take_add_one, hframe, ← h.transmitted]
    rfl

/-- A step that touches neither ring nor registers, from and to places without a
    frame about to be submitted. -/
theorem Inv.move (h : Inv s) {p : TxPlace} {n : ℕ} {r : Option ℤ} (hq : s.queued = s.submitted)
    (hp : ∀ frame cur, p ≠ .submit frame cur)
    (hok : s.PlaceOk p) : Inv { s with place := p, txTail := n, result := r } := by
  refine ⟨?_, h.addr, h.length, h.tdt, h.tdh, ?_, h.le, h.transmitted⟩
  · have hq' : queued { s with place := p, txTail := n, result := r } = s.submitted := by
      unfold queued
      split
      · next frame cur heq => exact absurd heq (hp frame cur)
      · rfl
    rw [hq', ← hq]
    exact h.log
  · show PlaceOk _ p
    cases p with
    | idle | waitDone cur wait => trivial
    | waitFree frame cur wait | fill frame cur => exact hok
    | submit frame cur => exact absurd rfl (hp frame cur)

theorem Inv.send (h : Inv s) {frame : List UInt8} (hs : s.send frame = some s') : Inv s' := by
  unfold Tx.send at hs
  split at hs
  · next hp =>
    have hq : s.queued = s.submitted := by
      unfold queued
      rw [hp]
    split_ifs at hs with hlen
    · cases hs
      have hmove := h.move (n := s.txTail) (r := some (-1)) hq (p := s.place) (by simp [hp]) h.place
      exact hmove
    · cases hs
      refine h.move (n := s.txTail) (r := s.result) hq (by simp) ⟨by omega, ?_⟩
      rw [show s.tdt &&& (numTxDesc - 1) = s.tdt % numTxDesc from
        Nat.and_two_pow_sub_one_eq_mod s.tdt 3, h.tdt, Nat.mod_mod]
  · cases hs

/-- The frame is copied into the free slot. -/
theorem Inv.fill (h : Inv s) {frame : List UInt8} {cur : ℕ} (hp : s.place = .fill frame cur)
    (hs : s.proceed = some s') : Inv s' := by
  have hplace := h.place
  rw [hp] at hplace
  obtain ⟨hlen, hcur, hdone⟩ := hplace
  have hq : s.queued = s.submitted := by
    unfold queued
    rw [hp]
  have hcurlt : cur < numTxDesc := by
    rw [hcur]
    exact Nat.mod_lt _ (by decide)
  have hlog := h.log
  rw [hq] at hlog
  have hfree := hlog.lt_of_none (by decide) (by rw [← hcur]; exact if_pos hdone)
  have hsize : (UInt16.ofNat frame.length).toNat = frame.length := by
    rw [UInt16.toNat_ofNat']
    apply Nat.mod_eq_of_lt
    simp only [txBufSize] at hlen
    omega
  unfold Tx.proceed at hs
  rw [hp] at hs
  cases hs
  refine ⟨?_, fun i hi => ?_, fun i hi => ?_, h.tdt, h.tdh, hcur, h.le, h.transmitted⟩
  · show RingLog numTxDesc _ (s.submitted ++ [frame]) s.transmitted.length
    apply hlog.push hfree
    · rw [← hcur]
      refine (slot_of_clear (Function.update_self ..) rfl).trans ?_
      show some (slice (store s.mem (s.bufAddr cur) frame) (s.ring cur).addr
        (UInt16.ofNat frame.length).toNat) = some frame
      rw [h.addr cur hcurlt, hsize, slice_store]
    · intro i hi hne
      rw [← hcur] at hne
      refine slot_congr (Function.update_of_ne hne _ _) ?_
      show slice (store s.mem (s.bufAddr cur) frame) (s.ring i).addr (s.ring i).length.toNat = _
      rw [h.addr i hi]
      apply slice_store_of_disjoint
      have hilen := h.length i hi
      simp only [bufAddr, txBufSize] at *
      omega
  · show (Function.update s.ring cur _ i).addr = s.bufAddr i
    by_cases hi' : i = cur
    · subst hi'
      rw [Function.update_self]
      exact h.addr _ hi
    · rw [Function.update_of_ne hi']
      exact h.addr i hi
  · show (Function.update s.ring cur _ i).length.toNat ≤ txBufSize
    by_cases hi' : i = cur
    · subst hi'
      rw [Function.update_self]
      show (UInt16.ofNat frame.length).toNat ≤ txBufSize
      rw [hsize]
      exact hlen
    · rw [Function.update_of_ne hi']
      exact h.length i hi

theorem Inv.submit (h : Inv s) {frame : List UInt8} {cur : ℕ} (hp : s.place = .submit frame cur)
    (hs : s.proceed = some s') : Inv s' ∧ s'.submitted = s.submitted ++ [frame] ∧
      s'.transmitted = s.transmitted := by
  have hcur := h.place
  rw [hp] at hcur
  have hq : s.queued = s.submitted ++ [frame] := by
    unfold queued
    rw [hp]
  have hlog := h.log
  rw [hq] at hlog
  unfold Tx.proceed at hs
  rw [hp] at hs
  cases hs
  refine ⟨⟨hlog, h.addr, h.length, ?_, h.tdh, trivial, ?_, ?_⟩, rfl, rfl⟩
  · show (cur + 1) % numTxDesc = (s.submitted ++ [frame]).length % numTxDesc
    rw [show cur = s.submitted.length % numTxDesc from hcur, Nat.mod_add_mod, List.length_append,
      List.length_singleton]
  · show s.transmitted.length ≤ (s.submitted ++ [frame]).length
    rw [List.length_append, List.length_singleton]
    exact Nat.le_succ_of_le h.le
  · show s.transmitted = (s.submitted ++ [frame]).take s.transmitted.length
    rw [List.take_append_of_le_length h.le]
    exact h.transmitted

theorem Inv.proceed (h : Inv s) (hs : s.proceed = some s') : Inv s' := by
  cases hp : s.place with
  | idle =>
    rw [Tx.proceed, hp] at hs
    cases hs
  | waitFree frame cur wait =>
    have hplace := h.place
    have hq : s.queued = s.submitted := by rw [queued, hp]
    rw [hp] at hplace
    rw [Tx.proceed, hp] at hs
    dsimp only at hs
    split_ifs at hs with hdone htime
    · cases hs
      exact h.move (n := s.txTail) (r := s.result) hq (by simp) ⟨hplace.1, hplace.2, hdone⟩
    · cases hs
      exact h.move (n := s.txTail) hq (by simp) trivial
    · cases hs
      exact h.move (n := s.txTail) (r := s.result) hq (by simp) hplace
  | fill frame cur => exact h.fill hp hs
  | submit frame cur => exact (h.submit hp hs).1
  | waitDone cur wait =>
    have hq : s.queued = s.submitted := by rw [queued, hp]
    rw [Tx.proceed, hp] at hs
    dsimp only at hs
    split_ifs at hs with hdone htime
    · cases hs
      exact h.move hq (by simp) trivial
    · cases hs
      exact h.move (n := s.txTail) hq (by simp) trivial
    · cases hs
      exact h.move (n := s.txTail) (r := s.result) hq (by simp) trivial

theorem Inv.step (h : Inv s) {a : TxAction} (hs : s.step a = some s') : Inv s' := by
  cases a with
  | transmit => exact (h.transmit hs).1
  | send frame => exact h.send hs
  | proceed => exact h.proceed hs

/-- The frame of number `k` is in its buffer, and its descriptor describes it. -/
theorem Inv.intact (h : Inv s) {k : ℕ} {frame : List UInt8} (hk : s.transmitted.length ≤ k)
    (hframe : s.submitted[k]? = some frame) :
    ¬ s.Done (k % numTxDesc) ∧
      slice s.mem (s.bufAddr (k % numTxDesc)) (s.ring (k % numTxDesc)).length.toNat = frame := by
  have hlt := (List.getElem?_eq_some_iff.mp hframe).1
  rw [← queued_getElem? s hlt] at hframe
  have hslot := h.log.filled k frame hk hframe
  rw [slot] at hslot
  split_ifs at hslot with hdone
  rw [h.addr _ (Nat.mod_lt _ (by decide))] at hslot
  exact ⟨hdone, Option.some.inj hslot⟩

/-! ## Runs that keep a slot free -/

/-- `e1k_send` writes `TDT` only with fewer than seven frames outstanding. -/
def HasRoom (s : Tx) (a : TxAction) : Prop :=
  match a, s.place with
  | .proceed, .submit _ _ => (s.tdt + numTxDesc - s.tdh) % numTxDesc ≠ 7
  | _, _ => True

instance (s : Tx) (a : TxAction) : Decidable (s.HasRoom a) := by
  unfold HasRoom
  split <;> infer_instance

/-- Only the write of `TDT` submits a frame. -/
theorem step_submitted {a : TxAction} (hs : s.step a = some s')
    (hno : ¬ (a = .proceed ∧ ∃ frame cur, s.place = .submit frame cur)) :
    s'.submitted = s.submitted ∧ s.transmitted.length ≤ s'.transmitted.length := by
  cases a with
  | transmit =>
    simp only [Tx.step, Tx.transmit] at hs
    split_ifs at hs
    cases hs
    exact ⟨rfl, by simp⟩
  | send frame =>
    simp only [Tx.step, Tx.send] at hs
    split at hs
    · split_ifs at hs <;> cases hs <;> exact ⟨rfl, le_rfl⟩
    · cases hs
  | proceed =>
    simp only [Tx.step, Tx.proceed] at hs
    split at hs
    · cases hs
    · split_ifs at hs <;> cases hs <;> exact ⟨rfl, le_rfl⟩
    · cases hs
      exact ⟨rfl, le_rfl⟩
    · next frame cur hp => exact absurd ⟨rfl, frame, cur, hp⟩ hno
    · split_ifs at hs <;> cases hs <;> exact ⟨rfl, le_rfl⟩

/-- A step with room keeps a slot free. -/
theorem Inv.step_room (h : Inv s) (hfree : s.submitted.length ≤ s.transmitted.length + 7)
    {a : TxAction} (hroom : s.HasRoom a) (hs : s.step a = some s') :
    s'.submitted.length ≤ s'.transmitted.length + 7 := by
  by_cases hsub : a = .proceed ∧ ∃ frame cur, s.place = .submit frame cur
  · obtain ⟨rfl, frame, cur, hp⟩ := hsub
    obtain ⟨-, hsubm, htrans⟩ := h.submit hp hs
    have hne : (s.tdt + numTxDesc - s.tdh) % numTxDesc ≠ 7 := by
      unfold HasRoom at hroom
      rw [hp] at hroom
      exact hroom
    have hle := h.le
    rw [h.outstanding.2] at hne
    rw [hsubm, htrans, List.length_append, List.length_singleton]
    simp only [numTxDesc] at hne
    omega
  · obtain ⟨hsubm, htrans⟩ := step_submitted hs hsub
    rw [hsubm]
    omega

end Tx

/-- **The transmit ring.** In every run in which `e1k_send` never writes `TDT`
    with seven frames outstanding, in every state reached:
    * the number of submitted and untransmitted frames is `TDT - TDH` modulo the
      size of the ring;
    * the transmitted frames are the first submitted ones, in order and
      unchanged, and while a frame is outstanding the controller can transmit
      the next one;
    * every outstanding frame is intact in its buffer. -/
theorem tx_ring_protocol {bufs : ℕ} {mem : ℕ → UInt8} {s : Tx}
    (h : Reachable (restrict (Steps Tx.step) Tx.HasRoom) (e1kTxInit bufs mem) s) :
    s.submitted.length - s.transmitted.length = (s.tdt + numTxDesc - s.tdh) % numTxDesc ∧
    s.transmitted = s.submitted.take s.transmitted.length ∧
    (∀ frame, s.submitted[s.transmitted.length]? = some frame →
      ∃ s', s.step .transmit = some s' ∧ s'.transmitted = s.transmitted ++ [frame]) ∧
    (∀ k frame, s.transmitted.length ≤ k → s.submitted[k]? = some frame →
      slice s.mem (s.bufAddr (k % numTxDesc)) frame.length = frame) := by
  have hboth : s.Inv ∧ s.submitted.length ≤ s.transmitted.length + 7 := by
    apply h.invariant (P := fun s => s.Inv ∧ s.submitted.length ≤ s.transmitted.length + 7)
    · exact ⟨Tx.Inv.init bufs mem, Nat.zero_le _⟩
    · rintro u a v ⟨hu, hfree⟩ ⟨hroom, hs⟩
      exact ⟨hu.step hs, hu.step_room hfree hroom hs⟩
  obtain ⟨hinv, hfree⟩ := hboth
  have hcount : s.submitted.length - s.transmitted.length =
      (s.tdt + numTxDesc - s.tdh) % numTxDesc := by
    rw [hinv.outstanding.2, Nat.mod_eq_of_lt]
    simp only [numTxDesc]
    omega
  refine ⟨hcount, hinv.transmitted, fun frame hframe => ?_, fun k frame hk hframe => ?_⟩
  · have hlt := (List.getElem?_eq_some_iff.mp hframe).1
    have hne : s.tdh ≠ s.tdt := by
      intro heq
      rw [heq, Nat.add_sub_cancel_left, Nat.mod_self] at hcount
      omega
    have hs : s.step .transmit = some _ := if_pos hne
    obtain ⟨-, -, -, f, hf, htrans⟩ := hinv.transmit hs
    obtain rfl : f = frame := Option.some.inj (hf.symm.trans hframe)
    exact ⟨_, hs, htrans⟩
  · obtain ⟨-, hslice⟩ := hinv.intact hk hframe
    have hlen := congrArg List.length hslice
    rw [length_slice] at hlen
    rwa [hlen] at hslice

/-- The buffer of a frame that has been submitted and not transmitted is never
    overwritten, in any run. -/
theorem tx_buffers_intact {bufs : ℕ} {mem : ℕ → UInt8} {s : Tx}
    (h : Reachable (Steps Tx.step) (e1kTxInit bufs mem) s) {k : ℕ} {frame : List UInt8}
    (hk : s.transmitted.length ≤ k) (hframe : s.submitted[k]? = some frame) :
    slice s.mem (s.bufAddr (k % numTxDesc)) (s.ring (k % numTxDesc)).length.toNat = frame :=
  ((h.invariant (P := Tx.Inv) (Tx.Inv.init bufs mem) fun _ _ _ hu hs => hu.step hs).intact
    hk hframe).2

/-- One frame is submitted, transmitted and acknowledged. -/
theorem tx_ring_protocol_one_frame :
    ∃ s, Reachable (restrict (Steps Tx.step) Tx.HasRoom) (e1kTxInit 0x200000 fun _ => 0) s ∧
      s.submitted = [[1, 2, 3]] ∧ (s.tdt + numTxDesc - s.tdh) % numTxDesc = 1 ∧
      ∃ s', s.step .transmit = some s' ∧ s'.transmitted = [[1, 2, 3]] := by
  have hrun : ([.send [1, 2, 3], .proceed, .proceed, .proceed] : List TxAction).foldlM
      (fun s a => if s.HasRoom a then s.step a else none) (e1kTxInit 0x200000 fun _ => 0) =
        some _ := rfl
  obtain ⟨hcount, -, hnext, -⟩ := tx_ring_protocol ⟨_, run_restrict_of_foldlM hrun⟩
  exact ⟨_, ⟨_, run_restrict_of_foldlM hrun⟩, rfl, hcount.symm, hnext [1, 2, 3] rfl⟩

/-! ## The full ring -/

/-- The state after `n` calls of `e1k_send` have timed out from the start. -/
structure Stalled (n : ℕ) (s : Tx) : Prop where
  idle : s.place = .idle
  tdh : s.tdh = 0
  tdt : s.tdt = n % numTxDesc
  submitted : s.submitted.length = n
  transmitted : s.transmitted = []
  done : ∀ i < numTxDesc, s.Done i ↔ n ≤ i

theorem Stalled.init (bufs : ℕ) (mem : ℕ → UInt8) : Stalled 0 (e1kTxInit bufs mem) where
  idle := rfl
  tdh := rfl
  tdt := rfl
  submitted := rfl
  transmitted := rfl
  done := by
    intro i _
    refine iff_of_true ?_ (Nat.zero_le i)
    show (1 : UInt8) &&& statusDd ≠ 0
    decide

/-- The second loop of `e1k_send` while the controller does nothing. -/
theorem waitDone_rounds {s : Tx} {cur : ℕ} (hp : s.place = .waitDone cur 0) (hdone : ¬ s.Done cur)
    {n : ℕ} (hn : n ≤ 10000000) :
    Reachable (Steps Tx.step) s { s with place := .waitDone cur n } := by
  induction n with
  | zero =>
    rw [← hp]
    exact Reachable.refl s
  | succ n ih =>
    refine (ih (by omega)).snoc (a := .proceed) ?_
    have hdone' : ¬ Tx.Done { s with place := .waitDone cur n } cur := hdone
    simp only [Steps, Tx.step, Tx.proceed]
    rw [if_neg hdone', if_neg (by omega)]

/-- One more call times out. -/
theorem Stalled.send {n : ℕ} {s : Tx} (h : Stalled n s) (hn : n < numTxDesc) :
    ∃ s', Reachable (Steps Tx.step) s s' ∧ Stalled (n + 1) s' := by
  have hcur : s.tdt = n := by
    rw [h.tdt]
    exact Nat.mod_eq_of_lt hn
  have hand : s.tdt &&& (numTxDesc - 1) = n := by
    rw [show s.tdt &&& (numTxDesc - 1) = s.tdt % numTxDesc from
      Nat.and_two_pow_sub_one_eq_mod s.tdt 3, hcur]
    exact Nat.mod_eq_of_lt hn
  have hfree : s.Done n := (h.done n hn).mpr le_rfl
  -- the state after the write of `TDT`
  let u : Tx := { s with
    mem := store s.mem (s.bufAddr n) []
    ring := Function.update s.ring n { s.ring n with length := 0, cmd := txCmd, status := 0 }
    tdt := (n + 1) % numTxDesc
    submitted := s.submitted ++ [[]]
    place := .waitDone n 0 }
  have hsubmit : Reachable (Steps Tx.step) s u := by
    have h1 : s.step (.send []) = some { s with place := .waitFree [] n 0 } := by
      simp only [Tx.step, Tx.send, h.idle]
      rw [if_neg (by decide), hand]
    have h2 : Tx.step { s with place := .waitFree [] n 0 } .proceed =
        some { s with place := .fill [] n } := if_pos hfree
    have h3 : Tx.step { s with place := .fill [] n } .proceed =
        some { u with tdt := s.tdt, submitted := s.submitted, place := .submit [] n } := rfl
    have h4 : Tx.step { u with tdt := s.tdt, submitted := s.submitted, place := .submit [] n }
        .proceed = some u := rfl
    exact ((((Reachable.refl s).snoc h1).snoc h2).snoc h3).snoc h4
  have hbusy : ¬ u.Done n := by
    show ¬ (Function.update s.ring n _ n).status &&& statusDd ≠ 0
    rw [Function.update_self]
    show ¬ (0 : UInt8) &&& statusDd ≠ 0
    decide
  obtain ⟨acts, hrounds⟩ := waitDone_rounds (s := u) rfl hbusy le_rfl
  have htimeout : Tx.step { u with place := .waitDone n 10000000 } .proceed =
      some { u with place := .idle, result := some (-3) } := (if_neg hbusy).trans (if_pos (by decide))
  obtain ⟨acts', hrun⟩ := hsubmit
  refine ⟨_, ⟨_, (hrun.trans hrounds).snoc htimeout⟩, ⟨rfl, h.tdh, rfl, ?_, h.transmitted, ?_⟩⟩
  · show (s.submitted ++ [[]]).length = n + 1
    rw [List.length_append, List.length_singleton, h.submitted]
  · intro i hi
    show (Function.update s.ring n _ i).status &&& statusDd ≠ 0 ↔ n + 1 ≤ i
    by_cases hin : i = n
    · subst hin
      exact iff_of_false hbusy (by omega)
    · rw [Function.update_of_ne hin]
      have hold := h.done i hi
      unfold Tx.Done at hold
      rw [hold]
      omega

/-- Every slot taken, and the controller sees an empty ring. -/
structure Stuck (s₀ s : Tx) : Prop where
  empty : s.tdh = s.tdt
  taken : ∀ i < numTxDesc, ¬ s.Done i
  waiting : s.place = .idle ∨ ∃ frame cur wait, cur < numTxDesc ∧ s.place = .waitFree frame cur wait
  submitted : s.submitted = s₀.submitted
  transmitted : s.transmitted = s₀.transmitted

theorem Stuck.step {s₀ s s' : Tx} (h : Stuck s₀ s) {a : TxAction} (hs : s.step a = some s') :
    Stuck s₀ s' := by
  cases a with
  | transmit =>
    have hno : s.step .transmit = none := if_neg fun hne => hne h.empty
    rw [hno] at hs
    cases hs
  | send frame =>
    simp only [Tx.step, Tx.send] at hs
    split at hs
    · next hp =>
      split_ifs at hs
      · cases hs
        exact ⟨h.empty, h.taken, Or.inl hp, h.submitted, h.transmitted⟩
      · cases hs
        refine ⟨h.empty, h.taken, Or.inr ⟨_, _, _, ?_, rfl⟩, h.submitted, h.transmitted⟩
        exact Nat.lt_succ_of_le Nat.and_le_right
    · cases hs
  | proceed =>
    rcases h.waiting with hp | ⟨frame, cur, wait, hcur, hp⟩
    · simp only [Tx.step, Tx.proceed, hp] at hs
      cases hs
    · simp only [Tx.step, Tx.proceed, hp] at hs
      rw [if_neg (h.taken cur hcur)] at hs
      split_ifs at hs
      · cases hs
        exact ⟨h.empty, h.taken, Or.inl rfl, h.submitted, h.transmitted⟩
      · cases hs
        exact ⟨h.empty, h.taken, Or.inr ⟨_, _, _, hcur, rfl⟩, h.submitted, h.transmitted⟩

/-- **The transmit ring overflows.** While the controller stalls, eight calls of
    `e1k_send` time out. Then eight frames are outstanding but `TDT - TDH` is
    zero, and whatever happens afterwards, none of them is transmitted and no
    other frame is accepted. -/
theorem tx_ring_overflow :
    ∃ s, Reachable (Steps Tx.step) (e1kTxInit 0x200000 fun _ => 0) s ∧
      s.submitted.length - s.transmitted.length = 8 ∧
      (s.tdt + numTxDesc - s.tdh) % numTxDesc = 0 ∧
      ∀ s', Reachable (Steps Tx.step) s s' →
        s'.transmitted = s.transmitted ∧ s'.submitted = s.submitted := by
  have hfill : ∀ n ≤ numTxDesc, ∃ s,
      Reachable (Steps Tx.step) (e1kTxInit 0x200000 fun _ => 0) s ∧ Stalled n s := by
    intro n hn
    induction n with
    | zero => exact ⟨_, Reachable.refl _, Stalled.init _ _⟩
    | succ n ih =>
      obtain ⟨s, ⟨acts, hrun⟩, hst⟩ := ih (by omega)
      obtain ⟨s', ⟨acts', hrun'⟩, hst'⟩ := hst.send hn
      exact ⟨s', ⟨_, hrun.trans hrun'⟩, hst'⟩
  obtain ⟨s, hreach, h⟩ := hfill numTxDesc le_rfl
  have hstuck : Stuck s s := by
    refine ⟨by rw [h.tdh, h.tdt]; rfl, fun i hi => ?_, Or.inl h.idle, rfl, rfl⟩
    rw [h.done i hi]
    omega
  refine ⟨s, hreach, by simp [h.submitted, h.transmitted], by rw [h.tdh, h.tdt]; rfl,
    fun s' hs' => ?_⟩
  have hend := hs'.invariant (P := Stuck s) hstuck fun _ _ _ hu hs => hu.step hs
  exact ⟨hend.transmitted, hend.submitted⟩

end Mboot.E1k
