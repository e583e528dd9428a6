import Mboot.Common.Run
import Mboot.Common.RingLog
import Mboot.E1k.Model

/-!
# The receive ring

Packets are numbered in the order in which the controller completes them; the
ring of `DD` bits is a `RingLog` of the completed packets.

* `rx_ring_protocol`: in every interleaving, `RDT` is one behind `rx_tail`, the
  descriptors with `DD` are those from `rx_tail` up to `RDH`, the driver reads
  the completed packets in order, each once and as the controller left them, and
  the controller never writes where the driver has not finished.
-/

namespace Mboot.E1k

open Common

namespace Rx

variable {s s' : Rx}

/-- Slot `i` as the driver sees it. -/
def slot (s : Rx) (i : ℕ) : Option Packet := if s.Done i then some (s.ring i, s.buf i) else none

/-- The number of packets whose descriptor has been cleared. -/
def recycled (s : Rx) : ℕ := if s.place = .recycle then s.examined.length - 1 else s.examined.length

/-- The number of packets whose descriptor has been returned to the controller. -/
def published (s : Rx) : ℕ :=
  match s.place with
  | .head | .process => s.examined.length
  | .recycle | .publish _ => s.examined.length - 1

/-- What holds at a place of the driver. -/
def PlaceOk (s : Rx) : RxPlace → Prop
  | .head => True
  | .process => s.examined.length < s.completed.length
  | .recycle => 0 < s.examined.length
  | .publish completed => 0 < s.examined.length ∧ completed = (s.examined.length - 1) % numRxDesc

structure Inv (s : Rx) : Prop where
  log : RingLog numRxDesc s.slot s.completed s.recycled
  addr : ∀ i < numRxDesc, (s.ring i).addr = s.bufAddr i
  rxTail : s.rxTail = s.recycled % numRxDesc
  rdt : s.rdt = (s.published + (numRxDesc - 1)) % numRxDesc
  rdh : (s.rdh + s.advancing.toNat) % numRxDesc = s.completed.length % numRxDesc
  rdh_lt : s.rdh < numRxDesc
  /-- The controller keeps one descriptor back. -/
  room : s.completed.length ≤ s.published + (numRxDesc - 1)
  place : s.PlaceOk s.place
  advanced : s.advancing = true → 0 < s.completed.length
  examined : s.examined = (s.completed.take s.examined.length).mapIdx fun k p => (k % numRxDesc, p)

theorem Inv.init (bufs : ℕ) (mem : ℕ → UInt8) : Inv (e1kRxInit bufs mem) where
  log := by
    apply RingLog.nil
    intro i _
    apply if_neg
    show ¬ (0 : UInt8) &&& rxdStatDd ≠ 0
    decide
  addr := fun _ _ => rfl
  rxTail := rfl
  rdt := rfl
  rdh := rfl
  rdh_lt := by
    show 0 < numRxDesc
    decide
  room := Nat.zero_le _
  place := trivial
  advanced := fun h => by cases h
  examined := rfl

theorem published_le_recycled (s : Rx) : s.published ≤ s.recycled := by
  unfold published recycled
  split <;> simp_all

theorem Inv.examined_le (h : Inv s) : s.examined.length ≤ s.completed.length := by
  have hlen := congrArg List.length h.examined
  rw [List.length_mapIdx, List.length_take] at hlen
  omega

/-! ## Steps of the controller -/

/-- Where the controller may write: descriptor `RDH` is the slot of the next
    packet, and neither `DD` nor in the hands of the driver. -/
theorem Inv.target (h : Inv s) (hadv : s.advancing = false) (hne : s.rdh ≠ s.rdt) :
    s.rdh = s.completed.length % numRxDesc ∧ s.completed.length < s.published + (numRxDesc - 1) := by
  have hrdh := h.rdh
  have hlt := h.rdh_lt
  have hrdt := h.rdt
  have hroom := h.room
  rw [hadv] at hrdh
  simp only [numRxDesc, Bool.toNat_false] at *
  omega

/-- A store to one packet buffer leaves the others alone. -/
theorem slice_store_buf (mem : ℕ → UInt8) (bufs : ℕ) {i j : ℕ} (hne : i ≠ j) {data : List UInt8}
    (hdata : data.length ≤ rxBufSize) :
    slice (store mem (bufs + rxBufSize * j) data) (bufs + rxBufSize * i) rxBufSize =
      slice mem (bufs + rxBufSize * i) rxBufSize := by
  apply slice_store_of_disjoint
  simp only [rxBufSize] at *
  omega

/-- What `receive` does to the slots. -/
theorem Inv.receive_slot (h : Inv s) {w : WriteBack} (hs : s.receive w = some s') :
    s.advancing = false ∧ s.rdh ≠ s.rdt ∧
      (∃ p, s'.completed = s.completed ++ [p] ∧ s'.slot s.rdh = some p) ∧
      ∀ i < numRxDesc, i ≠ s.rdh → s'.ring i = s.ring i ∧ s'.buf i = s.buf i := by
  unfold Rx.receive at hs
  split_ifs at hs with hc
  obtain ⟨hadv, hne, hdata, hdd⟩ := hc
  cases hs
  have haddr := h.addr s.rdh h.rdh_lt
  refine ⟨hadv, hne, ⟨_, rfl, ?_⟩, fun i _ hi => ⟨Function.update_of_ne hi _ _, ?_⟩⟩
  · have hdone : (Function.update s.ring s.rdh (RxDesc.mk (s.ring s.rdh).addr w.length w.checksum
        w.status w.errors w.special) s.rdh).status &&& rxdStatDd ≠ 0 := by
      rw [Function.update_self]
      exact hdd
    simp only [slot, Done, hdone, not_false_eq_true, if_true, ne_eq, buf, bufAddr]
    rw [Function.update_self, haddr]
    rfl
  · show slice (store s.mem (s.ring s.rdh).addr w.data) (s.bufAddr i) rxBufSize = s.buf i
    rw [haddr]
    exact slice_store_buf s.mem s.bufs hi hdata

theorem slot_congr {i : ℕ} (hring : s'.ring i = s.ring i) (hbuf : s'.buf i = s.buf i) :
    s'.slot i = s.slot i := by
  have hdone : s'.Done i ↔ s.Done i := by
    unfold Done
    rw [hring]
  simp only [slot, hdone, hring, hbuf]

theorem Inv.receive (h : Inv s) {w : WriteBack} (hs : s.receive w = some s') : Inv s' := by
  obtain ⟨hadv, hne, ⟨p, hcomp, hslot⟩, hframe⟩ := h.receive_slot hs
  obtain ⟨htarget, hroom⟩ := h.target hadv hne
  have hpub := s.published_le_recycled
  unfold Rx.receive at hs
  split_ifs at hs with hc
  cases hs
  refine ⟨?_, fun i hi => ?_, h.rxTail, h.rdt, ?_, h.rdh_lt, ?_, ?_, fun _ => ?_, ?_⟩
  · show RingLog numRxDesc _ (_ ++ _) s.recycled
    rw [List.append_cancel_left hcomp]
    apply h.log.push
    · simp only [numRxDesc] at *
      omega
    · rw [← htarget]
      exact hslot
    · intro i hi hne
      rw [← htarget] at hne
      obtain ⟨hring, hbuf⟩ := hframe i hi hne
      exact slot_congr hring hbuf
  · show (Function.update s.ring s.rdh _ i).addr = s.bufAddr i
    by_cases hi' : i = s.rdh
    · subst hi'
      rw [Function.update_self]
      exact h.addr _ hi
    · rw [Function.update_of_ne hi']
      exact h.addr i hi
  · show (s.rdh + 1) % numRxDesc = _
    rw [htarget, List.length_append, List.length_singleton, Nat.mod_add_mod]
  · rw [List.length_append, List.length_singleton]
    exact hroom
  · have hplace := h.place
    show PlaceOk _ s.place
    cases hp : s.place with
    | head => trivial
    | process =>
      rw [hp] at hplace
      show s.examined.length < (s.completed ++ [_]).length
      rw [List.length_append, List.length_singleton]
      exact Nat.lt_succ_of_lt hplace
    | recycle | publish c => rw [hp] at hplace; exact hplace
  · rw [List.length_append, List.length_singleton]
    exact Nat.succ_pos _
  · show s.examined = ((s.completed ++ [_]).take s.examined.length).mapIdx _
    rw [List.take_append_of_le_length h.examined_le]
    exact h.examined

theorem Inv.advanceHead (h : Inv s) (hs : s.advanceHead = some s') : Inv s' := by
  unfold Rx.advanceHead at hs
  split_ifs at hs with hadv
  cases hs
  refine ⟨h.log, h.addr, h.rxTail, h.rdt, ?_, Nat.mod_lt _ (by decide), h.room, h.place,
    fun hf => (by cases hf), h.examined⟩
  have hrdh := h.rdh
  rw [hadv] at hrdh
  simpa using hrdh

/-! ## Steps of the driver -/

theorem Inv.done_rxTail_iff (h : Inv s) :
    s.Done s.rxTail ↔ s.recycled < s.completed.length := by
  have hhead := h.log.head (by decide)
  rw [← h.rxTail] at hhead
  unfold slot at hhead
  constructor
  · intro hd
    rw [if_pos hd] at hhead
    exact (List.getElem?_eq_some_iff.mp hhead.symm).1
  · intro hlt
    by_contra hd
    rw [if_neg hd] at hhead
    have := List.getElem?_eq_none_iff.mp hhead.symm
    omega

/-- The packet the driver finds at `rx_tail`. -/
theorem Inv.slot_rxTail (h : Inv s) (hlt : s.recycled < s.completed.length) :
    s.completed[s.recycled]? = some (s.ring s.rxTail, s.buf s.rxTail) := by
  have hdone := h.done_rxTail_iff.mpr hlt
  rw [← h.log.head (by decide), ← h.rxTail, slot, if_pos hdone]

theorem Inv.drain_head (h : Inv s) (hp : s.place = .head) : Inv s.drain := by
  unfold Rx.drain
  rw [hp]
  dsimp only
  split_ifs with hdone
  · have hrec : s.recycled = s.examined.length := by simp [recycled, hp]
    have hpub : s.published = s.examined.length := by simp [published, hp]
    have hlt := h.done_rxTail_iff.mp hdone
    rw [hrec] at hlt
    refine ⟨?_, h.addr, ?_, ?_, h.rdh, h.rdh_lt, ?_, hlt, h.advanced, h.examined⟩
    · have hlog := h.log
      rw [hrec] at hlog
      exact hlog
    · have htail := h.rxTail
      rw [hrec] at htail
      exact htail
    · have hrdt := h.rdt
      rw [hpub] at hrdt
      exact hrdt
    · have hroom := h.room
      rw [hpub] at hroom
      exact hroom
  · exact h

theorem Inv.drain_process (h : Inv s) (hp : s.place = .process) : Inv s.drain := by
  have hrec : s.recycled = s.examined.length := by simp [recycled, hp]
  have hpub : s.published = s.examined.length := by simp [published, hp]
  have hlt : s.examined.length < s.completed.length := by
    have hplace := h.place
    rwa [hp] at hplace
  have hpacket := h.slot_rxTail (hrec ▸ hlt)
  have hlog := h.log
  have htail := h.rxTail
  have hrdt := h.rdt
  have hroom := h.room
  rw [hrec] at hlog htail hpacket
  rw [hpub] at hrdt hroom
  -- the packet is counted as examined, but not yet as recycled or published
  have hlen : ∀ x, (s.examined ++ [x]).length - 1 = s.examined.length := by simp
  unfold Rx.drain
  rw [hp]
  refine ⟨?_, h.addr, ?_, ?_, h.rdh, h.rdh_lt, ?_, ?_, h.advanced, ?_⟩
  · show RingLog numRxDesc s.slot s.completed ((s.examined ++ [_]).length - 1)
    rw [hlen]
    exact hlog
  · show s.rxTail = ((s.examined ++ [_]).length - 1) % numRxDesc
    rw [hlen]
    exact htail
  · show s.rdt = ((s.examined ++ [_]).length - 1 + (numRxDesc - 1)) % numRxDesc
    rw [hlen]
    exact hrdt
  · show s.completed.length ≤ (s.examined ++ [_]).length - 1 + (numRxDesc - 1)
    rw [hlen]
    exact hroom
  · show 0 < (s.examined ++ [_]).length
    simp
  · show s.examined ++ [(s.rxTail, s.ring s.rxTail, s.buf s.rxTail)] =
      (s.completed.take (s.examined ++ [_]).length).mapIdx _
    rw [List.length_append, List.length_singleton, List.take_add_one, hpacket, Option.toList_some,
      List.mapIdx_append, ← h.examined, List.length_take, Nat.min_eq_left hlt.le, htail]
    simp

theorem Inv.drain_recycle (h : Inv s) (hp : s.place = .recycle) : Inv s.drain := by
  have hpos := h.place
  rw [hp] at hpos
  have hpos' : 0 < s.examined.length := hpos
  have hrec : s.recycled = s.examined.length - 1 := by simp [recycled, hp]
  have hpub : s.published = s.examined.length - 1 := by simp [published, hp]
  have hle := h.examined_le
  have hlt : s.recycled < s.completed.length := by omega
  have htail := h.rxTail
  have hrdt := h.rdt
  have hroom := h.room
  rw [hpub] at hrdt hroom
  unfold Rx.drain
  rw [hp]
  refine ⟨?_, fun i hi => ?_, ?_, hrdt, h.rdh, h.rdh_lt, hroom, ⟨hpos, ?_⟩, h.advanced, h.examined⟩
  · show RingLog numRxDesc _ s.completed s.examined.length
    rw [show s.examined.length = s.recycled + 1 by omega]
    apply h.log.pop hlt
    · rw [← htail]
      apply if_neg
      show ¬ (Function.update s.ring s.rxTail _ s.rxTail).status &&& rxdStatDd ≠ 0
      rw [Function.update_self]
      show ¬ (0 : UInt8) &&& rxdStatDd ≠ 0
      decide
    · intro i _ hi
      rw [← htail] at hi
      exact slot_congr (Function.update_of_ne hi _ _) rfl
  · show (Function.update s.ring s.rxTail _ i).addr = s.bufAddr i
    by_cases hi' : i = s.rxTail
    · subst hi'
      rw [Function.update_self]
    · rw [Function.update_of_ne hi']
      exact h.addr i hi
  · show (s.rxTail + 1) % numRxDesc = s.examined.length % numRxDesc
    rw [htail, Nat.mod_add_mod, show s.recycled + 1 = s.examined.length by omega]
  · show s.rxTail = _
    rw [htail, hrec]

theorem Inv.drain_publish (h : Inv s) {c : ℕ} (hp : s.place = .publish c) : Inv s.drain := by
  have hplace := h.place
  rw [hp] at hplace
  obtain ⟨hpos, hc⟩ := hplace
  have hrec : s.recycled = s.examined.length := by simp [recycled, hp]
  have hpub : s.published = s.examined.length - 1 := by simp [published, hp]
  have hlog := h.log
  have htail := h.rxTail
  have hroom := h.room
  rw [hrec] at hlog htail
  rw [hpub] at hroom
  unfold Rx.drain
  rw [hp]
  refine ⟨hlog, h.addr, htail, ?_, h.rdh, h.rdh_lt, ?_, trivial, h.advanced, h.examined⟩
  · show c = (s.examined.length + (numRxDesc - 1)) % numRxDesc
    rw [hc]
    simp only [numRxDesc]
    omega
  · show s.completed.length ≤ s.examined.length + (numRxDesc - 1)
    omega

theorem Inv.drain (h : Inv s) : Inv s.drain := by
  cases hp : s.place with
  | head => exact h.drain_head hp
  | process => exact h.drain_process hp
  | recycle => exact h.drain_recycle hp
  | publish c => exact h.drain_publish hp

theorem Inv.step (h : Inv s) {a : RxAction} (hs : s.step a = some s') : Inv s' := by
  cases a with
  | receive w => exact h.receive hs
  | advanceHead => exact h.advanceHead hs
  | drain =>
    cases hs
    exact h.drain

/-! ## Main theorem -/

/-- The driver has not finished with descriptor `i` and its buffer: `DD` is set,
    or the driver works on it. -/
def Unfinished (s : Rx) (i : ℕ) : Prop :=
  s.Done i ∨
    match s.place with
    | .head => False
    | .process | .recycle => i = s.rxTail
    | .publish completed => i = completed

/-- The controller does not write where the driver has not finished. -/
theorem Inv.receive_frame (h : Inv s) {w : WriteBack} (hs : s.receive w = some s') {i : ℕ}
    (hi : i < numRxDesc) (hun : s.Unfinished i) : s'.ring i = s.ring i ∧ s'.buf i = s.buf i := by
  obtain ⟨hadv, hne, -, hframe⟩ := h.receive_slot hs
  obtain ⟨htarget, hroom⟩ := h.target hadv hne
  have hle := s.published_le_recycled
  have hex := h.examined_le
  refine hframe i hi ?_
  -- the next packet's slot is none of those from the first unpublished packet on
  have hother : ∀ k, s.published ≤ k → k < s.completed.length → k % numRxDesc ≠ s.rdh := by
    intro k hk hlt
    rw [htarget]
    exact mod_ne_of_lt_of_lt hlt (by simp only [numRxDesc] at *; omega)
  rcases hun with hdone | hbusy
  · intro heq
    have hnone := h.log.empty i hi fun k hk hlt hki =>
      hother k (by omega) hlt (hki.trans heq)
    rw [slot, if_pos hdone] at hnone
    cases hnone
  · have hplace := h.place
    have htail := h.rxTail
    cases hp : s.place with
    | head =>
      rw [hp] at hbusy
      exact hbusy.elim
    | process =>
      rw [hp] at hbusy hplace
      have hrec : s.recycled = s.examined.length := by simp [recycled, hp]
      rw [show i = s.rxTail from hbusy, htail, hrec]
      exact hother _ (by omega) hplace
    | recycle =>
      rw [hp] at hbusy hplace
      have hpos : 0 < s.examined.length := hplace
      have hrec : s.recycled = s.examined.length - 1 := by simp [recycled, hp]
      rw [show i = s.rxTail from hbusy, htail, hrec]
      exact hother _ (by omega) (by omega)
    | publish c =>
      rw [hp] at hbusy hplace
      obtain ⟨hpos, hc⟩ := hplace
      have hpub : s.published = s.examined.length - 1 := by simp [published, hp]
      rw [show i = c from hbusy, hc]
      exact hother _ (by omega) (by omega)

end Rx

/-- **The receive ring.** In every state reached by the controller and
    `e1k_drain_rx` in any interleaving:
    * `RDT` is `rx_tail - 1`, except between the two stores that advance them;
    * the descriptors with `DD` are those from `rx_tail` up to `RDH`, except
      between the controller's write-back and its advance of `RDH`;
    * the packets the driver has read are the first ones the controller
      completed, in order, each once, from the next slot of the ring, and with
      the contents the controller gave them; when the driver finds no `DD`, it
      has read all of them;
    * no step of the controller changes a descriptor or buffer the driver has
      not finished with. -/
theorem rx_ring_protocol {bufs : ℕ} {mem : ℕ → UInt8} {s : Rx}
    (h : Reachable (Steps Rx.step) (e1kRxInit bufs mem) s) :
    ((∀ c, s.place ≠ .publish c) → s.rdt = (s.rxTail + numRxDesc - 1) % numRxDesc) ∧
    (s.advancing = false → ∀ i < numRxDesc, (s.Done i ↔
      (i + numRxDesc - s.rxTail) % numRxDesc < (s.rdh + numRxDesc - s.rxTail) % numRxDesc)) ∧
    s.examined = (s.completed.take s.examined.length).mapIdx (fun k p => (k % numRxDesc, p)) ∧
    (s.place = .head → ¬ s.Done s.rxTail → s.examined.length = s.completed.length) ∧
    (∀ a s', a ≠ .drain → s.step a = some s' → ∀ i < numRxDesc, s.Unfinished i →
      s'.ring i = s.ring i ∧ s'.buf i = s.buf i) := by
  have hinv := h.invariant (P := Rx.Inv) (Rx.Inv.init bufs mem) fun _ _ _ hu hs => hu.step hs
  refine ⟨fun hplace => ?_, fun hadv i hi => ?_, hinv.examined, fun hp hdone => ?_,
    fun a s' ha hs i hi hun => ?_⟩
  · have hcount : s.published = s.recycled := by
      unfold Rx.published Rx.recycled
      cases hp : s.place with
      | publish c => exact absurd hp (hplace c)
      | head | process | recycle => simp
    rw [hinv.rdt, hinv.rxTail, hcount]
    simp only [numRxDesc]
    omega
  · have hrdh := hinv.rdh
    have hlt := hinv.rdh_lt
    have hroom := hinv.room
    have hle := s.published_le_recycled
    rw [hadv, Bool.toNat_false, Nat.add_zero, Nat.mod_eq_of_lt hlt] at hrdh
    rw [hinv.rxTail, hrdh, ← hinv.log.isSome_iff (by simp only [numRxDesc] at *; omega) hi, Rx.slot]
    split_ifs with hd
    · exact iff_of_true hd rfl
    · exact iff_of_false hd (by simp)
  · have hrec : s.recycled = s.examined.length := by simp [Rx.recycled, hp]
    have hge := hinv.done_rxTail_iff.not.mp hdone
    have hle := hinv.examined_le
    omega
  · cases a with
    | receive w => exact hinv.receive_frame hs hi hun
    | advanceHead =>
      simp only [Rx.step, Rx.advanceHead] at hs
      split_ifs at hs
      cases hs
      exact ⟨rfl, rfl⟩
    | drain => exact absurd rfl ha

/-- A second packet arrives while the driver handles the first one. -/
theorem rx_ring_protocol_two_packets :
    ∃ s, Reachable (Steps Rx.step) (e1kRxInit 0x200000 fun _ => 0) s ∧ s.place = .recycle ∧
      s.completed.length = 2 ∧ s.rdt = (s.rxTail + numRxDesc - 1) % numRxDesc ∧ s.Done 1 ∧
      s.examined = (s.completed.take 1).mapIdx fun k p => (k % numRxDesc, p) := by
  have hrun : ([.receive ⟨[1, 2, 3], 3, 0, 3, 0, 0⟩, .advanceHead, .drain, .drain,
      .receive ⟨[4, 5], 2, 0, 3, 0, 0⟩, .advanceHead] : List RxAction).foldlM Rx.step
      (e1kRxInit 0x200000 fun _ => 0) = some _ := rfl
  obtain ⟨hrdt, hdone, hexamined, -, -⟩ := rx_ring_protocol ⟨_, run_of_foldlM hrun⟩
  refine ⟨_, ⟨_, run_of_foldlM hrun⟩, rfl, rfl, hrdt (fun c h => by cases h), ?_, hexamined⟩
  exact (hdone rfl 1 (by decide)).mpr (by decide)

/-- The packets handed to the network stack are the first completed ones that end
    a packet without errors, in order. -/
theorem rx_delivers_completed {bufs : ℕ} {mem : ℕ → UInt8} {s : Rx}
    (h : Reachable (Steps Rx.step) (e1kRxInit bufs mem) s) :
    s.delivered = (s.completed.take s.examined.length).filterMap fun p => packetOf p.1 p.2 := by
  have hinv := h.invariant (P := Rx.Inv) (Rx.Inv.init bufs mem) fun _ _ _ hu hs => hu.step hs
  have hread : s.delivered = s.examined.filterMap fun e => packetOf e.2.1 e.2.2 := by
    apply h.invariant (P := fun s => s.delivered = s.examined.filterMap fun e => packetOf e.2.1 e.2.2)
    · rfl
    · intro u a v hu hs
      cases a with
      | receive w =>
        simp only [Steps, Rx.step, Rx.receive] at hs
        split_ifs at hs
        cases hs
        exact hu
      | advanceHead =>
        simp only [Steps, Rx.step, Rx.advanceHead] at hs
        split_ifs at hs
        cases hs
        exact hu
      | drain =>
        cases hs
        unfold Rx.drain
        cases hp : u.place with
        | head =>
          dsimp only
          split_ifs <;> exact hu
        | process =>
          dsimp only
          rw [hu, List.filterMap_append]
          cases hpkt : packetOf (u.ring u.rxTail) (u.buf u.rxTail) <;> simp [hpkt]
        | recycle | publish c => exact hu
  have hsnd : s.examined.map Prod.snd = s.completed.take s.examined.length := by
    refine (congrArg (List.map Prod.snd) hinv.examined).trans (List.ext_getElem? fun k => ?_)
    simp [Function.comp_def]
  rw [hread, ← hsnd, List.filterMap_map]
  rfl

end Mboot.E1k
