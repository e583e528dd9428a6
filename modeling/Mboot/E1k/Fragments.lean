import Mboot.E1k.Receive

/-!
# Frames over several descriptors

A frame longer than a receive buffer is spread over consecutive descriptors, of which
the last one has `EOP`. `e1k_drain_rx` looks at one descriptor at a time and keeps
nothing of the one before, so it takes the last part of such a frame for a frame.

* `whole_frames_delivered_iff`: in every state, the frames handed to the network stack
  are the error-free frames of one descriptor if and only if every longer frame the
  driver has read had an error.
* `last_fragment_delivered`: the last ten bytes of a frame of 2058 bytes are delivered.
-/

namespace Mboot.E1k

open Common

/-- A frame on the wire, with the error bits the controller reports for it. -/
structure WireFrame where
  data : List UInt8
  errors : UInt8

/-- None of the errors in `E1K_RXD_ERR_FRAME_ERR_MASK`. -/
def WireFrame.ErrorFree (f : WireFrame) : Prop := f.errors &&& rxdErrFrameErrMask = 0

instance (f : WireFrame) : Decidable f.ErrorFree := inferInstanceAs (Decidable (_ = _))

/-- What a descriptor holds of a frame. -/
def piece (p : Packet) : List UInt8 := p.2.take p.1.length.toNat

/-- The controller has spread the frame over the descriptors `front` and `last`: the
    front ones are full, and `last` has `EOP` and the errors. -/
structure Spread (f : WireFrame) (front : List Packet) (last : Packet) : Prop where
  data : f.data = (front ++ [last]).flatMap piece
  errors : last.1.errors = f.errors
  eop : last.1.status &&& rxdStatEop ≠ 0
  front_eop : ∀ p ∈ front, p.1.status &&& rxdStatEop = 0
  front_length : ∀ p ∈ front, p.1.length.toNat = rxBufSize
  length_pos : 0 < last.1.length.toNat
  length_le : last.1.length.toNat ≤ rxBufSize

/-- A frame with the descriptors it is spread over. -/
structure SpreadFrame where
  frame : WireFrame
  front : List Packet
  last : Packet
  spread : Spread frame front last

/-- The descriptors of a frame. -/
def SpreadFrame.packets (g : SpreadFrame) : List Packet := g.front ++ [g.last]

/-! ## One frame -/

theorem packetOf_of_not_eop {p : Packet} (h : p.1.status &&& rxdStatEop = 0) :
    packetOf p.1 p.2 = none := by
  apply if_neg
  rintro ⟨heop, -⟩
  exact heop h

theorem filterMap_packetOf_of_not_eop {ps : List Packet}
    (h : ∀ p ∈ ps, p.1.status &&& rxdStatEop = 0) :
    (ps.filterMap fun p => packetOf p.1 p.2) = [] := by
  rw [List.filterMap_eq_nil_iff]
  intro p hp
  exact packetOf_of_not_eop (h p hp)

/-- Of an error-free frame the last part is delivered, of any other nothing. -/
theorem SpreadFrame.filterMap_packetOf (g : SpreadFrame) :
    (g.packets.filterMap fun p => packetOf p.1 p.2) =
      if g.frame.ErrorFree then [piece g.last] else [] := by
  have hlast : packetOf g.last.1 g.last.2 =
      if g.frame.ErrorFree then some (piece g.last) else none := by
    have hle := g.spread.length_le
    have hpos : g.last.1.length > 0 := UInt16.lt_iff_toNat_lt.mpr g.spread.length_pos
    have herr : g.last.1.errors &&& rxdErrFrameErrMask = 0 ↔ g.frame.ErrorFree := by
      rw [g.spread.errors]
      rfl
    unfold packetOf
    rw [if_neg (show ¬ g.last.1.length.toNat > rxBufSize by omega)]
    by_cases hok : g.frame.ErrorFree
    · rw [if_pos hok, if_pos ⟨g.spread.eop, herr.mpr hok, hpos⟩]
      rfl
    · rw [if_neg hok, if_neg fun h => hok (herr.mp h.2.1)]
  rw [packets, List.filterMap_append, filterMap_packetOf_of_not_eop g.spread.front_eop,
    List.nil_append, List.filterMap_cons, hlast]
  split_ifs <;> rfl

section Sizes

variable {g : SpreadFrame}

/-- A frame fits one buffer exactly when it has one descriptor. -/
theorem SpreadFrame.length_le_iff (g : SpreadFrame)
    (hbuf : ∀ p ∈ g.packets, p.2.length = rxBufSize) :
    g.frame.data.length ≤ rxBufSize ↔ g.front = [] := by
  have hpiece : ∀ p ∈ g.packets, p.1.length.toNat ≤ rxBufSize →
      (piece p).length = p.1.length.toNat := by
    intro p hp hle
    rw [piece, List.length_take, hbuf p hp, Nat.min_eq_left hle]
  have hlast := hpiece g.last (by simp [packets]) g.spread.length_le
  have hle := g.spread.length_le
  have hpos := g.spread.length_pos
  rw [g.spread.data, List.flatMap_append, List.length_append, List.flatMap_singleton, hlast]
  cases hfront : g.front with
  | nil =>
    simp only [List.flatMap_nil, List.length_nil, iff_true]
    omega
  | cons p ps =>
    have hp : p ∈ g.front := by
      rw [hfront]
      exact List.mem_cons_self
    have hfull := g.spread.front_length p hp
    have hfirst := hpiece p (List.mem_append_left _ hp) hfull.le
    simp only [List.flatMap_cons, List.length_append, reduceCtorEq, iff_false]
    omega

theorem SpreadFrame.piece_last (hfront : g.front = []) : piece g.last = g.frame.data := by
  rw [g.spread.data, hfront, List.nil_append, List.flatMap_singleton]

end Sizes

/-! ## Sequences of frames -/

/-- The error-free frames that fit one descriptor. -/
def wholeFrames (gs : List SpreadFrame) : List (List UInt8) :=
  (gs.filter fun g => g.frame.ErrorFree ∧ g.frame.data.length ≤ rxBufSize).map (·.frame.data)

/-- What the driver delivers of a sequence of frames. -/
def deliveredFrames (gs : List SpreadFrame) : List (List UInt8) :=
  (gs.filter fun g => g.frame.ErrorFree).map (piece ·.last)

theorem filterMap_packetOf_flatMap (gs : List SpreadFrame) :
    ((gs.flatMap SpreadFrame.packets).filterMap fun p => packetOf p.1 p.2) =
      deliveredFrames gs := by
  unfold deliveredFrames
  induction gs with
  | nil => rfl
  | cons g gs ih =>
    rw [List.flatMap_cons, List.filterMap_append, ih, g.filterMap_packetOf, List.filter_cons]
    split_ifs <;> simp_all

theorem deliveredFrames_eq_iff {gs : List SpreadFrame}
    (hbuf : ∀ g ∈ gs, ∀ p ∈ g.packets, p.2.length = rxBufSize) :
    deliveredFrames gs = wholeFrames gs ↔
      ∀ g ∈ gs, rxBufSize < g.frame.data.length → ¬ g.frame.ErrorFree := by
  have hwhole : wholeFrames gs =
      ((gs.filter fun g => g.frame.ErrorFree).filter
        fun g => g.frame.data.length ≤ rxBufSize).map (·.frame.data) := by
    unfold wholeFrames
    rw [List.filter_filter]
    congr 2
    funext g
    rw [Bool.decide_and, Bool.and_comm]
  have hmem : ∀ g, g ∈ gs.filter (fun g => g.frame.ErrorFree) ↔ g ∈ gs ∧ g.frame.ErrorFree := by
    intro g
    rw [List.mem_filter, decide_eq_true_eq]
  rw [hwhole, deliveredFrames]
  constructor
  · -- a longer frame without errors makes the one list longer than the other
    intro h g hg hlong hok
    have hlen := congrArg List.length h
    rw [List.length_map, List.length_map, eq_comm, List.length_filter_eq_length_iff] at hlen
    have hfits := of_decide_eq_true (hlen g ((hmem g).mpr ⟨hg, hok⟩))
    omega
  · intro h
    have hfits : ∀ g ∈ gs.filter (fun g => g.frame.ErrorFree),
        g.frame.data.length ≤ rxBufSize := by
      intro g hg
      rw [hmem] at hg
      by_contra hlong
      exact h g hg.1 (Nat.lt_of_not_le hlong) hg.2
    have hself : (gs.filter fun g => g.frame.ErrorFree).filter
        (fun g => g.frame.data.length ≤ rxBufSize) = gs.filter fun g => g.frame.ErrorFree := by
      rw [List.filter_eq_self]
      intro g hg
      exact decide_eq_true (hfits g hg)
    rw [hself]
    apply List.map_congr_left
    intro g hg
    exact SpreadFrame.piece_last
      ((g.length_le_iff (hbuf g ((hmem g).mp hg).1)).mp (hfits g hg))

/-! ## Main theorem -/

theorem length_completed {bufs : ℕ} {mem : ℕ → UInt8} {s : Rx}
    (h : Reachable (Steps Rx.step) (e1kRxInit bufs mem) s) :
    ∀ p ∈ s.completed, p.2.length = rxBufSize := by
  apply h.invariant (P := fun s => ∀ p ∈ s.completed, p.2.length = rxBufSize)
  · intro p hp
    cases hp
  · intro u a v hu hs
    cases a with
    | receive w =>
      simp only [Steps, Rx.step, Rx.receive] at hs
      split_ifs at hs
      cases hs
      intro p hp
      rcases List.mem_append.mp hp with hp | hp
      · exact hu p hp
      · rw [List.mem_singleton.mp hp]
        simp only [length_slice]
    | advanceHead =>
      simp only [Steps, Rx.step, Rx.advanceHead] at hs
      split_ifs at hs
      cases hs
      exact hu
    | drain =>
      cases hs
      have hsame : u.drain.completed = u.completed := by
        unfold Rx.drain
        split
        · split_ifs <;> rfl
        all_goals rfl
      rw [hsame]
      exact hu

/-- In every state, with the descriptors the driver has read being those of the frames
    `gs` and the first ones of a frame still to come: the frames delivered are the
    error-free frames of one descriptor, with their full length, if and only if every
    frame of `gs` that is longer than a buffer had an error. -/
theorem whole_frames_delivered_iff {bufs : ℕ} {mem : ℕ → UInt8} {s : Rx}
    (h : Reachable (Steps Rx.step) (e1kRxInit bufs mem) s) {gs : List SpreadFrame}
    {rest : List Packet} (hrest : ∀ p ∈ rest, p.1.status &&& rxdStatEop = 0)
    (hread : s.completed.take s.examined.length = gs.flatMap SpreadFrame.packets ++ rest) :
    s.delivered = wholeFrames gs ↔
      ∀ g ∈ gs, rxBufSize < g.frame.data.length → ¬ g.frame.ErrorFree := by
  have hbuf : ∀ g ∈ gs, ∀ p ∈ g.packets, p.2.length = rxBufSize := by
    intro g hg p hp
    apply length_completed h p
    apply List.mem_of_mem_take (i := s.examined.length)
    rw [hread]
    exact List.mem_append_left _ (List.mem_flatMap.mpr ⟨g, hg, hp⟩)
  rw [rx_delivers_completed h, hread, List.filterMap_append, filterMap_packetOf_flatMap,
    filterMap_packetOf_of_not_eop hrest, List.append_nil, deliveredFrames_eq_iff hbuf]

/-- The frame that descriptors with the right flags and lengths hold. -/
def heldFrame (front : List Packet) (last : Packet)
    (hfront : ∀ p ∈ front, p.1.status &&& rxdStatEop = 0 ∧ p.1.length.toNat = rxBufSize)
    (hlast : last.1.status &&& rxdStatEop ≠ 0 ∧ 0 < last.1.length.toNat ∧
      last.1.length.toNat ≤ rxBufSize) : SpreadFrame where
  frame := ⟨(front ++ [last]).flatMap piece, last.1.errors⟩
  front := front
  last := last
  spread :=
    { data := rfl
      errors := rfl
      eop := hlast.1
      front_eop := fun p hp => (hfront p hp).1
      front_length := fun p hp => (hfront p hp).2
      length_pos := hlast.2.1
      length_le := hlast.2.2 }

/-- Error bits, status and length of a descriptor. -/
def flags (p : Packet) : UInt8 × UInt8 × UInt16 := (p.1.errors, p.1.status, p.1.length)

/-- A frame of three bytes, and one with an error in two descriptors, which is dropped. -/
theorem whole_frames_delivered_three_bytes :
    ∃ (s : Rx) (g g' : SpreadFrame), Reachable (Steps Rx.step) (e1kRxInit 0x200000 fun _ => 0) s ∧
      s.completed.take s.examined.length = g.packets ++ g'.packets ∧ g'.front ≠ [] ∧
      ¬ g'.frame.ErrorFree ∧ s.delivered = [[1, 2, 3]] := by
  obtain ⟨s, hrun, hexamined, hflags, hpiece⟩ : ∃ s,
      Run (Steps Rx.step) (e1kRxInit 0x200000 fun _ => 0)
        ([.receive ⟨[1, 2, 3], 3, 0, 3, 0, 0⟩, .advanceHead,
          .receive ⟨List.replicate 2048 0x61, 2048, 0, 1, 0, 0⟩, .advanceHead,
          .receive ⟨List.replicate 10 0x62, 10, 0, 3, 1, 0⟩, .advanceHead] ++
          List.replicate 12 .drain) s ∧
      s.examined.length = 3 ∧ s.completed.map flags = [(0, 3, 3), (0, 1, 2048), (1, 3, 10)] ∧
      s.completed.head?.map piece = some [1, 2, 3] :=
    exists_run (by decide +kernel)
  obtain ⟨p, q, r, hcompleted⟩ : ∃ p q r, s.completed = [p, q, r] := by
    rw [← List.length_eq_three, ← List.length_map (f := flags), hflags]
    rfl
  rw [hcompleted] at hflags hpiece
  simp only [List.map_cons, List.map_nil, List.cons.injEq, flags, Prod.mk.injEq, and_true,
    List.head?_cons, Option.map_some, Option.some_inj] at hflags hpiece
  obtain ⟨⟨hpe, hps, hpl⟩, ⟨-, hqs, hql⟩, hre, hrs, hrl⟩ := hflags
  let g := heldFrame [] p (by simp) (by rw [hps, hpl]; decide)
  let g' := heldFrame [q] r (List.forall_mem_singleton.mpr (by rw [hqs, hql]; decide))
    (by rw [hrs, hrl]; decide)
  have hread : s.completed.take s.examined.length = [g, g'].flatMap SpreadFrame.packets ++ [] := by
    rw [hcompleted, hexamined]
    rfl
  have hdata : g.frame.data = [1, 2, 3] := by rw [← hpiece]; exact List.append_nil _
  have hno : ¬ g'.frame.ErrorFree := by
    show ¬ r.1.errors &&& rxdErrFrameErrMask = 0
    rw [hre]
    decide
  have hwhole : s.delivered = wholeFrames [g, g'] := by
    rw [whole_frames_delivered_iff ⟨_, hrun⟩ (List.forall_mem_nil _) hread]
    intro f hf hlong
    obtain rfl | rfl := List.mem_pair.mp hf
    · rw [hdata] at hlong
      exact absurd hlong (by decide)
    · exact hno
  refine ⟨s, g, g', ⟨_, hrun⟩, by rw [hread]; simp, by simp [g', heldFrame], hno,
    hwhole.trans ?_⟩
  have hok : g.frame.ErrorFree ∧ g.frame.data.length ≤ rxBufSize := by
    refine ⟨?_, by rw [hdata]; decide⟩
    show p.1.errors &&& rxdErrFrameErrMask = 0
    rw [hpe]
    decide
  unfold wholeFrames
  rw [List.filter_cons, if_pos (by simpa using hok), List.filter_cons, if_neg (by simp [hno]),
    List.filter_nil, List.map_singleton, hdata]

/-- A frame of 2058 bytes in two descriptors: its last ten bytes are delivered. -/
theorem last_fragment_delivered :
    ∃ (s : Rx) (g : SpreadFrame), Reachable (Steps Rx.step) (e1kRxInit 0x200000 fun _ => 0) s ∧
      s.completed.take s.examined.length = g.packets ∧ g.frame.ErrorFree ∧
      g.frame.data.length = 2058 ∧ wholeFrames [g] = [] ∧
      s.delivered = [List.replicate 10 0x62] := by
  obtain ⟨s, hrun, hexamined, hflags, hdelivered⟩ : ∃ s,
      Run (Steps Rx.step) (e1kRxInit 0x200000 fun _ => 0)
        ([.receive ⟨List.replicate 2048 0x61, 2048, 0, 1, 0, 0⟩, .advanceHead,
          .receive ⟨List.replicate 10 0x62, 10, 0, 3, 0, 0⟩, .advanceHead] ++
          List.replicate 8 .drain) s ∧
      s.examined.length = 2 ∧ s.completed.map flags = [(0, 1, 2048), (0, 3, 10)] ∧
      s.delivered = [List.replicate 10 0x62] :=
    exists_run (by decide +kernel)
  obtain ⟨p, q, hcompleted⟩ : ∃ p q, s.completed = [p, q] := by
    rw [← List.length_eq_two, ← List.length_map (f := flags), hflags]
    rfl
  have hbuf := length_completed ⟨_, hrun⟩
  rw [hcompleted] at hflags hbuf
  simp only [List.map_cons, List.map_nil, List.cons.injEq, flags, Prod.mk.injEq, and_true]
    at hflags
  obtain ⟨⟨-, hps, hpl⟩, hqe, hqs, hql⟩ := hflags
  let g := heldFrame [p] q (List.forall_mem_singleton.mpr (by rw [hps, hpl]; decide))
    (by rw [hqs, hql]; decide)
  have hlen : g.frame.data.length = 2058 := by
    show ([p, q].flatMap piece).length = 2058
    simp [piece, hbuf p, hbuf q, hpl, hql, rxBufSize]
  have hok : g.frame.ErrorFree := by
    show q.1.errors &&& rxdErrFrameErrMask = 0
    rw [hqe]
    decide
  refine ⟨s, g, ⟨_, hrun⟩, ?_, hok, hlen, ?_, hdelivered⟩
  · rw [hcompleted, hexamined]
    rfl
  · simp [wholeFrames, hlen, rxBufSize]

end Mboot.E1k
