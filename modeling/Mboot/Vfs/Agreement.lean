import Mboot.Vfs.Invariant

/-!
# Descriptors and reference counts agree

For runs in which no `/dev/udp` device is opened, handles are unambiguous, and
the invariant of the tables becomes a statement about handles:

* `RefsAgree k`: a file, cpuinfo or socket slot is in use exactly when some
  descriptor of a live task holds its handle, and `refs` is their number.
* `NoStale s`: every descriptor refers to the incarnation of the object it was
  made for, and that object is in use.

`refs_match_descriptors` has both for every reachable state.
-/

namespace Mboot.Vfs

open Common Scheduler Fat16 Net

variable {τ ν : Type*}

/-- The number of descriptor slots, over all tasks that have not exited, that
    hold the handle. -/
def Kernel.holders (k : Kernel τ ν) (handle : ℤ) : ℕ :=
  ((Finset.range k.count ×ˢ (Finset.univ : Finset (Fin maxFds))).filter fun x =>
    (k.procs x.1).exited = false ∧ (k.procs x.1).fds x.2 = handle).card

/-- The slots in use and their `refs` fields follow the descriptors. -/
structure RefsAgree (k : Kernel τ ν) : Prop where
  files : ∀ i, ((k.back.openFiles i).used = true ↔ 1 ≤ k.holders i.val) ∧
    ((k.back.openFiles i).used = true → (k.back.openFiles i).refs = k.holders i.val)
  cpuinfo : ∀ i, ((k.back.cpuinfoFiles i).used = true ↔ 1 ≤ k.holders (devCpuinfoBase - i.val)) ∧
    ((k.back.cpuinfoFiles i).used = true →
      (k.back.cpuinfoFiles i).refs = k.holders (devCpuinfoBase - i.val))
  sockets : ∀ i, ((k.back.sockets i).used = true ↔ 1 ≤ k.holders (socketHandleFromIndex i)) ∧
    ((k.back.sockets i).used = true →
      (k.back.sockets i).refs = k.holders (socketHandleFromIndex i))

/-- No descriptor of a live task refers to an object that has been freed, or
    freed and allocated anew. -/
def NoStale (s : System τ ν) : Prop :=
  ∀ t, s.kernel.Live t → ∀ i, (s.kernel.procs t).fds i ≠ emptyHandle →
    ∃ o, s.records t i = some (o, s.gen o) ∧ (s.kernel.procs t).fds i = o.handle ∧
      ∀ used refs, counter s.kernel.back o = some (used, refs) → used = true

/-- The call opens no `/dev/udp` device. -/
def OpensNoUdp (a : ℕ × Call) : Prop :=
  match a.2 with
  | .open path _ => udpPathPort (normalizePath path) = none
  | _ => True

variable {s s' : System τ ν} {dev : Devices τ ν}

/-- No descriptor of a live task is on record for a `/dev/udp` terminal. -/
def NoUdp (s : System τ ν) : Prop :=
  ∀ t, s.kernel.Live t → ∀ i o, (s.records t).objects i = some o → o.NotUdp

/-! ## What a call puts on record -/

theorem opened_records {t u : ℕ} {d : Option Object} {fd : ℤ} {i : Fin maxFds}
    {v : Object × ℕ} (h : (s.opened t d fd).1 u i = some v) :
    s.records u i = some v ∨ d = some v.1 := by
  cases d with
  | none => exact .inl h
  | some o =>
    simp only [System.opened] at h
    by_cases hu : u = t
    · subst hu
      rw [Function.update_self, Record.set] at h
      split_ifs at h
      · cases h
        exact .inr rfl
      · exact .inl h
    · rw [Function.update_of_ne hu] at h
      exact .inl h

/-- What is on record for a live task after a call was so before, for the same
    task or the caller, or is what the call designates. -/
theorem observe_records {t u : ℕ} {c : Call} {ret : ℤ} {i : Fin maxFds} {v : Object × ℕ}
    (h : (s.observe t ret c).1 u i = some v) :
    s.records u i = some v ∧ (c = .fork → 0 ≤ ret → u ≠ ret.toNat) ∨
      (∃ j, s.records t j = some v) ∨
      (∃ path found, c = .open path found ∧
        designated s.kernel.back (s.kernel.procs t).tty path found = some v.1) ∨
      ∃ domain type protocol, c = .socket domain type protocol ∧
        designatedSocket s.kernel.back domain type protocol = some v.1 := by
  cases c with
  | «open» path found =>
    obtain h | h := opened_records h
    · exact .inl ⟨h, fun hc => by cases hc⟩
    · exact .inr (.inr (.inl ⟨path, found, rfl, h⟩))
  | socket domain type protocol =>
    obtain h | h := opened_records h
    · exact .inl ⟨h, fun hc => by cases hc⟩
    · exact .inr (.inr (.inr ⟨domain, type, protocol, rfl, h⟩))
  | close fd =>
    refine .inl ⟨?_, fun hc => by cases hc⟩
    simp only [System.observe] at h
    split_ifs at h <;> dsimp only at h
    · by_cases hu : u = t
      · subst hu
        rw [Function.update_self, Record.set] at h
        split_ifs at h
        exact h
      · rwa [Function.update_of_ne hu] at h
    · exact h
  | dup2 oldfd newfd =>
    simp only [System.observe] at h
    split_ifs at h <;> dsimp only at h
    · by_cases hu : u = t
      · subst hu
        rw [Function.update_self, Record.set] at h
        split_ifs at h
        · rw [Record.get] at h
          split_ifs at h
          exact .inr (.inl ⟨_, h⟩)
        · exact .inl ⟨h, fun hc => by cases hc⟩
      · rw [Function.update_of_ne hu] at h
        exact .inl ⟨h, fun hc => by cases hc⟩
    · exact .inl ⟨h, fun hc => by cases hc⟩
  | fork =>
    simp only [System.observe] at h
    split_ifs at h with hret <;> dsimp only at h
    · by_cases hu : u = ret.toNat
      · subst hu
        rw [Function.update_self] at h
        exact .inr (.inl ⟨i, h⟩)
      · rw [Function.update_of_ne hu] at h
        exact .inl ⟨h, fun _ _ => hu⟩
    · exact .inl ⟨h, fun _ hpos => absurd hpos hret⟩
  | exit =>
    refine .inl ⟨?_, fun hc => by cases hc⟩
    simp only [System.observe] at h
    split_ifs at h <;> dsimp only at h
    · exact h
    · by_cases hu : u = t
      · subst hu
        rw [Function.update_self] at h
        cases h
      · rwa [Function.update_of_ne hu] at h
  | _ => exact .inl ⟨h, fun hc => by cases hc⟩

/-- A task that is live after a call was live before, or is the child of a fork. -/
theorem call_live {k k' : Kernel τ ν} {t u : ℕ} {c : Call} {ret : ℤ}
    (h : k.call dev t c = some (ret, k')) (hu : k'.Live u) :
    k.Live u ∨ c = .fork ∧ 0 ≤ ret ∧ u = ret.toNat := by
  cases c with
  | read fd size dst =>
    obtain rfl | ⟨i, out, b, -, -, rfl⟩ := Kernel.call_read h
    · exact .inl hu
    · exact .inl hu
  | write fd src data =>
    obtain rfl | ⟨i, -, rfl⟩ := Kernel.call_write h
    · exact .inl hu
    · exact .inl hu
  | bind fd port =>
    cases h
    exact .inl hu
  | fork =>
    obtain ⟨-, rfl⟩ | ⟨-, rfl, rfl⟩ := Kernel.call_fork h
    · exact .inl hu
    · obtain rfl | hl := Kernel.addTask_live.mp hu
      · exact .inr ⟨rfl, by omega, by omega⟩
      · exact .inl hl
  | exit =>
    obtain ⟨-, rfl⟩ | ⟨-, rfl⟩ := Kernel.call_exit h
    · exact .inl hu
    · exact .inl (Kernel.endTask_live.mp hu).2
  | _ =>
    cases h
    exact .inl (Kernel.update_live.mp hu)

/-- Without opens of `/dev/udp` devices no such terminal comes on record. -/
theorem NoUdp.step {a : ℕ × Call} (h : NoUdp s) (ha : OpensNoUdp a)
    (hs : s.step dev a = some s') : NoUdp s' := by
  obtain ⟨t, c⟩ := a
  unfold System.step at hs
  split_ifs at hs with ht
  obtain ⟨⟨ret, k⟩, hcall, rfl⟩ := Option.map_eq_some_iff.mp hs
  intro u hu i o ho
  obtain ⟨⟨o, g⟩, hr, rfl⟩ := Option.map_eq_some_iff.mp ho
  have hold : ∀ u' j, s.kernel.Live u' → s.records u' j = some (o, g) → o.NotUdp :=
    fun u' j hl hj => h u' hl j o (by rw [Record.objects, hj]; rfl)
  obtain ⟨hsame, hfork⟩ | ⟨j, hj⟩ | ⟨path, found, rfl, hd⟩ | ⟨domain, type, protocol, rfl, hd⟩ :=
    observe_records hr
  · obtain hlive | ⟨hc, hpos, hchild⟩ := call_live hcall hu
    · exact hold u i hlive hsame
    · exact absurd hchild (hfork hc hpos)
  · exact hold t j ht hj
  · cases o with
    | udp port =>
      have hport := (designated_eq_some hd).2 port rfl
      have hnone : udpPathPort (normalizePath path) = none := ha
      rw [hnone] at hport
      cases hport
    | _ => exact trivial
  · unfold designatedSocket at hd
    split_ifs at hd
    obtain ⟨k, -, hk⟩ := Option.map_eq_some_iff.mp hd
    rw [← hk]
    exact trivial

/-! ## Handles -/

/-- A handle that is not ambiguous is held as often as its object is on record. -/
theorem Inv.holders_handle (h : Inv s) (hudp : NoUdp s) {o : Object} (ho : o.NotUdp) :
    s.kernel.holders o.handle = s.total o := by
  have hslot : ∀ t, s.kernel.Live t → ∀ i,
      ((s.kernel.procs t).fds i = o.handle ↔ (s.records t).objects i = some o) := by
    intro t ht i
    rw [h.handles t ht i]
    constructor
    · intro he
      cases hr : (s.records t).objects i with
      | none =>
        rw [hr] at he
        exact absurd he.symm o.handle_ne_empty
      | some o' =>
        rw [hr] at he
        rw [Object.handle_inj (hudp t ht i o' hr) ho he]
    · intro hr
      rw [hr]
      rfl
  rw [Kernel.holders, Finset.card_filter, Finset.sum_product, System.total, Finset.sum_apply,
    Kernel.liveTasks, Finset.sum_filter]
  refine Finset.sum_congr rfl fun t ht => ?_
  by_cases hex : (s.kernel.procs t).exited = false
  · have hlive : s.kernel.Live t := ⟨Finset.mem_range.mp ht, hex⟩
    rw [if_pos hex, Record.count_eq_sum, Finset.sum_apply]
    refine Finset.sum_congr rfl fun i _ => ?_
    rw [slotCount_apply]
    simp only [hex, true_and, hslot t hlive i]
  · simp [hex]

theorem Inv.refsAgree (h : Inv s) (hudp : NoUdp s) : RefsAgree s.kernel where
  files i := by
    have hh : s.kernel.holders i.val = s.total (.file i) :=
      h.holders_handle hudp (o := .file i) trivial
    obtain ⟨hu, hr⟩ := h.counts (.file i) _ _ rfl
    rw [hh]
    exact ⟨hu, fun hused => by exact_mod_cast hr hused⟩
  cpuinfo i := by
    have hh : s.kernel.holders (devCpuinfoBase - i.val) = s.total (.cpuinfo i) :=
      h.holders_handle hudp (o := .cpuinfo i) trivial
    rw [hh]
    exact h.counts (.cpuinfo i) _ _ rfl
  sockets i := by
    have hh : s.kernel.holders (socketHandleFromIndex i) = s.total (.socket i) :=
      h.holders_handle hudp (o := .socket i) trivial
    rw [hh]
    exact h.counts (.socket i) _ _ rfl

theorem Inv.noStale (h : Inv s) : NoStale s := by
  intro t ht i hne
  obtain ⟨o, g, hr, hhandle⟩ := h.record_of_ne ht hne
  have ho : (s.records t).objects i = some o := by rw [Record.objects, hr]; rfl
  have hg := h.gens t ht i o g hr
  refine ⟨o, by rw [hr, hg], hhandle, ?_⟩
  intro used refs hc
  exact (h.counts.used hc (System.total_pos.mpr ⟨t, ht, i, ho⟩)).1

/-- A run without `/dev/udp` devices meets the condition on handles. -/
theorem Inv.clear {a : ℕ × Call} (h : Inv s) (hudp : NoUdp s) (ha : OpensNoUdp a) :
    Clear s a := by
  obtain ⟨t, c⟩ := a
  cases c with
  | «open» path found =>
    intro i hport
    have hnone : udpPathPort (normalizePath path) = none := ha
    rw [hnone] at hport
    cases hport
  | socket domain type protocol =>
    intro i hfree u hu fd hfd
    have hunused : (s.kernel.back.sockets i).used = false := by simpa using List.find?_some hfree
    -- a descriptor with the handle of a free socket would keep that socket in use
    have hpos : 1 ≤ s.kernel.holders (socketHandleFromIndex i) := by
      refine Finset.card_pos.mpr ⟨(u, fd), ?_⟩
      simp [hu.1, hu.2, hfd]
    have hused := ((h.refsAgree hudp).sockets i).1.mpr hpos
    rw [hunused] at hused
    cases hused
  | _ => exact trivial

/-- From boot, for every sequence of calls by any tasks that opens no
    `/dev/udp` device: the reference counts are the number of descriptors, and
    no descriptor refers to a freed or recycled object. -/
theorem refs_match_descriptors {s₀ : System τ ν} (h0 : Booted s₀)
    (hr : Reachable (restrict (Steps (System.step dev)) fun _ a => OpensNoUdp a) s₀ s) :
    RefsAgree s.kernel ∧ NoStale s := by
  have hinv : Inv s ∧ NoUdp s := by
    refine hr.invariant (P := fun s => Inv s ∧ NoUdp s) ⟨h0.inv, ?_⟩ ?_
    · intro t ht i o ho
      rw [h0.objects ht ho]
      exact trivial
    · rintro u a v ⟨hi, hudp⟩ ⟨ha, hs⟩
      exact ⟨hi.step (hi.clear hudp ha) hs, hudp.step ha hs⟩
  exact ⟨hinv.1.refsAgree hinv.2, hinv.1.noStale⟩

/-- All slots free, and terminals and hardware without a state. -/
def freeBackends : Backends Unit Unit where
  openFiles := fun _ => ⟨0, 0, 0, false, 0⟩
  cpuinfoFiles := fun _ => ⟨false, 0, 0⟩
  sockets := fun _ => Socket.zero
  udpTtys := fun _ => ⟨0, false, Stream.zero⟩
  servers := fun _ => none
  ttys := fun _ => ()
  hardware := ()

/-- The idle task and `init` right after boot. -/
def bootSystem : System Unit Unit where
  kernel := { procs := fun _ => ⟨vfsInitFds 0, 0, false⟩, count := 2, back := freeBackends }
  records := fun _ i => if i.val < 3 then some (.tty 0, 0) else none
  gen := fun _ => 0

/-- Terminals without input, a network without an address, an empty disk. -/
def idleDevices : Devices Unit Unit where
  ttyRead := fun t hw _ _ => (.waiting, t, hw)
  ttyWriteBuf := fun t hw _ data => (int32 data.length, t, hw)
  udpSendLocal := fun hw _ _ _ _ => (-1, hw)
  cpuinfoText := []
  volume := ⟨fun _ => 0, ⟨512, 1, 1, 2, 512, 32⟩, 0⟩

theorem bootSystem_booted : Booted bootSystem where
  count := rfl
  proc _ _ := rfl
  files _ := rfl
  cpuinfo _ := rfl
  sockets _ := rfl
  records _ _ _ := rfl

instance : DecidablePred OpensNoUdp := fun a =>
  match h : a.2 with
  | .open path _ => decidable_of_iff (udpPathPort (normalizePath path) = none)
      (by simp only [OpensNoUdp, h])
  | .socket _ _ _ | .bind _ _ | .read _ _ _ | .write _ _ _ | .close _ | .dup2 _ _ | .fork | .exit =>
    isTrue (by simp only [OpensNoUdp, h])

/-- `init` opens the cpuinfo device, duplicates it onto its standard output,
    makes a socket and forks; the child closes its socket, and `init`
    duplicates the device once more. -/
def forkTrace : List (ℕ × Call) :=
  [(1, .open (some "/dev/cpuinfo".toList) none), (1, .dup2 3 1), (1, .socket 2 2 0), (1, .fork),
    (2, .close 4), (1, .dup2 3 7)]

theorem refs_match_descriptors_fork :
    ∃ s, Reachable (restrict (Steps (System.step idleDevices)) fun _ a => OpensNoUdp a)
        bootSystem s ∧
      RefsAgree s.kernel ∧ NoStale s ∧ (s.kernel.back.cpuinfoFiles 0).refs = 5 ∧
      (s.kernel.back.sockets 0).refs = 1 := by
  obtain ⟨s, hrun, hrefs⟩ : ∃ s,
      Run (restrict (Steps (System.step idleDevices)) fun _ a => OpensNoUdp a) bootSystem
        forkTrace s ∧
      (s.kernel.back.cpuinfoFiles 0).refs = 5 ∧ (s.kernel.back.sockets 0).refs = 1 :=
    exists_run_restrict (by decide +kernel)
  obtain ⟨hagree, hstale⟩ := refs_match_descriptors bootSystem_booted ⟨_, hrun⟩
  exact ⟨s, ⟨_, hrun⟩, hagree, hstale, hrefs⟩

end Mboot.Vfs
