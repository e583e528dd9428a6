import Mboot.Vfs.System

/-!
# Reference counts agree with the descriptors

The counters of the three backends against the number of descriptors that
stand for an object. `Counts b n` says that the counters of `b` are those of
`n o` references to each object `o`; every operation on an object moves `n` by
one, so opens, closes, `dup2`, fork and exit keep the counters in step with the
tables.

* `objectClose_counts`, `objectDup_counts`, `fileOpen_spec`: one operation.
* `fileClose_spec`, `dupHandle_spec`: one operation on a handle.
* `forkLoop_spec`, `exitLoop_spec`: the loops over a table.
-/

namespace Mboot.Vfs

open Common Scheduler Fat16 Net

variable {τ ν : Type*}

theorem int32_natCast {n : ℕ} (h : n < 2 ^ 31) : int32 n = n := by
  simp only [int32, Int.bmod]
  omega

/-! ## Counters -/

/-- The `used` flag and the `refs` field of an object that has them. -/
def counter (b : Backends τ ν) : Object → Option (Bool × ℤ)
  | .cpuinfo i => some ((b.cpuinfoFiles i).used, (b.cpuinfoFiles i).refs)
  | .file i => some ((b.openFiles i).used, (b.openFiles i).refs)
  | .socket i => some ((b.sockets i).used, (b.sockets i).refs)
  | _ => none

/-- The counters are those of `n o` references to each object `o`. -/
def Counts (b : Backends τ ν) (n : Object → ℕ) : Prop :=
  ∀ o used refs, counter b o = some (used, refs) →
    (used = true ↔ 0 < n o) ∧ (used = true → refs = n o)

/-- The references one descriptor slot contributes. -/
def slotCount : Option Object → Object → ℕ
  | none => 0
  | some o => Pi.single o 1

variable {b b' : Backends τ ν} {o : Object} {n n' : Object → ℕ}

theorem OnlyChanges.counter_eq {o' : Object} (h : OnlyChanges b b' o) (ho : o' ≠ o) :
    counter b' o' = counter b o' := by
  cases o' with
  | cpuinfo i => simp only [counter, h.cpuinfo i ho.symm]
  | file i => simp only [counter, h.file i ho.symm]
  | socket i => simp only [counter, h.socket i ho.symm]
  | _ => rfl

/-- A change of one object moves only its own count. -/
theorem Counts.change (h : Counts b n) (hf : OnlyChanges b b' o) (hn : ∀ o' ≠ o, n' o' = n o')
    (ho : ∀ used refs, counter b' o = some (used, refs) →
      (used = true ↔ 0 < n' o) ∧ (used = true → refs = n' o)) : Counts b' n' := by
  intro o' used refs hc
  by_cases he : o' = o
  · subst he
    exact ho used refs hc
  · rw [hf.counter_eq he] at hc
    rw [hn o' he]
    exact h o' used refs hc

theorem Counts.used {used : Bool} {refs : ℤ} (h : Counts b n)
    (hc : counter b o = some (used, refs)) (hn : 0 < n o) : used = true ∧ refs = n o := by
  obtain ⟨hu, hr⟩ := h o used refs hc
  exact ⟨hu.mpr hn, hr (hu.mpr hn)⟩

@[simp] theorem add_slotCount_self : (n + slotCount (some o)) o = n o + 1 := by
  simp [slotCount]

theorem add_slotCount_of_ne {o' : Object} (h : o' ≠ o) : (n + slotCount (some o)) o' = n o' := by
  simp [slotCount, Pi.single_eq_of_ne h]

theorem fat16Close_of_used {files : OpenFiles} {i : Fin maxOpenFiles} {r : ℕ}
    (hu : (files i).used = true) (hr : (files i).refs = r + 1) (hb : r + 1 < 2 ^ 31) :
    fat16Close files (Object.file i).handle =
      (0, Function.update files i { files i with refs := r, used := decide (0 < r) }) := by
  have hrefs : ((files i).refs + (2 ^ 32 - 1)) % 2 ^ 32 = r := by omega
  rw [fat16Close, fileOf_file, if_pos hu]
  dsimp only
  rw [hrefs]
  split_ifs with hz
  · simp only [hz, decide_true, hu]
  · simp only [hz, decide_false]

/-- Dropping one of `n o + 1` references succeeds and leaves `n o`. -/
theorem objectClose_counts (h : Counts b (n + slotCount (some o))) (hb : n o + 1 < 2 ^ 31) :
    (objectClose b o).1 = 0 ∧ Counts (objectClose b o).2 n := by
  have hf := objectClose_frame b o
  have hn : ∀ o' ≠ o, n o' = (n + slotCount (some o)) o' :=
    fun o' ho' => (add_slotCount_of_ne ho').symm
  have hpos : 0 < (n + slotCount (some o)) o := by rw [add_slotCount_self]; omega
  cases o with
  | cpuinfo i =>
    obtain ⟨hu, hr⟩ := h.used (o := .cpuinfo i) rfl hpos
    rw [add_slotCount_self] at hr
    have hrefs : int32 ((b.cpuinfoFiles i).refs - 1) = n (.cpuinfo i) := by
      rw [hr, Nat.cast_succ, add_sub_cancel_right, int32_natCast (by omega)]
    rw [objectClose, cpuinfoClose, cpuinfoOf_cpuinfo, if_pos hu] at hf ⊢
    refine ⟨rfl, h.change hf hn fun used refs hc => ?_⟩
    simp only [counter, Function.update_self, hrefs, Option.some.injEq, Prod.mk.injEq] at hc
    obtain ⟨rfl, rfl⟩ := hc
    split_ifs with hz
    · simp only [false_iff, false_imp_iff, and_true]
      omega
    · simp only [hu, true_iff, true_imp_iff, and_true]
      omega
  | file i =>
    obtain ⟨hu, hr⟩ := h.used (o := .file i) rfl hpos
    rw [add_slotCount_self] at hr
    have hclose := fat16Close_of_used hu (by exact_mod_cast hr) hb
    rw [objectClose, hclose] at hf ⊢
    refine ⟨rfl, h.change hf hn fun used refs hc => ?_⟩
    simp only [counter, Function.update_self, Option.some.injEq, Prod.mk.injEq] at hc
    obtain ⟨rfl, rfl⟩ := hc
    exact ⟨decide_eq_true_iff, fun _ => rfl⟩
  | socket i =>
    obtain ⟨hu, hr⟩ := h.used (o := .socket i) rfl hpos
    rw [add_slotCount_self] at hr
    have hrefs : (if (b.sockets i).refs > 0 then (b.sockets i).refs - 1 else (b.sockets i).refs) =
        n (.socket i) := by
      rw [if_pos (by omega), hr, Nat.cast_succ, add_sub_cancel_right]
    rw [objectClose, socketClose, socketFromHandle_socket, if_pos hu] at hf ⊢
    simp only [hrefs] at hf ⊢
    split_ifs at hf ⊢ with hz
    · refine ⟨rfl, h.change hf hn fun used refs hc => ?_⟩
      simp only [counter, Function.update_self, Option.some.injEq, Prod.mk.injEq] at hc
      obtain ⟨rfl, rfl⟩ := hc
      simp only [Socket.zero, Bool.false_eq_true, false_iff, false_imp_iff, and_true]
      omega
    · refine ⟨rfl, h.change hf hn fun used refs hc => ?_⟩
      simp only [counter, Function.update_self, Option.some.injEq, Prod.mk.injEq] at hc
      obtain ⟨rfl, rfl⟩ := hc
      simp only [hu, true_iff, true_imp_iff, and_true]
      omega
  | _ => exact ⟨rfl, h.change hf hn fun used refs hc => by cases hc⟩

/-- Taking a reference to an object that has some adds one. -/
theorem objectDup_counts (h : Counts b n) (hpos : 0 < n o) (hb : n o + 1 < 2 ^ 31) :
    Counts (objectDup b o) (n + slotCount (some o)) := by
  have hf := objectDup_frame b o
  refine h.change hf (fun o' ho' => add_slotCount_of_ne ho') ?_
  rw [add_slotCount_self]
  intro used refs hc
  suffices used = true ∧ refs = (n o + 1 : ℕ) from
    ⟨⟨fun _ => by omega, fun _ => this.1⟩, fun _ => this.2⟩
  cases o with
  | cpuinfo i =>
    obtain ⟨hu, hr⟩ := h.used (o := .cpuinfo i) rfl hpos
    rw [objectDup, cpuinfoDup, cpuinfoOf_cpuinfo, if_pos hu] at hc
    simp only [counter, Function.update_self, Option.some.injEq, Prod.mk.injEq] at hc
    obtain ⟨rfl, rfl⟩ := hc
    exact ⟨hu, by rw [hr, ← Nat.cast_succ, int32_natCast hb]⟩
  | file i =>
    obtain ⟨hu, hr⟩ := h.used (o := .file i) rfl hpos
    rw [objectDup, fat16Dup, fileOf_file, if_pos hu] at hc
    simp only [counter, Function.update_self, Option.some.injEq, Prod.mk.injEq] at hc
    obtain ⟨rfl, rfl⟩ := hc
    exact ⟨hu, by omega⟩
  | socket i =>
    obtain ⟨hu, hr⟩ := h.used (o := .socket i) rfl hpos
    rw [objectDup, socketDup, socketFromHandle_socket, if_pos hu] at hc
    simp only [counter, Function.update_self, Option.some.injEq, Prod.mk.injEq] at hc
    obtain ⟨rfl, rfl⟩ := hc
    exact ⟨hu, by rw [hr, ← Nat.cast_succ, int32_natCast hb]⟩
  | _ => cases hc

/-! ## Opening -/

/-- Some `/dev/udp` terminal is bound to the port. -/
def UdpBound (b : Backends τ ν) (port : ℕ) : Prop :=
  ∃ j, (b.udpTtys j).bound = true ∧ (b.udpTtys j).port = port

/-- From `b` to `b'` a reference to `d` has been handed out. A counted object
    was free before; no other socket has come into use; the bound terminals
    stay bound. -/
structure Opened (b b' : Backends τ ν) (n : Object → ℕ) (d : Option Object) : Prop where
  counts : Counts b' (n + slotCount d)
  fresh : ∀ o, d = some o → o.counted = true → n o = 0
  sockets : ∀ i, (b'.sockets i).used = true → (b.sockets i).used = true ∨ d = some (.socket i)
  bound : ∀ port, UdpBound b port → UdpBound b' port
  udp : ∀ port, d = some (.udp port) → port < 2 ^ 16 ∧ UdpBound b' port

/-- A free slot that is taken with one reference. -/
theorem Counts.alloc {refs : ℤ} (h : Counts b n) (hfree : counter b o = some (false, refs))
    (hf : OnlyChanges b b' o) (hused : counter b' o = some (true, 1)) :
    n o = 0 ∧ Counts b' (n + slotCount (some o)) := by
  have hzero : n o = 0 := by
    by_contra hne
    have := (h.used hfree (Nat.pos_of_ne_zero hne)).1
    cases this
  refine ⟨hzero, h.change hf (fun o' ho' => add_slotCount_of_ne ho') fun used refs' hc => ?_⟩
  rw [hused] at hc
  cases hc
  rw [add_slotCount_self, hzero]
  exact ⟨⟨fun _ => Nat.one_pos, fun _ => rfl⟩, fun _ => rfl⟩

theorem add_slotCount_none : n + slotCount none = n := by
  simp [slotCount]

/-- Counters look at the three tables only. -/
theorem Counts.congr (h : Counts b n) (hc : ∀ o, counter b' o = counter b o) : Counts b' n :=
  fun o used refs ho => h o used refs (hc o ▸ ho)

/-- A device without counter, or no object at all. -/
theorem Opened.uncounted {d : Option Object} (h : Counts b n) (hd : ∀ o ∈ d, o.counted = false)
    (hc : ∀ o, counter b' o = counter b o) (hs : b'.sockets = b.sockets)
    (hbound : ∀ port, UdpBound b port → UdpBound b' port)
    (hudp : ∀ port, d = some (.udp port) → port < 2 ^ 16 ∧ UdpBound b' port) :
    Opened b b' n d where
  counts := by
    refine (h.congr hc : Counts b' n).change (OnlyChanges.refl b' (d.getD .null)) ?_ ?_
    · intro o' ho'
      cases d with
      | none => rw [add_slotCount_none]
      | some o => exact add_slotCount_of_ne ho'
    · intro used refs hcount
      cases d with
      | none => cases hcount
      | some o =>
        have := hd o rfl
        cases o <;> simp [Object.counted] at this <;> cases hcount
  fresh o ho hcounted := by
    rw [hd o ho] at hcounted
    cases hcounted
  sockets i hi := .inl (hs ▸ hi)
  bound := hbound
  udp := hudp

theorem openFile_spec (h : Counts b n) (path : Option (List Char)) (found : Option DirEntry) :
    (openFile b path found).1 = slotHandle (designatedFile b path found) ∧
      Opened b (openFile b path found).2 n (designatedFile b path found) := by
  have hnone : Opened b b n none :=
    .uncounted h (by simp) (fun _ => rfl) rfl (fun _ => id) (by simp)
  unfold openFile designatedFile
  by_cases hp : path = none ∨ path = some []
  · rw [if_pos hp, if_pos (by tauto)]
    exact ⟨rfl, hnone⟩
  · rw [if_neg hp]
    cases found with
    | none =>
      rw [if_pos (by simp)]
      exact ⟨rfl, hnone⟩
    | some dir =>
      rw [if_neg (by simpa using hp)]
      simp only [fat16Open]
      rw [← firstFreeFile]
      cases hfree : firstFreeFile b.openFiles with
      | none => exact ⟨rfl, hnone⟩
      | some i =>
        have hu : (b.openFiles i).used = false := by simpa using List.find?_some hfree
        have hf : ∀ file : File,
            OnlyChanges b { b with openFiles := Function.update b.openFiles i file } (.file i) :=
          fun file => { file := fun j hj => Function.update_of_ne (fun he => hj (by rw [he])) _ _ }
        have hcounter : counter b (.file i) = some (false, ((b.openFiles i).refs : ℤ)) := by
          simp only [counter, hu]
        obtain ⟨hzero, hcounts⟩ := h.alloc hcounter
          (hf ⟨dir.fstClusLO.toNat, dir.fileSize.toNat, 0, true, 1⟩) (by simp [counter])
        exact ⟨rfl, hcounts, fun o ho _ => by cases ho; exact hzero, fun _ => .inl,
          fun _ => id, fun _ ho => by cases ho⟩

theorem parseUint16_lt {value digits port : ℕ} {s : List Char}
    (h : parseUint16 value digits s = some port) (hv : value < 2 ^ 16) : port < 2 ^ 16 := by
  induction s generalizing value digits with
  | nil =>
    rw [parseUint16] at h
    split_ifs at h
    cases h
    exact hv
  | cons c s ih =>
    rw [parseUint16] at h
    dsimp only at h
    split_ifs at h
    exact ih h (by omega)

theorem udpPathPort_lt {name : Option (List Char)} {port : ℕ} (h : udpPathPort name = some port) :
    port < 2 ^ 16 := by
  obtain ⟨s, -, hs⟩ := Option.bind_eq_some_iff.mp h
  exact parseUint16_lt hs (by norm_num)

/-- `udp_tty_open` touches the terminals and the servers only; when it
    succeeds, the terminal of the port in the name is bound. -/
theorem udpTtyOpen_spec (b : Backends τ ν) (name : Option (List Char)) :
    (∀ o, counter (udpTtyOpen b name).2 o = counter b o) ∧
      (udpTtyOpen b name).2.sockets = b.sockets ∧
      (udpTtyOpen b name).2.openFiles = b.openFiles ∧
      (∀ port, UdpBound b port → UdpBound (udpTtyOpen b name).2 port) ∧
      ((udpTtyOpen b name).1 ≠ emptyHandle → ∃ port, udpPathPort name = some port ∧
        (udpTtyOpen b name).1 = (Object.udp port).handle ∧
        UdpBound (udpTtyOpen b name).2 port) := by
  unfold udpTtyOpen
  cases hport : udpPathPort name with
  | none => exact ⟨fun o => by cases o <;> rfl, rfl, rfl, fun _ => id, fun h => absurd rfl h⟩
  | some port =>
    dsimp only
    rcases hp : udpTtyForPort b.udpTtys port with ⟨i, ttys⟩
    obtain ⟨hkeep, hi⟩ := udpTtyForPort_spec hp
    have hbound : ∀ {b' : Backends τ ν}, b'.udpTtys = ttys → ∀ p, UdpBound b p → UdpBound b' p := by
      rintro b' hb' p ⟨j, hj, hjp⟩
      exact ⟨j, by rw [hb', hkeep j hj]; exact ⟨hj, hjp⟩⟩
    cases i with
    | none =>
      exact ⟨fun o => by cases o <;> rfl, rfl, rfl, hbound rfl, fun h => absurd rfl h⟩
    | some i =>
      dsimp only
      split_ifs
      · exact ⟨fun o => by cases o <;> rfl, rfl, rfl, hbound rfl, fun h => absurd rfl h⟩
      · exact ⟨fun o => by cases o <;> rfl, rfl, rfl, hbound rfl,
          fun _ => ⟨port, rfl, rfl, i, (hi i rfl).1, (hi i rfl).2.1⟩⟩

theorem Counts.cpuinfo (h : Counts b n) {i : Fin cpuinfoOpenFiles}
    (hfree : firstFreeCpuinfo b.cpuinfoFiles = some i) :
    Opened b { b with cpuinfoFiles := Function.update b.cpuinfoFiles i ⟨true, 1, 0⟩ } n
      (some (.cpuinfo i)) := by
  have hu : (b.cpuinfoFiles i).used = false := by simpa using List.find?_some hfree
  have hcounter : counter b (.cpuinfo i) = some (false, (b.cpuinfoFiles i).refs) := by
    simp only [counter, hu]
  have hf : OnlyChanges b { b with
      cpuinfoFiles := Function.update b.cpuinfoFiles i ⟨true, 1, 0⟩ } (.cpuinfo i) :=
    { cpuinfo := fun j hj => Function.update_of_ne (fun he => hj (by rw [he])) _ _ }
  obtain ⟨hzero, hcounts⟩ := h.alloc hcounter hf (by simp [counter])
  exact ⟨hcounts, fun o ho _ => by cases ho; exact hzero, fun _ => .inl, fun _ => id,
    fun _ ho => by cases ho⟩

theorem cpuinfoOpen_of_none {name : Option (List Char)}
    (h : (if pathEq name "dev/cpuinfo" then firstFreeCpuinfo b.cpuinfoFiles else none) = none) :
    cpuinfoOpen b name = (emptyHandle, b) := by
  unfold cpuinfoOpen
  split_ifs at h with hname
  · simp only [hname, Bool.not_true, Bool.false_eq_true, if_false, h]
  · simp only [hname, Bool.not_false, if_true]

theorem ttyPathId_lt {tty : ℤ} (h : tty < ttyCount) (name : Option (List Char)) :
    ttyPathId tty name < ttyCount := by
  unfold ttyPathId
  split_ifs
  · exact h
  · split
    · split_ifs with hn
      · decide
      · rename_i c _
        have hc : c.toNat ≤ '4'.toNat := by
          rw [not_or, not_lt, not_lt] at hn
          exact hn.2
        have h4 : '4'.toNat = 52 := rfl
        have h1 : '1'.toNat = 49 := rfl
        show (c.toNat : ℤ) - ('1'.toNat : ℤ) < 4
        omega
    · decide

section Open

variable {tty handle : ℤ} {path : Option (List Char)} {found : Option DirEntry}

theorem fileOpen_of_device (h : deviceOpen b tty path = (handle, b'))
    (hne : handle ≠ emptyHandle) : fileOpen b tty path found = (handle, b') := by
  simp only [fileOpen, h, hne, ne_eq, not_false_eq_true, if_true]

theorem fileOpen_of_empty (h : deviceOpen b tty path = (emptyHandle, b')) :
    fileOpen b tty path found = openFile b' path found := by
  simp only [fileOpen, h, ne_eq, not_true_eq_false, if_false]

/-- The names of the terminals are not names of ports. -/
theorem udpPathPort_of_tty {name : Option (List Char)} {s : List Char} (h : afterPrefix name "dev/tty" = some s) :
    udpPathPort name = none := by
  cases name with
  | none => rfl
  | some l =>
    have htty : "dev/tty".toList <+: l := by
      simp only [afterPrefix, Option.bind_eq_bind, Option.bind_some] at h
      split_ifs at h with hp
      exact List.isPrefixOf_iff_prefix.mp hp
    have hudp : ¬("dev/udp".toList.isPrefixOf l = true) := by
      intro hp
      have hpre := List.prefix_of_prefix_length_le (List.isPrefixOf_iff_prefix.mp hp) htty
        (by decide)
      exact absurd (hpre.eq_of_length (by decide)) (by decide)
    simp only [udpPathPort, afterPrefix, Option.bind_eq_bind, Option.bind_some, if_neg hudp,
      Option.bind_none]

theorem udpPathPort_of_eq {name : Option (List Char)} {lit : String} (h : pathEq name lit = true)
    (hlit : udpPathPort (some lit.toList) = none) : udpPathPort name = none := by
  rw [pathEq, beq_iff_eq] at h
  rwa [h]

theorem pathEq_ne {name : Option (List Char)} {lit lit' : String} (h : pathEq name lit = true)
    (hlit : lit.toList ≠ lit'.toList) : ¬pathEq name lit' = true := by
  rw [pathEq, beq_iff_eq] at h ⊢
  rw [h]
  exact fun heq => hlit (Option.some.inj heq)

theorem udpPathPort_of_ttyPathId {name : Option (List Char)} (h : ttyPathId tty name ≥ 0) :
    udpPathPort name = none := by
  unfold ttyPathId at h
  split_ifs at h with hname
  · exact udpPathPort_of_eq hname (by decide)
  · split at h
    · next hp => exact udpPathPort_of_tty hp
    · omega

/-- The name is `/dev/cpuinfo` only if no slot is free. -/
def CpuinfoFull (b : Backends τ ν) (path : Option (List Char)) : Prop :=
  pathEq (normalizePath path) "dev/cpuinfo" = true → firstFreeCpuinfo b.cpuinfoFiles = none

/-- What `device_open` has done, and what the path then designates: it has opened a device
    that holds nothing, taken a slot of `/dev/cpuinfo`, or done what `udp_tty_open` does. -/
inductive DeviceOpened (b : Backends τ ν) (tty : ℤ) (path : Option (List Char))
    (r : ℤ × Backends τ ν) : Prop
  | device (handle : ℤ) (heq : r = (handle, b)) (hlt : handle < emptyHandle)
      (hid : cpuinfoHandleId handle = none) (hport : udpPathPort (normalizePath path) = none)
      (hfull : CpuinfoFull b path)
      (hdes : tty < ttyCount → ∃ o : Object, o.counted = false ∧ (∀ port, o ≠ .udp port) ∧
        o.handle = handle ∧ ∀ found, designated b tty path found = some o)
  | cpuinfo (i : Fin cpuinfoOpenFiles) (heq : r = (devCpuinfoBase - i.val, { b with
        cpuinfoFiles := Function.update b.cpuinfoFiles i ⟨true, 1, 0⟩ }))
      (hname : pathEq (normalizePath path) "dev/cpuinfo" = true)
      (hfree : firstFreeCpuinfo b.cpuinfoFiles = some i)
      (hport : udpPathPort (normalizePath path) = none)
      (hdes : ∀ found, designated b tty path found = some (.cpuinfo i))
  | udp (heq : r = udpTtyOpen b (normalizePath path)) (hfull : CpuinfoFull b path)
      (hdes : ∀ found, designated b tty path found =
        if (udpTtyOpen b (normalizePath path)).1 = emptyHandle then designatedFile b path found
        else (udpPathPort (normalizePath path)).map .udp)

theorem deviceOpen_cases (b : Backends τ ν) (tty : ℤ) (path : Option (List Char)) :
    DeviceOpened b tty path (deviceOpen b tty path) := by
  unfold deviceOpen
  dsimp only
  by_cases hnull : pathEq (normalizePath path) "dev/null" = true
  · rw [if_pos hnull]
    exact .device devNull rfl (by decide) (by decide) (udpPathPort_of_eq hnull (by decide))
      (fun hcpu => absurd hcpu (pathEq_ne hnull (by decide)))
      fun _ => ⟨.null, rfl, by simp, rfl, fun _ => if_pos hnull⟩
  rw [if_neg hnull]
  by_cases hzero : pathEq (normalizePath path) "dev/zero" = true
  · rw [if_pos hzero]
    exact .device devZero rfl (by decide) (by decide) (udpPathPort_of_eq hzero (by decide))
      (fun hcpu => absurd hcpu (pathEq_ne hzero (by decide)))
      fun _ => ⟨.zero, rfl, by simp, rfl, fun _ => (if_neg hnull).trans (if_pos hzero)⟩
  rw [if_neg hzero]
  by_cases hfull : pathEq (normalizePath path) "dev/full" = true
  · rw [if_pos hfull]
    exact .device devFull rfl (by decide) (by decide) (udpPathPort_of_eq hfull (by decide))
      (fun hcpu => absurd hcpu (pathEq_ne hfull (by decide)))
      fun _ => ⟨.full, rfl, by simp, rfl, fun _ =>
        (if_neg hnull).trans ((if_neg hzero).trans (if_pos hfull))⟩
  rw [if_neg hfull]
  cases hcpu : (if pathEq (normalizePath path) "dev/cpuinfo" then
      firstFreeCpuinfo b.cpuinfoFiles else none) with
  | some i =>
    obtain ⟨hname, hfree⟩ := Option.ite_none_right_eq_some.mp hcpu
    have hopen : cpuinfoOpen b (normalizePath path) = (devCpuinfoBase - i.val, { b with
        cpuinfoFiles := Function.update b.cpuinfoFiles i ⟨true, 1, 0⟩ }) := by
      simp only [cpuinfoOpen, hname, Bool.not_true, Bool.false_eq_true, if_false, hfree]
    have hne : devCpuinfoBase - (i.val : ℤ) ≠ emptyHandle := (Object.cpuinfo i).handle_ne_empty
    rw [hopen]
    dsimp only
    rw [if_pos hne]
    refine .cpuinfo i rfl hname hfree (udpPathPort_of_eq hname (by decide)) fun found => ?_
    simp only [designated, hnull, hzero, hfull, hcpu, Bool.false_eq_true, if_false]
  | none =>
    have hfullCpu : CpuinfoFull b path := fun hname => by rwa [if_pos hname] at hcpu
    rw [cpuinfoOpen_of_none hcpu, if_neg (not_not.mpr rfl)]
    by_cases htty : ttyPathId tty (normalizePath path) ≥ 0
    · rw [if_pos htty]
      refine .device _ rfl ?_ (cpuinfoHandleId_eq_none (.inr ?_)) (udpPathPort_of_ttyPathId htty)
        hfullCpu fun hlt => ?_
      · simp only [devTtyBase, emptyHandle]
        omega
      · simp only [devTtyBase]
        omega
      · have hid := ttyPathId_lt hlt (normalizePath path)
        refine ⟨.tty ⟨(ttyPathId tty (normalizePath path)).toNat, by omega⟩, rfl, by simp, ?_,
          fun found => ?_⟩
        · simp only [Object.handle]
          omega
        · simp only [designated, hnull, hzero, hfull, hcpu, Bool.false_eq_true, if_false]
          rw [dif_pos ⟨htty, hid⟩]
    · rw [if_neg htty]
      refine .udp rfl hfullCpu fun found => ?_
      simp only [designated, hnull, hzero, hfull, hcpu, Bool.false_eq_true, if_false]
      rw [dif_neg fun hh => htty hh.1]
      cases hport : udpPathPort (normalizePath path) with
      | none => rw [udpTtyOpen, hport, if_pos rfl]
      | some port => rfl

/-- `file_open` returns the handle of the object the path designates, with one
    reference to it. -/
theorem fileOpen_spec (h : Counts b n) (htty : tty < ttyCount) (path : Option (List Char))
    (found : Option DirEntry) :
    (fileOpen b tty path found).1 = slotHandle (designated b tty path found) ∧
      Opened b (fileOpen b tty path found).2 n (designated b tty path found) := by
  cases deviceOpen_cases b tty path with
  | device handle heq _ _ _ _ hdes =>
    obtain ⟨o, ho, hudp, rfl, hobj⟩ := hdes htty
    rw [fileOpen_of_device heq o.handle_ne_empty, hobj]
    exact ⟨rfl, .uncounted h (by simpa using ho) (fun _ => rfl) rfl (fun _ => id)
      fun port hp => absurd (Option.some.inj hp) (hudp port)⟩
  | cpuinfo i heq _ hfree _ hdes =>
    rw [fileOpen_of_device heq (Object.cpuinfo i).handle_ne_empty, hdes]
    exact ⟨rfl, h.cpuinfo hfree⟩
  | udp heq _ hdes =>
    obtain ⟨hc, hs, hfiles, hbound, hopen⟩ := udpTtyOpen_spec b (normalizePath path)
    rw [hdes]
    by_cases hempty : (udpTtyOpen b (normalizePath path)).1 = emptyHandle
    · have hfile : designatedFile (udpTtyOpen b (normalizePath path)).2 path found =
          designatedFile b path found := by
        simp only [designatedFile, hfiles]
      obtain ⟨hhandle, hopened⟩ := openFile_spec (h.congr hc) path found
      rw [fileOpen_of_empty (heq.trans (Prod.ext hempty rfl)), if_pos hempty, ← hfile]
      exact ⟨hhandle, hopened.counts, hopened.fresh, fun i hi => hs ▸ hopened.sockets i hi,
        fun port hp => hopened.bound port (hbound port hp), hopened.udp⟩
    · obtain ⟨port, hport, hhandle, hub⟩ := hopen hempty
      rw [fileOpen_of_device (heq.trans Prod.mk.eta.symm) hempty, if_neg hempty, hport]
      refine ⟨hhandle, .uncounted h (by simp [Object.counted]) hc hs hbound ?_⟩
      rintro _ ⟨⟩
      exact ⟨udpPathPort_lt hport, hub⟩

/-- `socket_create` returns the handle of the socket the call designates. -/
theorem socketCreate_spec (h : Counts b n) (domain type protocol : ℤ) :
    (socketCreate b.sockets domain type protocol).1 =
        slotHandle (designatedSocket b domain type protocol) ∧
      Opened b { b with sockets := (socketCreate b.sockets domain type protocol).2 } n
        (designatedSocket b domain type protocol) := by
  have hnone : Opened b b n none :=
    .uncounted h (by simp) (fun _ => rfl) rfl (fun _ => id) (by simp)
  unfold socketCreate designatedSocket
  cases hargs : socketArgsOk domain type protocol with
  | false => exact ⟨rfl, hnone⟩
  | true =>
    simp only [Bool.not_true, Bool.false_eq_true, if_false, if_true]
    cases hfree : firstFreeSocket b.sockets with
    | none => exact ⟨rfl, hnone⟩
    | some i =>
      have hu : (b.sockets i).used = false := by simpa using List.find?_some hfree
      have hcounter : counter b (.socket i) = some (false, (b.sockets i).refs) := by
        simp only [counter, hu]
      have hf : ∀ sock : Socket,
          OnlyChanges b { b with sockets := Function.update b.sockets i sock } (.socket i) :=
        fun sock => { socket := fun j hj => Function.update_of_ne (fun he => hj (by rw [he])) _ _ }
      have halloc : ∀ sock : Socket, sock.used = true → sock.refs = 1 → n (.socket i) = 0 ∧
          Counts { b with sockets := Function.update b.sockets i sock }
            (n + slotCount (some (.socket i))) := fun sock hused hrefs =>
        h.alloc hcounter (hf sock) (by simp [counter, hused, hrefs])
      have hzero := (halloc { Socket.zero with used := true, refs := 1 } rfl rfl).1
      refine ⟨rfl, (halloc _ ?_ ?_).2, fun o ho _ => by cases ho; exact hzero, fun j hj => ?_,
        fun _ => id, fun _ ho => by cases ho⟩
      · split_ifs <;> rfl
      · split_ifs <;> rfl
      · by_cases he : j = i
        · exact .inr (by rw [he]; rfl)
        · exact .inl ((hf _).socket j (fun ho => he (by cases ho; rfl)) ▸ hj)

end Open

/-! ## Closing and duplicating through handles -/

/-- No socket has come into use and no terminal has been unbound. -/
structure Kept (b b' : Backends τ ν) : Prop where
  sockets : ∀ i, (b'.sockets i).used = true → (b.sockets i).used = true
  bound : ∀ port, UdpBound b port → UdpBound b' port

theorem Kept.refl (b : Backends τ ν) : Kept b b := ⟨fun _ => id, fun _ => id⟩

theorem Kept.trans {b'' : Backends τ ν} (h : Kept b b') (h' : Kept b' b'') : Kept b b'' :=
  ⟨fun i hi => h.sockets i (h'.sockets i hi), fun port hp => h'.bound port (h.bound port hp)⟩

/-- The handle of the `/dev/udp` terminal of `port` is not the handle of a
    socket in use. -/
def UdpClear (b : Backends τ ν) (port : ℕ) : Prop :=
  ∀ i : Fin socketMax, port = 3072 + i.val → (b.sockets i).used = false

theorem UdpClear.kept {port : ℕ} (h : UdpClear b port) (hk : Kept b b') : UdpClear b' port := by
  intro i hi
  rw [← Bool.not_eq_true]
  intro hu
  have := hk.sockets i hu
  rw [h i hi] at this
  cases this

/-- What the tables have to say about an object for the dispatch to find it. -/
def Holds (b : Backends τ ν) (o : Object) : Prop :=
  ∀ port, o = .udp port → port < 2 ^ 16 ∧ UdpBound b port ∧ UdpClear b port

theorem Holds.kept (h : Holds b o) (hk : Kept b b') : Holds b' o := fun port ho =>
  ⟨(h port ho).1, hk.bound port (h port ho).2.1, (h port ho).2.2.kept hk⟩

theorem Counts.routes (h : Counts b n) (hn : 0 < n o) (ho : Holds b o) : Routes b o := by
  cases o with
  | socket i => exact (h.used (o := .socket i) rfl hn).1
  | udp port => exact ⟨(ho port rfl).1, (ho port rfl).2.2⟩
  | _ => exact trivial

/-- A change of a socket in use, or of an object other than the terminals. -/
theorem OnlyChanges.kept (h : OnlyChanges b b' o) (ho : Routes b o)
    (hudp : b'.udpTtys = b.udpTtys) : Kept b b' where
  sockets i hi := by
    by_cases he : o = .socket i
    · subst he
      exact ho
    · rwa [h.socket i he] at hi
  bound port := by
    rintro ⟨j, hj⟩
    exact ⟨j, by rwa [hudp]⟩

theorem objectClose_udpTtys (b : Backends τ ν) (o : Object) :
    (objectClose b o).2.udpTtys = b.udpTtys := by
  cases o with
  | cpuinfo i =>
    rw [objectClose, cpuinfoClose]
    split <;> rfl
  | _ => rfl

theorem objectDup_udpTtys (b : Backends τ ν) (o : Object) :
    (objectDup b o).udpTtys = b.udpTtys := by
  cases o with
  | cpuinfo i =>
    rw [objectDup, cpuinfoDup]
    split <;> rfl
  | _ => rfl

theorem fileClose_spec (h : Counts b (n + slotCount (some o))) (hb : n o + 1 < 2 ^ 31)
    (ho : Holds b o) :
    (fileClose b o.handle).1 = 0 ∧ Counts (fileClose b o.handle).2 n ∧
      Kept b (fileClose b o.handle).2 := by
  have hr : Routes b o := h.routes (by rw [add_slotCount_self]; omega) ho
  rw [fileClose_handle hr]
  obtain ⟨hret, hcounts⟩ := objectClose_counts h hb
  exact ⟨hret, hcounts, (objectClose_frame b o).kept hr (objectClose_udpTtys b o)⟩

theorem socketHandleValid_empty (sockets : Sockets) :
    socketHandleValid sockets emptyHandle = false := by
  rw [Bool.eq_false_iff]
  intro hv
  obtain ⟨i, hi, -⟩ := socketHandleValid_iff.mp hv
  exact (Object.socket i).handle_ne_empty hi.symm

/-- An empty slot gives no reference. -/
theorem dupHandle_empty (b : Backends τ ν) : dupHandle b emptyHandle = b := by
  simp only [dupHandle, socketHandleValid_empty, Bool.false_eq_true, if_false]
  rfl

theorem dupHandle_spec {d : Option Object} (h : Counts b n) (hpos : ∀ o ∈ d, 0 < n o)
    (hb : ∀ o ∈ d, n o + 1 < 2 ^ 31) (ho : ∀ o ∈ d, Holds b o) :
    Counts (dupHandle b (slotHandle d)) (n + slotCount d) ∧
      Kept b (dupHandle b (slotHandle d)) := by
  cases d with
  | none =>
    rw [slotHandle, dupHandle_empty, add_slotCount_none]
    exact ⟨h, .refl b⟩
  | some o =>
    have hr := h.routes (hpos o rfl) (ho o rfl)
    rw [slotHandle, dupHandle_handle hr]
    exact ⟨objectDup_counts h (hpos o rfl) (hb o rfl),
      (objectDup_frame b o).kept hr (objectDup_udpTtys b o)⟩

/-- Reads and writes move no counter. -/
theorem Transfers.counter_eq (h : Transfers b o b') (o' : Object) :
    counter b' o' = counter b o' := by
  by_cases ho : o' = o
  · subst ho
    cases h <;> simp [counter]
  · exact h.onlyChanges.counter_eq ho

theorem Transfers.kept (h : Transfers b o b') : Kept b b' := by
  have hforPort : ∀ {ttys : UdpTtys} {port : ℕ} {i : Option (Fin udpTtyMaxPorts)},
      udpTtyForPort b.udpTtys port = (i, ttys) → ∀ j, (b.udpTtys j).bound = true →
        ttys j = b.udpTtys j := fun hp => (udpTtyForPort_spec hp).1
  cases h with
  | nothing => exact .refl b
  | cpuinfo i | tty n | file i => exact ⟨fun _ => id, fun _ => id⟩
  | udpBind hp =>
    refine ⟨fun _ => id, ?_⟩
    rintro port ⟨j, hj, hjp⟩
    exact ⟨j, by dsimp only; rw [hforPort hp j hj]; exact ⟨hj, hjp⟩⟩
  | @udp _ i ttys hp st =>
    refine ⟨fun _ => id, ?_⟩
    rintro port ⟨j, hj, hjp⟩
    refine ⟨j, ?_⟩
    dsimp only
    by_cases he : j = i
    · subst he
      rw [Function.update_self, hforPort hp j hj]
      exact ⟨hj, hjp⟩
    · rw [Function.update_of_ne he, hforPort hp j hj]
      exact ⟨hj, hjp⟩
  | socket i =>
    refine ⟨fun j hj => ?_, fun _ => id⟩
    by_cases he : j = i
    · subst he
      simpa using hj
    · simpa [Function.update_of_ne he] using hj

/-! ## The loops over a table -/

/-- The references the given slots of a table contribute. -/
def tableCount (d : Fin maxFds → Option Object) (is : List (Fin maxFds)) : Object → ℕ :=
  (is.map fun i => slotCount (d i)).sum

theorem tableCount_cons (d : Fin maxFds → Option Object) (i : Fin maxFds)
    (is : List (Fin maxFds)) : tableCount d (i :: is) = slotCount (d i) + tableCount d is := rfl

section Loops

variable {d : Fin maxFds → Option Object} {is : List (Fin maxFds)}

/-- The child's table after the loop. -/
theorem forkLoop_table (parent child : FdTable) (is : List (Fin maxFds)) (j : Fin maxFds) :
    (forkLoop parent is child b).1 j = if j ∈ is then parent j else child j := by
  induction is generalizing b child with
  | nil => simp [forkLoop]
  | cons i is ih =>
    rw [forkLoop, ih]
    by_cases hj : j ∈ is
    · simp [hj]
    · by_cases he : j = i
      · simp [he]
      · simp [hj, he]

theorem vfsForkFds_table (b : Backends τ ν) (parent : FdTable) :
    (vfsForkFds b parent).1 = parent := by
  funext j
  rw [vfsForkFds, forkLoop_table, if_pos (List.mem_finRange j)]

/-- Each round of the fork loop takes one reference. -/
theorem forkLoop_spec {parent : FdTable} (child : FdTable) (h : Counts b n)
    (hparent : ∀ i ∈ is, parent i = slotHandle (d i)) (hpos : ∀ i ∈ is, ∀ o ∈ d i, 0 < n o)
    (hb : ∀ o, n o + tableCount d is o < 2 ^ 31) (hh : ∀ i ∈ is, ∀ o ∈ d i, Holds b o) :
    Counts (forkLoop parent is child b).2 (n + tableCount d is) ∧
      Kept b (forkLoop parent is child b).2 := by
  induction is generalizing b n child with
  | nil => exact ⟨by simpa [tableCount, forkLoop] using h, .refl b⟩
  | cons i is ih =>
    have hi : i ∈ i :: is := List.mem_cons_self
    have hlim : ∀ o ∈ d i, n o + 1 < 2 ^ 31 := by
      intro o ho
      have := hb o
      rw [tableCount_cons, Option.mem_def.mp ho] at this
      simp only [slotCount, Pi.add_apply, Pi.single_eq_same] at this
      omega
    obtain ⟨hcounts, hkept⟩ := dupHandle_spec h (hpos i hi) hlim (hh i hi)
    rw [← hparent i hi] at hcounts hkept
    obtain ⟨hcounts', hkept'⟩ := ih (Function.update child i (parent i)) hcounts
      (fun j hj => hparent j (List.mem_cons_of_mem _ hj))
      (fun j hj o ho => Nat.add_pos_left (hpos j (List.mem_cons_of_mem _ hj) o ho) _)
      (fun o => by
        have := hb o
        rw [tableCount_cons, Pi.add_apply] at this
        rw [Pi.add_apply]
        omega)
      (fun j hj o ho => (hh j (List.mem_cons_of_mem _ hj) o ho).kept hkept)
    rw [forkLoop, Function.update_self]
    refine ⟨?_, hkept.trans hkept'⟩
    rwa [tableCount_cons, ← add_assoc]

/-- A round of the exit loop is a `file_close` of an occupied slot. -/
theorem exitFd_eq (b : Backends τ ν) (table : FdTable) (i : Fin maxFds) :
    exitFd b table i = if table i = emptyHandle then (table, b)
      else (Function.update table i emptyHandle, (fileClose b (table i)).2) := by
  unfold exitFd fileClose
  by_cases he : table i = emptyHandle
  · rw [he, socketHandleValid_empty]
    rfl
  · rw [if_neg he]
    cases socketHandleValid b.sockets (table i) with
    | true => rfl
    | false =>
      simp only [Bool.false_eq_true, if_false]
      by_cases hlt : table i < emptyHandle
      · rw [if_neg (by simp only [emptyHandle] at hlt; omega), if_pos hlt, if_pos hlt]
      · rw [if_pos (by simp only [emptyHandle] at he hlt; omega), if_neg hlt]

/-- Each round of the exit loop drops the reference of one slot. -/
theorem exitLoop_spec (table : FdTable) (h : Counts b (n + tableCount d is)) (hnd : is.Nodup)
    (htable : ∀ i ∈ is, table i = slotHandle (d i))
    (hb : ∀ o, n o + tableCount d is o < 2 ^ 31) (hh : ∀ i ∈ is, ∀ o ∈ d i, Holds b o) :
    Counts (exitLoop is table b).2 n ∧ Kept b (exitLoop is table b).2 := by
  induction is generalizing b table with
  | nil => exact ⟨by simpa [tableCount, exitLoop] using h, .refl b⟩
  | cons i is ih =>
    obtain ⟨hni, hnd⟩ := List.nodup_cons.mp hnd
    have hrest : ∀ o, n o + tableCount d is o < 2 ^ 31 := by
      intro o
      have := hb o
      rw [tableCount_cons, Pi.add_apply] at this
      omega
    have htl : ∀ j ∈ is, table j = slotHandle (d j) :=
      fun j hj => htable j (List.mem_cons_of_mem _ hj)
    have hti := htable i List.mem_cons_self
    rw [exitLoop, exitFd_eq]
    cases hd : d i with
    | none =>
      rw [if_pos (hti.trans (by rw [hd]; rfl))]
      refine ih table ?_ hnd htl hrest fun j hj => hh j (List.mem_cons_of_mem _ hj)
      rwa [tableCount_cons, hd, add_comm (slotCount none), ← add_assoc, add_slotCount_none] at h
    | some o =>
      rw [hd] at hti
      rw [if_neg (hti ▸ o.handle_ne_empty), hti, slotHandle]
      rw [tableCount_cons, hd, add_comm (slotCount _), ← add_assoc] at h
      have hlim : (n + tableCount d is) o + 1 < 2 ^ 31 := by
        have := hb o
        rw [tableCount_cons, hd] at this
        simp only [slotCount, Pi.add_apply, Pi.single_eq_same] at this
        simp only [Pi.add_apply]
        omega
      obtain ⟨-, hcounts, hkept⟩ :=
        fileClose_spec h hlim (hh i List.mem_cons_self o (by rw [hd]; rfl))
      obtain ⟨hcounts', hkept'⟩ := ih (Function.update table i emptyHandle) hcounts hnd
        (fun j hj => by
          have hne : j ≠ i := fun he => hni (he ▸ hj)
          rw [Function.update_of_ne hne]
          exact htl j hj)
        hrest (fun j hj o' ho' => (hh j (List.mem_cons_of_mem _ hj) o' ho').kept hkept)
      exact ⟨hcounts', hkept.trans hkept'⟩

end Loops

end Mboot.Vfs
