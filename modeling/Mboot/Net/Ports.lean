import Mboot.Common.Run
import Mboot.Net.Fifo
import Mboot.Net.Socket

/-!
# Sockets and the ports they hold

A bound socket (`socket.c`) has a port, and `udp_servers` (`udp.c`) has a queue
for every port that was ever bound. The two tables are linked by the port number
only. `socket_bind` makes a queue for its port; neither `socket_close` nor a
second `socket_bind` gives one back.

The record `boundAt` says since when a socket is bound to its port and
`queuedAt` when the datagrams in the queue of a port arrived, both as numbers of
operations. `PortsReleased`: the queues are those of the ports of open sockets,
so that a port can be bound while fewer than four ports are in use, and a queue
holds no datagram from before the open sockets on its port were bound.

* `ports_released_iff`: this survives exactly the operations in which no socket
  gives up a port, or another open socket has held it for as long as anything
  in its queue.
* `recorded_of_fits`: the record has one entry for every queued datagram.
* `closed_sockets_keep_ports`: four ports, bound and closed, are never free
  again, and the next socket on one of them gets the mail of the last one.
-/

namespace Mboot.Net

open Common

/-! ## The system -/

inductive PortOp
  | create (domain type protocol : ℤ)
  | bind (handle : ℤ) (port : UInt16)
  | dup (handle : ℤ)
  | close (handle : ℤ)
  | arrive (d : Datagram)
  /-- the call of `udp_server_recv` in `socket_read` and `socket_recvfrom` -/
  | receive (handle : ℤ) (maxLen : ℕ)

/-- The two tables and the record. -/
structure PortState where
  sockets : Sockets
  servers : Servers
  /-- the number of operations so far -/
  now : ℕ
  boundAt : Fin socketMax → ℕ
  /-- oldest first -/
  queuedAt : ℕ → List ℕ

/-- What a socket takes from the queue of its port. -/
def socketReceive (sockets : Sockets) (servers : Servers) (handle : ℤ) (maxLen : ℕ) :
    Option (ℕ × Servers) :=
  (socketFromHandle sockets handle).bind fun i =>
    if (sockets i).bound then
      (udpServerRecv servers (sockets i).localPort maxLen).map fun r =>
        ((sockets i).localPort, r.2.2.2)
    else none

/-- Whether `udp_server_enqueue` takes a datagram for the port. -/
def hasRoom (servers : Servers) (port : ℕ) : Bool :=
  (udpFindServer servers port).any fun i => (servers i).any fun m => m.count < udpMaxQueue

/-- The tables after an operation. -/
def PortState.call (s : PortState) : PortOp → Sockets × Servers
  | .create domain type protocol => ((socketCreate s.sockets domain type protocol).2, s.servers)
  | .bind handle port => (socketBind s.sockets s.servers handle port.toNat).2
  | .dup handle => ((socketDup s.sockets handle).2, s.servers)
  | .close handle => ((socketClose s.sockets handle).2, s.servers)
  | .arrive d => (s.sockets, deliver s.servers (.udp d))
  | .receive handle maxLen =>
    (s.sockets, ((socketReceive s.sockets s.servers handle maxLen).map Prod.snd).getD s.servers)

/-- The record of the queues after an operation. -/
def PortState.queues (s : PortState) : PortOp → ℕ → List ℕ
  | .arrive d =>
    if hasRoom s.servers d.dstPort then
      Function.update s.queuedAt d.dstPort (s.queuedAt d.dstPort ++ [s.now])
    else s.queuedAt
  | .receive handle maxLen =>
    match socketReceive s.sockets s.servers handle maxLen with
    | some (port, _) => Function.update s.queuedAt port (s.queuedAt port).tail
    | none => s.queuedAt
  | _ => s.queuedAt

def PortState.step (s : PortState) (op : PortOp) : PortState where
  sockets := (s.call op).1
  servers := (s.call op).2
  now := s.now + 1
  -- a socket that was bound to this port before has been so all the time
  boundAt i :=
    if (s.sockets i).bound ∧ ((s.call op).1 i).localPort = (s.sockets i).localPort then s.boundAt i
    else s.now
  queuedAt := s.queues op

/-- After `socket_init` and `udp_init`. -/
def PortState.init : PortState where
  sockets := fun _ => Socket.zero
  servers := fun _ => none
  now := 0
  boundAt := fun _ => 0
  queuedAt := fun _ => []

/-- The port an open socket is bound to. -/
def PortState.held (s : PortState) (i : Fin socketMax) : Option ℕ :=
  if (s.sockets i).used ∧ (s.sockets i).bound then some (s.sockets i).localPort else none

/-- There is a queue for the port. -/
def PortState.Served (s : PortState) (port : ℕ) : Prop := ∃ i m, s.servers i = some m ∧ m.port = port

/-- The ports open sockets are bound to. -/
def PortState.heldPorts (s : PortState) : Finset ℕ := Finset.univ.biUnion fun i => (s.held i).toFinset

/-- The ports are released with their sockets. -/
structure PortsReleased (s : PortState) : Prop where
  ports : ∀ port, s.Served port ↔ ∃ i, s.held i = some port
  binds : ∀ handle (port : UInt16), socketHandleValid s.sockets handle = true → port ≠ 0 →
    s.heldPorts.card < udpMaxServers → (socketBind s.sockets s.servers handle port.toNat).1 = 0
  fresh : ∀ i port, s.held i = some port → ∀ time ∈ s.queuedAt port,
    ∃ j, s.held j = some port ∧ s.boundAt j ≤ time

/-- The operation makes socket `i` give up the port: it closes the last
    reference, or binds the socket to another port. -/
def GivesUp (s : PortState) (i : Fin socketMax) (port : ℕ) : PortOp → Prop
  | .close handle => socketFromHandle s.sockets handle = some i ∧ s.held i = some port ∧
      ((s.sockets i).refs = 1 ∨ (s.sockets i).refs = 0)
  | .bind handle new => socketFromHandle s.sockets handle = some i ∧ s.held i = some port ∧
      new.toNat ≠ port ∧ new ≠ 0 ∧ (s.Served new.toNat ∨ ∃ k, s.servers k = none)
  | _ => False

/-- Another open socket has held the port for as long as anything in its queue. -/
def HeldByOther (s : PortState) (i : Fin socketMax) (port : ℕ) : Prop :=
  (∃ j, j ≠ i ∧ s.held j = some port) ∧
    ∀ time ∈ s.queuedAt port, ∃ j, j ≠ i ∧ s.held j = some port ∧ s.boundAt j ≤ time

def KeepsPorts (s : PortState) (op : PortOp) : Prop :=
  ∀ i port, GivesUp s i port op → HeldByOther s i port

variable {s s' : PortState} {op : PortOp} {i : Fin socketMax} {port : ℕ}

theorem PortState.held_eq_some :
    s.held i = some port ↔
      (s.sockets i).used = true ∧ (s.sockets i).bound = true ∧ (s.sockets i).localPort = port := by
  unfold PortState.held
  split_ifs with h
  · simp [h.1, h.2]
  · simp only [false_iff, not_and]
    intro hu hb
    exact absurd ⟨hu, hb⟩ h

/-! ## The servers -/

theorem served_iff : s.Served port ↔ (udpFindServer s.servers port).isSome := serves_iff

/-- An arrival does not touch the port of a server, however long it is. -/
theorem udpServerEnqueue_port (m : ServerMem) (d : Datagram) :
    (udpServerEnqueue m d).port = m.port := by
  have hslot : 2 ≤ slotOff m.nextSlot := by simp only [slotOff]; omega
  unfold udpServerEnqueue
  split_ifs
  · rfl
  · apply load_congr
    intro k hk
    have hcount : 2 ≤ countOff := by decide
    rw [store_of_outside _ (by omega), store_of_outside _ (by omega),
      storeWord_of_outside _ _ (by omega), store_of_outside _ (by omega),
      storeWord_of_outside _ _ (by omega)]

theorem dequeue_port (m : ServerMem) : m.dequeue.port = m.port := by
  apply load_congr
  intro k hk
  have hhead : 2 ≤ headOff := by decide
  have hcount : 2 ≤ countOff := by decide
  rw [ServerMem.dequeue, store_of_outside _ (by omega), store_of_outside _ (by omega)]

/-- `b` has the ports of `a`, in the same slots. -/
def SamePorts (a b : Servers) : Prop :=
  ∀ i, (b i).map ServerMem.port = (a i).map ServerMem.port

theorem SamePorts.refl (a : Servers) : SamePorts a a := fun _ => rfl

theorem SamePorts.update {a : Servers} {i : Fin udpMaxServers} {m m' : ServerMem}
    (hm : a i = some m) (hport : m'.port = m.port) : SamePorts a (Function.update a i (some m')) := by
  intro j
  by_cases hj : j = i
  · subst hj
    rw [Function.update_self, hm, Option.map_some, Option.map_some, hport]
  · rw [Function.update_of_ne hj]

theorem deliver_samePorts (a : Servers) (d : Datagram) : SamePorts a (deliver a (.udp d)) := by
  simp only [deliver]
  split
  · next i hi =>
    obtain ⟨m, hm, -⟩ := udpFindServer_some hi
    rw [hm, Option.map_some]
    exact SamePorts.update hm (udpServerEnqueue_port m d)
  · exact SamePorts.refl a

theorem udpServerRecv_samePorts {a : Servers} {p maxLen : ℕ} {r : Ip × ℕ × List UInt8 × Servers}
    (h : udpServerRecv a p maxLen = some r) : SamePorts a r.2.2.2 := by
  unfold udpServerRecv at h
  cases hi : udpFindServer a p with
  | none =>
    rw [hi] at h
    cases h
  | some i =>
    obtain ⟨m, hm, -⟩ := udpFindServer_some hi
    rw [hi] at h
    simp only [Option.bind_eq_bind, Option.bind_some, hm] at h
    by_cases hcount : m.count = 0
    · rw [if_pos hcount] at h
      cases h
    · rw [if_neg hcount] at h
      obtain rfl := Option.some.inj h
      exact SamePorts.update hm (dequeue_port m)

theorem SamePorts.served {b : Servers} (h : SamePorts s.servers b) :
    (∃ i m, b i = some m ∧ m.port = port) ↔ s.Served port := by
  refine exists_congr fun i => ?_
  have hi := h i
  constructor
  · rintro ⟨m, hm, hport⟩
    rw [hm, Option.map_some] at hi
    obtain ⟨m', hm', hport'⟩ := Option.map_eq_some_iff.mp hi.symm
    exact ⟨m', hm', hport'.trans hport⟩
  · rintro ⟨m, hm, hport⟩
    rw [hm, Option.map_some] at hi
    obtain ⟨m', hm', hport'⟩ := Option.map_eq_some_iff.mp hi
    exact ⟨m', hm', hport'.trans hport⟩

/-- A new queue in a free slot. -/
theorem served_update {k : Fin udpMaxServers} {m : ServerMem} (hk : s.servers k = none) :
    (∃ j m', Function.update s.servers k (some m) j = some m' ∧ m'.port = port) ↔
      s.Served port ∨ m.port = port := serves_update hk

/-- Every port has one queue. -/
def OneQueue (servers : Servers) : Prop :=
  ∀ i j m m', servers i = some m → servers j = some m' → m.port = m'.port → i = j

theorem OneQueue.samePorts {a b : Servers} (h : OneQueue a) (hab : SamePorts a b) : OneQueue b := by
  intro i j m m' hm hm' hport
  have hi := hab i
  have hj := hab j
  rw [hm, Option.map_some] at hi
  rw [hm', Option.map_some] at hj
  obtain ⟨n, hn, hnport⟩ := Option.map_eq_some_iff.mp hi.symm
  obtain ⟨n', hn', hnport'⟩ := Option.map_eq_some_iff.mp hj.symm
  exact h i j n n' hn hn' (by rw [hnport, hnport', hport])

theorem udpServerBind_cases (port : UInt16) :
    ((udpServerBind s.servers port.toNat) = (0, s.servers) ∧ s.Served port.toNat) ∨
    (udpServerBind s.servers port.toNat = (-1, s.servers) ∧ ¬ s.Served port.toNat ∧
      ∀ k, s.servers k ≠ none) ∨
    ∃ k m, udpServerBind s.servers port.toNat = (0, Function.update s.servers k (some m)) ∧
      ¬ s.Served port.toNat ∧ s.servers k = none ∧ m.port = port.toNat ∧ ServerOk m ∧
      m.pending = [] := udpServerBind_outcome s.servers port.toNat_lt

/-! ## One operation -/

/-- What holds in every state. -/
structure PortsOk (s : PortState) : Prop where
  oneQueue : OneQueue s.servers
  boundAt_le : ∀ i, s.boundAt i ≤ s.now
  unserved : ∀ port, ¬ s.Served port → s.queuedAt port = []

/-- `s'` is `s` after an operation in which socket `i` goes over to `new`; the
    other sockets keep their ports. -/
structure Moved (s s' : PortState) (i : Fin socketMax) (new : Option ℕ) : Prop where
  held : ∀ j, s'.held j = if j = i then new else s.held j
  served : ∀ port, s'.Served port ↔ s.Served port ∨ new = some port
  boundAt : ∀ j port, s.held j = some port → s'.held j = some port → s'.boundAt j = s.boundAt j
  boundAt_le : ∀ j, s'.boundAt j ≤ s.now
  queued : ∀ port, ∀ time ∈ s'.queuedAt port,
    time ∈ s.queuedAt port ∨ time = s.now ∧ s.Served port
  /-- an operation that moves a socket leaves the queues alone -/
  unqueued : new ≠ s.held i → s'.queuedAt = s.queuedAt

/-- The queues are those of the ports in use, and hold nothing older than their
    sockets. -/
structure PortsMatch (s : PortState) : Prop where
  ports : ∀ port, s.Served port ↔ ∃ i, s.held i = some port
  fresh : ∀ i port, s.held i = some port → ∀ time ∈ s.queuedAt port,
    ∃ j, s.held j = some port ∧ s.boundAt j ≤ time

theorem Moved.held_of_ne {new : Option ℕ} (h : Moved s s' i new) {j : Fin socketMax} (hj : j ≠ i) :
    s'.held j = s.held j := by
  rw [h.held j, if_neg hj]

theorem Moved.held_self {new : Option ℕ} (h : Moved s s' i new) : s'.held i = new := by
  rw [h.held i, if_pos rfl]

/-- The tables still match exactly if the port the socket has left is held by
    another one. -/
theorem Moved.match_iff {new : Option ℕ} (h : Moved s s' i new) (hok : PortsOk s)
    (hs : PortsMatch s) :
    PortsMatch s' ↔ ∀ port, s.held i = some port → new ≠ some port → HeldByOther s i port := by
  constructor
  · intro hs' port hheld hne
    have hi : s'.held i ≠ some port := by
      rw [h.held_self]
      exact hne
    have hother : ∀ j, s'.held j = some port → j ≠ i ∧ s.held j = some port := by
      intro j hj
      have hji : j ≠ i := by
        rintro rfl
        exact hi hj
      exact ⟨hji, (h.held_of_ne hji).symm.trans hj⟩
    have hserved := (h.served port).mpr (.inl ((hs.ports port).mpr ⟨i, hheld⟩))
    obtain ⟨j, hj⟩ := (hs'.ports port).mp hserved
    refine ⟨⟨j, hother j hj⟩, fun time htime => ?_⟩
    rw [← h.unqueued (by rw [hheld]; exact hne)] at htime
    obtain ⟨k, hk, hle⟩ := hs'.fresh j port hj time htime
    obtain ⟨hki, hkheld⟩ := hother k hk
    exact ⟨k, hki, hkheld, by rwa [h.boundAt k port hkheld hk] at hle⟩
  · intro hleft
    -- a socket on a port is still there, or has left the port to another one
    have hstay : ∀ j port, s.held j = some port → s'.held j = some port ∨
        j = i ∧ HeldByOther s i port := by
      intro j port hj
      by_cases hji : j = i
      · subst hji
        by_cases hnew : new = some port
        · exact .inl (h.held_self.trans hnew)
        · exact .inr ⟨rfl, hleft port hj hnew⟩
      · exact .inl ((h.held_of_ne hji).trans hj)
    refine ⟨fun port => ⟨fun hserved => ?_, ?_⟩, fun j port hj time htime => ?_⟩
    · rcases (h.served port).mp hserved with hold | hnew
      · obtain ⟨j, hj⟩ := (hs.ports port).mp hold
        rcases hstay j port hj with hj' | ⟨-, ⟨k, hki, hk⟩, -⟩
        · exact ⟨j, hj'⟩
        · exact ⟨k, (h.held_of_ne hki).trans hk⟩
      · exact ⟨i, h.held_self.trans hnew⟩
    · rintro ⟨j, hj⟩
      rw [h.served]
      by_cases hji : j = i
      · subst hji
        exact .inr (h.held_self.symm.trans hj)
      · exact .inl ((hs.ports port).mpr ⟨j, (h.held_of_ne hji).symm.trans hj⟩)
    · rcases h.queued port time htime with hold | ⟨rfl, -⟩
      · have hserved : s.Served port := by
          by_contra hnot
          rw [hok.unserved port hnot] at hold
          cases hold
        obtain ⟨k, hk⟩ := (hs.ports port).mp hserved
        obtain ⟨l, hl, hle⟩ := hs.fresh k port hk time hold
        rcases hstay l port hl with hl' | ⟨-, -, hother⟩
        · exact ⟨l, hl', by rwa [h.boundAt l port hl hl']⟩
        · obtain ⟨n, hni, hn, hnle⟩ := hother time hold
          have hn' := (h.held_of_ne hni).trans hn
          exact ⟨n, hn', by rwa [h.boundAt n port hn hn']⟩
      · exact ⟨j, hj, h.boundAt_le j⟩

/-- What a received datagram leaves. -/
theorem socketReceive_some {handle : ℤ} {maxLen : ℕ} {r : ℕ × Servers}
    (h : socketReceive s.sockets s.servers handle maxLen = some r) : SamePorts s.servers r.2 := by
  obtain ⟨i, -, hi⟩ := Option.bind_eq_some_iff.mp h
  split_ifs at hi
  obtain ⟨q, hq, rfl⟩ := Option.map_eq_some_iff.mp hi
  exact udpServerRecv_samePorts hq

/-- Only `socket_bind` changes which ports are served. -/
theorem call_samePorts (hop : ∀ handle port, op ≠ .bind handle port) :
    SamePorts s.servers (s.call op).2 := by
  cases op with
  | bind handle port => exact absurd rfl (hop handle port)
  | arrive d => exact deliver_samePorts s.servers d
  | receive handle maxLen =>
    simp only [PortState.call]
    cases hr : socketReceive s.sockets s.servers handle maxLen with
    | none => exact SamePorts.refl _
    | some r => exact socketReceive_some hr
  | _ => exact SamePorts.refl _

theorem hasRoom_served (h : hasRoom s.servers port = true) : s.Served port := by
  rw [served_iff]
  cases hi : udpFindServer s.servers port with
  | none =>
    rw [hasRoom, hi] at h
    cases h
  | some i => rfl

theorem step_queued {time : ℕ} (h : time ∈ (s.step op).queuedAt port) :
    time ∈ s.queuedAt port ∨ time = s.now ∧ s.Served port := by
  change time ∈ s.queues op port at h
  cases op with
  | arrive d =>
    simp only [PortState.queues] at h
    split_ifs at h with hroom
    · by_cases hp : port = d.dstPort
      · subst hp
        rw [Function.update_self, List.mem_append, List.mem_singleton] at h
        exact h.imp_right fun ht => ⟨ht, hasRoom_served hroom⟩
      · rw [Function.update_of_ne hp] at h
        exact .inl h
    · exact .inl h
  | receive handle maxLen =>
    cases hr : socketReceive s.sockets s.servers handle maxLen with
    | none =>
      simp only [PortState.queues, hr] at h
      exact .inl h
    | some r =>
      simp only [PortState.queues, hr] at h
      by_cases hp : port = r.1
      · subst hp
        rw [Function.update_self] at h
        exact .inl (List.mem_of_mem_tail h)
      · rw [Function.update_of_ne hp] at h
        exact .inl h
  | _ => exact .inl h

/-- The clauses of `Moved` that hold for every operation. -/
theorem Moved.of_step (hok : PortsOk s) {new : Option ℕ}
    (hheld : ∀ j, (s.step op).held j = if j = i then new else s.held j)
    (hserved : ∀ port, (s.step op).Served port ↔ s.Served port ∨ new = some port)
    (hqueues : new ≠ s.held i → s.queues op = s.queuedAt) : Moved s (s.step op) i new where
  held := hheld
  served := hserved
  boundAt := by
    intro j port hj hj'
    obtain ⟨-, hb, hp⟩ := PortState.held_eq_some.mp hj
    obtain ⟨-, -, hp'⟩ := PortState.held_eq_some.mp hj'
    exact if_pos ⟨hb, hp'.trans hp.symm⟩
  boundAt_le := by
    intro j
    simp only [PortState.step]
    split_ifs
    · exact hok.boundAt_le j
    · exact le_rfl
  queued _ _ h := step_queued h
  unqueued := hqueues

/-- The operation moves socket `i` to `new`, and this is what `GivesUp` says. -/
def MovesAs (s : PortState) (op : PortOp) (i : Fin socketMax) (new : Option ℕ) : Prop :=
  Moved s (s.step op) i new ∧
    ∀ j port, GivesUp s j port op ↔ j = i ∧ s.held i = some port ∧ new ≠ some port

/-- An operation that leaves every socket its port. -/
theorem movesAs_self (hok : PortsOk s) (hs : PortsMatch s)
    (hheld : ∀ j, (s.step op).held j = s.held j)
    (hports : SamePorts s.servers (s.call op).2)
    (hgives : ∀ j port, ¬ GivesUp s j port op) : MovesAs s op 0 (s.held 0) := by
  refine ⟨Moved.of_step hok (fun j => ?_) (fun port => ?_) fun hne => absurd rfl hne,
    fun j port => ?_⟩
  · rw [hheld j]
    split_ifs with hj
    · rw [hj]
    · rfl
  · refine ⟨fun h => .inl (hports.served.mp h), ?_⟩
    rintro (h | h)
    · exact hports.served.mpr h
    · exact hports.served.mpr ((hs.ports port).mpr ⟨0, h⟩)
  · exact iff_of_false (hgives j port) fun h => h.2.2 h.2.1

/-- A socket that is replaced by one with the same flags and port. -/
theorem held_update {sock : Socket} (hcall : (s.call op).1 = Function.update s.sockets i sock)
    (j : Fin socketMax) :
    (s.step op).held j = if j = i then
      (if sock.used ∧ sock.bound then some sock.localPort else none) else s.held j := by
  simp only [PortState.held, PortState.step, hcall]
  by_cases hj : j = i
  · subst hj
    rw [Function.update_self, if_pos rfl]
  · rw [Function.update_of_ne hj, if_neg hj]

theorem held_update_self {k : Socket} (hcall : (s.call op).1 = Function.update s.sockets i k)
    (hsame : (if k.used ∧ k.bound then some k.localPort else none) = s.held i)
    (j : Fin socketMax) : (s.step op).held j = s.held j := by
  rw [held_update hcall j, hsame]
  split_ifs with hj
  · rw [hj]
  · rfl

theorem held_same (hcall : (s.call op).1 = s.sockets) (j : Fin socketMax) :
    (s.step op).held j = s.held j := by
  simp only [PortState.held, PortState.step, hcall]

theorem create_movesAs (hok : PortsOk s) (hs : PortsMatch s) (domain type protocol : ℤ) :
    MovesAs s (.create domain type protocol) 0 (s.held 0) := by
  refine movesAs_self hok hs (fun j => ?_) (call_samePorts (by simp)) fun _ _ h => h
  cases hargs : socketArgsOk domain type protocol with
  | false => exact held_same (by simp [PortState.call, socketCreate, hargs]) j
  | true =>
    cases hfree : firstFreeSocket s.sockets with
    | none => exact held_same (by simp [PortState.call, socketCreate, hargs, hfree]) j
    | some i =>
      -- the slot was free, and the new socket is not bound
      have hunused : (s.sockets i).used = false := by
        have := List.find?_some hfree
        simpa using this
      have hnone : s.held i = none := by
        unfold PortState.held
        rw [hunused]
        exact if_neg (by simp)
      refine held_update_self (i := i) (k := if type = sockRaw then _ else _)
        (by simp only [PortState.call, socketCreate, hargs, hfree]; rfl) ?_ j
      rw [hnone]
      split_ifs <;> simp_all [Socket.zero]

theorem dup_movesAs (hok : PortsOk s) (hs : PortsMatch s) (handle : ℤ) :
    MovesAs s (.dup handle) 0 (s.held 0) := by
  refine movesAs_self hok hs (fun j => ?_) (call_samePorts (by simp)) fun _ _ h => h
  cases hi : socketFromHandle s.sockets handle with
  | none => exact held_same (by simp [PortState.call, socketDup, hi]) j
  | some i =>
    have hcall : (s.call (.dup handle)).1 = Function.update s.sockets i
        { s.sockets i with refs := int32 ((s.sockets i).refs + 1) } := by
      simp only [PortState.call, socketDup, hi]
    exact held_update_self hcall rfl j

theorem close_movesAs (hok : PortsOk s) (hs : PortsMatch s) (handle : ℤ) :
    ∃ i new, MovesAs s (.close handle) i new := by
  have hports : SamePorts s.servers (s.call (.close handle)).2 := SamePorts.refl _
  cases hi : socketFromHandle s.sockets handle with
  | none =>
    refine ⟨0, _, movesAs_self hok hs
      (held_same (by simp [PortState.call, socketClose, hi])) hports fun j port h => ?_⟩
    have := h.1
    rw [hi] at this
    cases this
  | some i =>
    by_cases hlast : (s.sockets i).refs = 1 ∨ (s.sockets i).refs = 0
    · have hcall : (s.call (.close handle)).1 = Function.update s.sockets i Socket.zero := by
        simp only [PortState.call, socketClose, hi]
        rcases hlast with h | h <;> simp [h]
      refine ⟨i, none, Moved.of_step hok (held_update hcall) (fun port => ?_) fun _ => rfl,
        fun j port => ?_⟩
      · exact hports.served.trans (by simp)
      · simp only [GivesUp, hi, Option.some.injEq]
        constructor
        · rintro ⟨rfl, hheld, -⟩
          exact ⟨rfl, hheld, by simp⟩
        · rintro ⟨rfl, hheld, -⟩
          exact ⟨rfl, hheld, hlast⟩
    · have hcall : (s.call (.close handle)).1 = Function.update s.sockets i { s.sockets i with
          refs := if (s.sockets i).refs > 0 then (s.sockets i).refs - 1 else (s.sockets i).refs } := by
        simp only [PortState.call, socketClose, hi]
        rw [if_neg (by split_ifs <;> omega)]
      refine ⟨0, _, movesAs_self hok hs (held_update_self hcall rfl) hports fun j port h => ?_⟩
      obtain ⟨hj, -, hrefs⟩ := h
      rw [hi] at hj
      cases hj
      exact hlast hrefs

theorem bind_movesAs (hok : PortsOk s) (hs : PortsMatch s) (handle : ℤ) (port : UInt16) :
    ∃ i new, MovesAs s (.bind handle port) i new := by
  cases hi : socketFromHandle s.sockets handle with
  | none =>
    have hcall : s.call (.bind handle port) = (s.sockets, s.servers) := by
      simp [PortState.call, socketBind, hi]
    refine ⟨0, _, movesAs_self hok hs (held_same (by rw [hcall])) (by rw [hcall]; exact .refl _)
      fun j p h => ?_⟩
    have := h.1
    rw [hi] at this
    cases this
  | some i =>
    have hused : (s.sockets i).used = true := (socketFromHandle_eq_some.mp hi).2
    by_cases hzero : port = 0
    · have hcall : s.call (.bind handle port) = (s.sockets, s.servers) := by
        simp [PortState.call, socketBind, hi, hzero]
      refine ⟨0, _, movesAs_self hok hs (held_same (by rw [hcall])) (by rw [hcall]; exact .refl _)
        fun j p h => ?_⟩
      exact h.2.2.2.1 hzero
    have hne : port.toNat ≠ 0 := fun h => hzero (UInt16.toNat_inj.mp (by simpa using h))
    -- with `port` served in the new table, the bind succeeds
    have hgood : ∀ servers, udpServerBind s.servers port.toNat = (0, servers) →
        (∀ p, (∃ k m, servers k = some m ∧ m.port = p) ↔ s.Served p ∨ some port.toNat = some p) →
        (s.Served port.toNat ∨ ∃ k, s.servers k = none) →
        MovesAs s (.bind handle port) i (some port.toNat) := by
      intro servers hbind hserved hroom
      have hcall : s.call (.bind handle port) = (Function.update s.sockets i
          { s.sockets i with localPort := port.toNat, bound := true }, servers) := by
        simp [PortState.call, socketBind, hi, hne, hbind]
      refine ⟨Moved.of_step hok (fun j => ?_) (fun p => ?_) fun _ => rfl, fun j p => ?_⟩
      · rw [held_update (congrArg Prod.fst hcall) j]
        simp [hused]
      · rw [← hserved p, PortState.Served, PortState.step, hcall]
      · simp only [GivesUp, hi, Option.some.injEq]
        constructor
        · rintro ⟨rfl, hheld, hp, -, -⟩
          exact ⟨rfl, hheld, fun h => hp (Option.some.inj h)⟩
        · rintro ⟨rfl, hheld, hp⟩
          exact ⟨rfl, hheld, fun h => hp (congrArg some h), hzero, hroom⟩
    rcases udpServerBind_cases (s := s) port with ⟨hbind, hserved⟩ | ⟨hbind, hserved, hfull⟩ |
      ⟨k, m, hbind, hserved, hk, hm, -⟩
    · refine ⟨i, _, hgood s.servers hbind (fun p => ⟨.inl, ?_⟩) (.inl hserved)⟩
      rintro (h | h)
      · exact h
      · cases h
        exact hserved
    · have hcall : s.call (.bind handle port) = (s.sockets, s.servers) := by
        simp [PortState.call, socketBind, hi, hne, hbind]
      refine ⟨0, _, movesAs_self hok hs (held_same (by rw [hcall])) (by rw [hcall]; exact .refl _)
        fun j p h => ?_⟩
      rcases h.2.2.2.2 with h | ⟨k, hk⟩
      · exact hserved h
      · exact hfull k hk
    · exact ⟨i, _, hgood _ hbind (fun p => by rw [served_update hk, hm, Option.some.injEq])
        (.inr ⟨k, hk⟩)⟩

theorem step_movesAs (hok : PortsOk s) (hs : PortsMatch s) (op : PortOp) :
    ∃ i new, MovesAs s op i new := by
  cases op with
  | create domain type protocol => exact ⟨0, _, create_movesAs hok hs domain type protocol⟩
  | bind handle port => exact bind_movesAs hok hs handle port
  | dup handle => exact ⟨0, _, dup_movesAs hok hs handle⟩
  | close handle => exact close_movesAs hok hs handle
  | arrive d | receive handle maxLen =>
    exact ⟨0, _, movesAs_self hok hs (held_same rfl) (call_samePorts (by simp)) fun _ _ h => h⟩

/-- The tables still match after an operation exactly if it keeps the ports. -/
theorem PortsMatch.step_iff (hs : PortsMatch s) (hok : PortsOk s) (op : PortOp) :
    PortsMatch (s.step op) ↔ KeepsPorts s op := by
  obtain ⟨i, new, hmoved, hgives⟩ := step_movesAs hok hs op
  rw [hmoved.match_iff hok hs]
  constructor
  · intro h j port hj
    obtain ⟨rfl, hheld, hne⟩ := (hgives j port).mp hj
    exact h port hheld hne
  · intro h port hheld hne
    exact h i port ((hgives i port).mpr ⟨rfl, hheld, hne⟩)

/-! ## Every state -/

theorem PortsOk.init : PortsOk PortState.init where
  oneQueue := by
    intro i j m m' hm
    cases hm
  boundAt_le _ := le_rfl
  unserved _ _ := rfl

theorem udpServerBind_oneQueue (h : OneQueue s.servers) (port : UInt16) :
    OneQueue (udpServerBind s.servers port.toNat).2 := by
  rcases udpServerBind_cases (s := s) port with ⟨hbind, -⟩ | ⟨hbind, -⟩ |
    ⟨k, m, hbind, hserved, -, hm, -⟩
  · rw [hbind]
    exact h
  · rw [hbind]
    exact h
  rw [hbind]
  -- the new port differs from the others
  have hother : ∀ i n, Function.update s.servers k (some m) i = some n → i ≠ k →
      n.port ≠ port.toNat ∧ s.servers i = some n := by
    intro i n hn hik
    rw [Function.update_of_ne hik] at hn
    exact ⟨fun hport => hserved ⟨i, n, hn, hport⟩, hn⟩
  have hself : ∀ n, Function.update s.servers k (some m) k = some n → n.port = port.toNat := by
    intro n hn
    rw [Function.update_self] at hn
    cases hn
    exact hm
  intro i j n n' hn hn' hport
  by_cases hik : i = k
  · by_cases hjk : j = k
    · rw [hik, hjk]
    · subst hik
      exact absurd (hport.symm.trans (hself n hn)) (hother j n' hn' hjk).1
  · by_cases hjk : j = k
    · subst hjk
      exact absurd (hport.trans (hself n' hn')) (hother i n hn hik).1
    · exact h i j n n' (hother i n hn hik).2 (hother j n' hn' hjk).2 hport

theorem call_bind_servers (handle : ℤ) (port : UInt16) :
    (s.call (.bind handle port)).2 = s.servers ∨
      (s.call (.bind handle port)).2 = (udpServerBind s.servers port.toNat).2 := by
  simp only [PortState.call, socketBind]
  split
  · exact .inl rfl
  · split_ifs
    · exact .inl rfl
    · exact .inr rfl
    · exact .inr rfl

/-- A served port stays served. -/
theorem served_step (h : s.Served port) : (s.step op).Served port := by
  by_cases hop : ∀ handle port, op ≠ .bind handle port
  · exact (call_samePorts hop).served.mpr h
  · simp only [not_forall, not_not] at hop
    obtain ⟨handle, new, rfl⟩ := hop
    rcases call_bind_servers (s := s) handle new with hsame | hbind
    · rw [PortState.Served, PortState.step, hsame]
      exact h
    · rw [PortState.Served, PortState.step, hbind]
      rcases udpServerBind_cases (s := s) new with ⟨heq, -⟩ | ⟨heq, -⟩ | ⟨k, m, heq, -, hk, -⟩
      · rw [heq]
        exact h
      · rw [heq]
        exact h
      · rw [heq]
        exact (served_update hk).mpr (.inl h)

theorem PortsOk.step (h : PortsOk s) (op : PortOp) : PortsOk (s.step op) where
  oneQueue := by
    by_cases hop : ∀ handle port, op ≠ .bind handle port
    · exact h.oneQueue.samePorts (call_samePorts hop)
    · simp only [not_forall, not_not] at hop
      obtain ⟨handle, new, rfl⟩ := hop
      show OneQueue (s.call (.bind handle new)).2
      rcases call_bind_servers (s := s) handle new with hsame | hbind
      · rw [hsame]
        exact h.oneQueue
      · rw [hbind]
        exact udpServerBind_oneQueue h.oneQueue new
  boundAt_le := by
    intro i
    have := h.boundAt_le i
    simp only [PortState.step]
    split_ifs <;> omega
  unserved := by
    intro port hport
    have hbefore : ¬ s.Served port := fun hserved => hport (served_step hserved)
    refine List.eq_nil_iff_forall_not_mem.mpr fun time htime => ?_
    rcases step_queued htime with hold | ⟨-, hserved⟩
    · rw [h.unserved port hbefore] at hold
      cases hold
    · exact hbefore hserved

/-- With a queue for every port in use and one for each, fewer than four ports
    in use leave a free slot. -/
theorem PortsMatch.binds (hs : PortsMatch s) (hok : PortsOk s) {handle : ℤ} {port : UInt16}
    (hvalid : socketHandleValid s.sockets handle = true) (hzero : port ≠ 0)
    (hcard : s.heldPorts.card < udpMaxServers) :
    (socketBind s.sockets s.servers handle port.toNat).1 = 0 := by
  obtain ⟨i, hi⟩ := Option.isSome_iff_exists.mp hvalid
  have hne : port.toNat ≠ 0 := fun h => hzero (UInt16.toNat_inj.mp (by simpa using h))
  have hbind : (udpServerBind s.servers port.toNat).1 = 0 := by
    rcases udpServerBind_cases (s := s) port with ⟨hbind, -⟩ | ⟨-, -, hfull⟩ | ⟨k, m, hbind, -⟩
    · rw [hbind]
    · exfalso
      -- the four queues have four different ports, all of them in use
      have hsome : ∀ k, ∃ m, s.servers k = some m := fun k => Option.ne_none_iff_exists'.mp (hfull k)
      choose m hm using hsome
      have hinj : Function.Injective fun k => (m k).port := fun k l h =>
        hok.oneQueue k l (m k) (m l) (hm k) (hm l) h
      have hsub : Finset.univ.image (fun k => (m k).port) ⊆ s.heldPorts := by
        intro p hp
        obtain ⟨k, -, rfl⟩ := Finset.mem_image.mp hp
        obtain ⟨j, hj⟩ := (hs.ports _).mp ⟨k, m k, hm k, rfl⟩
        exact Finset.mem_biUnion.mpr ⟨j, Finset.mem_univ j, by rw [hj]; simp⟩
      have hle := Finset.card_le_card hsub
      rw [Finset.card_image_of_injective _ hinj, Finset.card_univ, Fintype.card_fin] at hle
      omega
    · rw [hbind]
  have hpos : ¬ (udpServerBind s.servers port.toNat).1 < 0 := by
    rw [hbind]
    decide
  simp [socketBind, hi, hne, hpos]

theorem portsReleased_iff (hok : PortsOk s) : PortsReleased s ↔ PortsMatch s :=
  ⟨fun h => ⟨h.ports, h.fresh⟩, fun h => ⟨h.ports, fun _ _ hv hz hc => h.binds hok hv hz hc, h.fresh⟩⟩

theorem PortsMatch.init : PortsMatch PortState.init where
  ports port := iff_of_false (by rintro ⟨i, m, hm, -⟩; cases hm) (by rintro ⟨i, hi⟩; cases hi)
  fresh i port hi := by cases hi

/-- One operation. -/
def PortStep (s : PortState) (op : PortOp) (s' : PortState) : Prop := s.step op = s'

/-- **When ports are released.** For every sequence of socket operations, with
    datagrams arriving and being received in between: every state on the way has
    its ports released with their sockets if and only if every operation on the
    way keeps the ports. -/
theorem ports_released_iff (ops : List PortOp) :
    (∀ done s, done <+: ops → Run PortStep PortState.init done s → PortsReleased s) ↔
      ∀ done op s, done ++ [op] <+: ops → Run PortStep PortState.init done s → KeepsPorts s op := by
  refine Iff.trans (always_iff (P := PortsReleased) ((portsReleased_iff .init).mpr .init)
    (fun done s op s' hrun hs hstep => ?_) ops)
    ⟨fun h done op s hpre hrun => h done op s _ hpre hrun rfl,
      fun h done op s _ hpre hrun _ => h done op s hpre hrun⟩
  have hok : PortsOk s := hrun.invariant .init fun u a v hu hv => by
    cases hv
    exact hu.step a
  cases hstep
  rw [portsReleased_iff (hok.step op)]
  exact ((portsReleased_iff hok).mp hs).step_iff hok op

/-! ## The record and the queues -/

/-- The record has one entry for every datagram in a queue. -/
structure Recorded (s : PortState) : Prop where
  servers : ServersOk s.servers
  length : ∀ port, (s.queuedAt port).length = (queued s.servers port).length

/-- The arrivals considered: a payload that fits a slot, and a source port that
    is one. -/
def PortOp.Fits : PortOp → Prop
  | .arrive d => d.payload.length ≤ udpMaxDgram ∧ d.srcPort < 2 ^ 16
  | _ => True

theorem hasRoom_eq (servers : Servers) (p : ℕ) :
    hasRoom servers p = (pendingOn servers p).any fun q => q.length < udpMaxQueue := by
  rw [hasRoom, pendingOn]
  cases udpFindServer servers p with
  | none => rfl
  | some i =>
    cases hm : servers i with
    | none => simp [hm]
    | some m => simp [hm, ServerMem.pending, length_ringContents]

theorem Recorded.congr (h : Recorded s) (hservers : s'.servers = s.servers)
    (hqueued : s'.queuedAt = s.queuedAt) : Recorded s' :=
  ⟨hservers ▸ h.servers, fun port => by rw [hservers, hqueued]; exact h.length port⟩

theorem Recorded.step (h : Recorded s) (hfits : op.Fits) : Recorded (s.step op) := by
  cases op with
  | arrive d =>
    obtain ⟨hok, hpending⟩ := deliver_spec h.servers hfits.1 hfits.2
    refine ⟨hok, fun port => ?_⟩
    have hlen := h.length port
    show (s.queues (.arrive d) port).length = (queued (deliver s.servers (.udp d)) port).length
    rw [queued] at hlen ⊢
    rw [hpending, PortState.queues, hasRoom_eq]
    by_cases hp : port = d.dstPort
    · subst hp
      cases hq : pendingOn s.servers d.dstPort with
      | none => simpa [hq] using hlen
      | some q =>
        rw [hq, Option.getD_some] at hlen
        by_cases hroom : q.length < udpMaxQueue <;> simp [hroom, hlen]
    · rw [if_neg hp, ← hlen]
      split_ifs
      · rw [Function.update_of_ne hp]
      · rfl
  | receive handle maxLen =>
    cases hr : socketReceive s.sockets s.servers handle maxLen with
    | none =>
      exact h.congr (by simp [PortState.step, PortState.call, hr])
        (by simp [PortState.step, PortState.queues, hr])
    | some r =>
      obtain ⟨i, -, hi⟩ := Option.bind_eq_some_iff.mp hr
      split_ifs at hi
      obtain ⟨taken, htaken, rfl⟩ := Option.map_eq_some_iff.mp hi
      obtain ⟨hnone, -⟩ | ⟨e, rest, servers, hbefore, hrecv, hok, hafter⟩ :=
        udpServerRecv_spec h.servers (s.sockets i).localPort maxLen
      · cases hnone.symm.trans htaken
      cases hrecv.symm.trans htaken
      have hservers : (s.step (.receive handle maxLen)).servers = servers := by
        simp [PortState.step, PortState.call, hr]
      refine ⟨hservers ▸ hok, fun port => ?_⟩
      have hlen := h.length port
      rw [queued] at hlen
      rw [hservers, queued, hafter port]
      simp only [PortState.step, PortState.queues, hr]
      split_ifs with hp
      · subst hp
        rw [Function.update_self, List.length_tail, hlen, hbefore]
        rfl
      · rw [Function.update_of_ne hp, hlen]
  | bind handle new =>
    obtain ⟨hok, hsame⟩ := queued_bind h.servers new
    rcases call_bind_servers (s := s) handle new with hcall | hcall
    · exact h.congr hcall rfl
    · have hservers : (s.step (.bind handle new)).servers = _ := hcall
      exact ⟨hservers ▸ hok, fun port => by rw [hservers, hsame]; exact h.length port⟩
  | _ => exact h.congr rfl rfl

/-- The record is right as long as the datagrams fit. -/
theorem recorded_of_fits {ops : List PortOp}
    (h : Run (restrict PortStep fun _ op => op.Fits) PortState.init ops s) : Recorded s := by
  apply h.invariant (P := Recorded) ⟨nofun, fun _ => rfl⟩
  rintro u op v hu ⟨hfits, rfl⟩
  exact hu.step hfits

/-! ## Four ports -/

/-- A socket is bound to the port, gets a datagram, and is closed. -/
def visit (port : UInt16) : List PortOp :=
  [.create 2 2 0, .bind (-4096) port, .arrive ⟨⟨10, 0, 2, 2⟩, 9, ⟨10, 0, 2, 15⟩, port.toNat, [0x61]⟩,
    .close (-4096)]

/-- **Ports outlive their sockets.** After four visits no socket is bound, but
    all four ports are still taken: a new socket cannot be bound to a fifth port,
    and a socket bound to the first one finds the datagram of the first visit. -/
theorem closed_sockets_keep_ports :
    ∃ s, Run PortStep PortState.init
        (visit 1000 ++ visit 1001 ++ visit 1002 ++ visit 1003 ++ [.create 2 2 0]) s ∧
      s.heldPorts = ∅ ∧ s.Served 1000 ∧ socketHandleValid s.sockets (-4096) = true ∧
      (socketBind s.sockets s.servers (-4096) 2000).1 = -1 ∧
      (s.step (.bind (-4096) 1000)).held 0 = some 1000 ∧
      (s.step (.bind (-4096) 1000)).boundAt 0 = 17 ∧
      (s.step (.bind (-4096) 1000)).queuedAt 1000 = [2] ∧ ¬ PortsReleased s := by
  refine ⟨_, run_foldl PortState.step _ _, by decide +kernel, served_iff.mpr (by decide +kernel),
    by decide +kernel, by decide +kernel, by decide +kernel, by decide +kernel, by decide +kernel,
    fun h => ?_⟩
  have hheld := (h.ports 1000).mp (served_iff.mpr (by decide +kernel))
  exact absurd hheld (by decide +kernel)

end Mboot.Net
