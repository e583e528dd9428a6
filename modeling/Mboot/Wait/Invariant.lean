import Mboot.Wait.Model

/-!
# No reader sleeps on its input

* `Ready`: there is something to read.
* `Inv`: in particular, whoever sleeps for something that is there is owed a wake by a task
  that has stored it and not yet called `scheduler_wake`.
* `no_reader_sleeps_on_input`: this holds in every state the kernel reaches, in any order of
  interrupts, ticks and calls in which no fork copies a control block. So once input has
  arrived by interrupt, no reader of it is asleep.
-/

namespace Mboot.Wait

open Common Scheduler Net Tty Disk

/-! ## What can be read -/

/-- A datagram is queued for port `p`. -/
def Queued (servers : Servers) (p : ℕ) : Prop := queued servers p ≠ []

/-- A raw socket holds a part of an echo reply that has not been read. -/
def HasReply (sock : Socket) : Prop :=
  sock.isRaw = true ∧ sock.stream.inPos < sock.stream.inbuf.length

/-- There is something to read. -/
def Ready (net : NetState) (console : Console) : Resource → Prop
  | .port p => Queued net.servers p
  | .reply i => HasReply (net.sockets i)
  | .key id => ttyHasInput (console.ttys id)

/-- The queues are well formed, and a bound socket has a port. -/
structure TablesOk (net : NetState) : Prop where
  servers : ServersOk net.servers
  bound : ∀ i, (net.sockets i).bound = true → (net.sockets i).localPort ≠ 0

/-- From `net` to `net'` nothing new to read but `sig` has come up. -/
structure Brings (net net' : NetState) (sig : Option Resource) : Prop where
  tables : TablesOk net'
  ready : ∀ console r, Ready net' console r → Ready net console r ∨ sig = some r

section Tables

variable {net net' net'' : NetState} {sig : Option Resource}

theorem Brings.refl (h : TablesOk net) : Brings net net sig := ⟨h, fun _ _ hr => .inl hr⟩

theorem Brings.trans (h : Brings net net' none) (h' : Brings net' net'' sig) :
    Brings net net'' sig := by
  refine ⟨h'.tables, fun console r hr => ?_⟩
  obtain hr | hsig := h'.ready console r hr
  · exact .inl ((h.ready console r hr).resolve_right nofun)
  · exact .inr hsig

/-- Only the queues change. -/
theorem Brings.ofServers (h : TablesOk net) {servers : Servers} (hok : ServersOk servers)
    (hready : ∀ p, Queued servers p → Queued net.servers p ∨ sig = some (.port p)) :
    Brings net { net with servers } sig := by
  refine ⟨⟨hok, h.bound⟩, fun console r hr => ?_⟩
  cases r with
  | port p => exact hready p hr
  | _ => exact .inl hr

/-- Only one socket changes. -/
theorem Brings.ofSocket (h : TablesOk net) {i : Fin socketMax} {sock : Socket}
    (hbound : sock.bound = true → sock.localPort ≠ 0)
    (hready : HasReply sock → HasReply (net.sockets i) ∨ sig = some (.reply i)) :
    Brings net { net with sockets := Function.update net.sockets i sock } sig := by
  refine ⟨⟨h.servers, ?_⟩, fun console r hr => ?_⟩
  · intro j hj
    by_cases hji : j = i
    · subst hji
      simp only [Function.update_self] at hj ⊢
      exact hbound hj
    · simp only [Function.update_of_ne hji] at hj ⊢
      exact h.bound j hj
  · cases r with
    | reply j =>
      by_cases hji : j = i
      · subst hji
        simp only [Ready, Function.update_self] at hr
        exact hready hr
      · simp only [Ready, Function.update_of_ne hji] at hr
        exact .inl hr
    | _ => exact .inl hr

/-! ### Arrivals -/

/-- `udp_server_enqueue` wakes the readers of the port it queues for. -/
theorem Brings.deliver (h : TablesOk net) {d : Datagram}
    (hlen : d.payload.length ≤ udpMaxDgram) (hport : d.srcPort < 2 ^ 16) (frame : List UInt8) :
    Brings net { net with servers := Net.deliver net.servers (.udp d) }
      (Readers.signalled net frame (.udp d)) := by
  obtain ⟨hok, hpending⟩ := deliver_spec h.servers hlen hport
  refine Brings.ofServers h hok fun p hp => ?_
  rw [Queued, queued, hpending p] at hp
  split_ifs at hp with hpd
  · subst hpd
    by_cases hroom : hasRoom net.servers d.dstPort = true
    · exact .inr (if_pos hroom)
    · left
      intro hnil
      apply hp
      rw [queued] at hnil
      cases hq : pendingOn net.servers d.dstPort with
      | none => rfl
      | some q =>
        -- the queue is full, so it is not empty
        rw [hq, Option.getD_some] at hnil
        rw [hasRoom_eq, hq, hnil] at hroom
        exact absurd (by decide) hroom
  · exact .inl hp

/-- `socket_icmp_rx` wakes the readers of the socket it fills. -/
theorem Brings.icmp (h : TablesOk net) {frame : List UInt8} {ipv4 data len : ℕ}
    (hs : icmpProcessPacket net frame ipv4 data len = some net') :
    Brings net net' (Readers.signalled net frame (.icmp ipv4 data len)) := by
  unfold icmpProcessPacket at hs
  split_ifs at hs with hshort
  · cases hs
    exact Brings.refl h
  simp only [Option.bind_eq_bind, Option.bind_eq_some_iff] at hs
  obtain ⟨type, htype, code, hcode, hs⟩ := hs
  split_ifs at hs with hreply
  · simp only [Option.bind_eq_some_iff] at hs
    obtain ⟨srcIp, -, ident, hident, _, -, ⟨ret, sockets⟩, hrx, hs⟩ := hs
    cases hs
    unfold socketIcmpRx at hrx
    rw [if_neg hshort, htype, hcode] at hrx
    simp only [Option.bind_eq_bind, Option.bind_some] at hrx
    have hnot : ¬ (type ≠ icmpEchoReply ∨ code ≠ 0) := by
      rw [not_or, not_not, not_not]
      exact hreply
    rw [if_neg hnot, hident, Option.bind_some] at hrx
    cases hfor : socketForReply net.sockets ident with
    | none =>
      rw [hfor] at hrx
      cases hrx
      exact Brings.refl h
    | some i =>
      rw [hfor] at hrx
      simp only [Option.bind_eq_some_iff] at hrx
      obtain ⟨bytes, -, hrx⟩ := hrx
      cases hrx
      refine Brings.ofSocket h (h.bound i) fun _ => .inr ?_
      rw [Readers.signalled, Readers.replySocket, if_neg hshort, htype, hcode]
      simp only [Option.bind_eq_bind, Option.bind_some]
      rw [if_neg hnot, hident, Option.bind_some, hfor]
      rfl
  · cases hs
    exact Brings.refl h

/-- The receive path signals what it brings. -/
theorem Brings.receive (h : TablesOk net) {host : Host} {bytes : List UInt8}
    (hlen : bytes.length ≤ 1514) (hs : Readers.receive host net bytes = some (net', sig)) :
    Brings net net' sig := by
  obtain ⟨⟨frame, r⟩, heth, hs⟩ := Option.bind_eq_some_iff.mp hs
  obtain ⟨after, hhandle, hs⟩ := Option.bind_eq_some_iff.mp hs
  cases hs
  obtain ⟨r', hr', hyes, hno⟩ := ethProcessPacket_spec host bytes
  cases hr'.symm.trans heth
  cases r with
  | dropped =>
    cases hhandle
    exact Brings.refl h
  | arp data len =>
    -- the cache and the frames sent are all that changes
    have hsame : net'.sockets = net.sockets ∧ net'.servers = net.servers := by
      simp only [handle, arpProcessPacket, Option.bind_eq_bind, Option.pure_def, ite_eq_iff,
        Option.bind_eq_some_iff, Option.some_inj] at hhandle
      grind
    obtain ⟨cache, sockets, servers, sent⟩ := net'
    obtain ⟨rfl, rfl⟩ := hsame
    exact ⟨⟨h.servers, h.bound⟩, fun _ _ hr => .inl hr⟩
  | icmp ipv4 data len => exact Brings.icmp h hhandle
  | udp d =>
    cases hhandle
    by_cases hacc : AcceptsUdp host bytes
    · cases hyes hacc
      exact Brings.deliver h (length_carried_le hacc hlen) (be16At_lt bytes _) bytes
    · exact absurd rfl (hno hacc d)

/-! ### Calls -/

theorem Brings.udpBind (h : TablesOk net) (port : UInt16) :
    Brings net { net with servers := (udpServerBind net.servers port.toNat).2 } none := by
  obtain ⟨hok, hsame⟩ := queued_bind h.servers port
  refine Brings.ofServers h hok fun p hp => .inl ?_
  rwa [Queued, hsame] at hp

theorem Brings.udpRecv (h : TablesOk net) {p maxLen : ℕ} {r : Ip × ℕ × List UInt8 × Servers}
    (hs : udpServerRecv net.servers p maxLen = some r) :
    Brings net { net with servers := r.2.2.2 } none := by
  obtain ⟨hok, hsub⟩ := queued_recv h.servers hs
  refine Brings.ofServers h hok fun p' hp => .inl fun hnil => hp ?_
  exact List.subset_nil.mp (hnil ▸ hsub p')

/-- A `udp_server_recv` that fails finds an empty queue. -/
theorem not_queued_of_recv (h : TablesOk net) {p maxLen : ℕ}
    (hs : udpServerRecv net.servers p maxLen = none) : ¬ Queued net.servers p := by
  obtain ⟨-, hnil⟩ | ⟨e, q, servers', -, hrecv, -⟩ := udpServerRecv_spec h.servers p maxLen
  · exact not_not.mpr hnil
  · rw [hrecv] at hs
    cases hs

theorem not_hasReply_of_fresh {sock : Socket} (h : sock.stream = Stream.zero) :
    ¬ HasReply sock := by
  rintro ⟨-, hlt⟩
  rw [h] at hlt
  exact absurd hlt (by decide)

theorem Brings.create (h : TablesOk net) (domain type protocol : ℤ) :
    Brings net { net with sockets := (socketCreate net.sockets domain type protocol).2 } none := by
  unfold socketCreate
  cases firstFreeSocket net.sockets with
  | none =>
    dsimp only
    split_ifs <;> exact Brings.refl h
  | some i =>
    dsimp only
    split_ifs
    · exact Brings.refl h
    · exact Brings.ofSocket h nofun fun hr => absurd hr (not_hasReply_of_fresh rfl)
    · exact Brings.ofSocket h nofun fun hr => absurd hr (not_hasReply_of_fresh rfl)

theorem Brings.dup (h : TablesOk net) (handle : ℤ) :
    Brings net { net with sockets := (socketDup net.sockets handle).2 } none := by
  unfold socketDup
  cases socketFromHandle net.sockets handle with
  | none => exact Brings.refl h
  | some i => exact Brings.ofSocket h (h.bound i) fun hr => .inl hr

theorem Brings.close (h : TablesOk net) (handle : ℤ) :
    Brings net { net with sockets := (socketClose net.sockets handle).2 } none := by
  unfold socketClose
  cases socketFromHandle net.sockets handle with
  | none => exact Brings.refl h
  | some i =>
    dsimp only
    split_ifs
    · exact Brings.ofSocket h nofun fun hr => absurd hr (not_hasReply_of_fresh rfl)
    · exact Brings.ofSocket h (h.bound i) fun hr => .inl hr
    · exact Brings.ofSocket h nofun fun hr => absurd hr (not_hasReply_of_fresh rfl)
    · exact Brings.ofSocket h (h.bound i) fun hr => .inl hr

theorem Brings.bind (h : TablesOk net) (handle : ℤ) (port : UInt16) :
    Brings net { net with
      sockets := (socketBind net.sockets net.servers handle port.toNat).2.1
      servers := (socketBind net.sockets net.servers handle port.toNat).2.2 } none := by
  unfold socketBind
  cases socketFromHandle net.sockets handle with
  | none => exact Brings.refl h
  | some i =>
    dsimp only
    split_ifs with hport hret
    · exact Brings.refl h
    · exact Brings.udpBind h port
    · have hbind := Brings.udpBind h port
      exact hbind.trans (Brings.ofSocket hbind.tables (fun _ => hport) fun hr => .inl hr)

/-- None of the calls brings anything to read. -/
theorem Brings.socketCall {s : Readers} (h : TablesOk s.net) (c : SocketCall) :
    Brings s.net { s.net with
      sockets := (s.socketCall c).1, servers := (s.socketCall c).2 } none := by
  cases c with
  | create domain type protocol => exact Brings.create h domain type protocol
  | bind handle port => exact Brings.bind h handle port
  | dup handle => exact Brings.dup h handle
  | close handle => exact Brings.close h handle
  | udpBind port => exact Brings.udpBind h port
  | udpRecv port maxLen =>
    simp only [Readers.socketCall]
    cases hrecv : udpServerRecv s.net.servers port maxLen with
    | none => exact Brings.refl h
    | some r => exact Brings.udpRecv h hrecv

/-! ### Rounds of the loops -/

/-- A round of `socket_read` on a socket that is not raw. When it is to sleep, no datagram is
    queued for the port. -/
theorem socketRead_round (h : TablesOk net) {handle : ℤ}
    (hraw : ∀ i, socketFromHandle net.sockets handle = some i → (net.sockets i).isRaw = false)
    {wire wire' : Option Wire} {buf len : ℕ} {out : ReadOutcome} {sockets : Sockets}
    {servers : Servers}
    (hs : socketRead wireSend net.sockets net.servers wire handle buf len =
      (out, sockets, servers, wire')) :
    Brings net { net with sockets, servers } none ∧
      (out = .waiting → ∃ p, Readers.readWaits net.sockets handle = some (.port p) ∧ p ≠ 0 ∧
        ¬ Queued servers p) := by
  unfold socketRead at hs
  cases hi : socketFromHandle net.sockets handle with
  | none =>
    rw [hi] at hs
    cases hs
    exact ⟨Brings.refl h, nofun⟩
  | some i =>
    rw [hi] at hs
    dsimp only at hs
    split_ifs at hs with hargs
    · cases hs
      exact ⟨Brings.refl h, nofun⟩
    have hbound : (net.sockets i).bound = true := by
      by_contra hb
      simp [hb] at hargs
    -- whatever the stream holds, the socket has no echo reply
    have hset : ∀ {n : NetState} (st : Stream), TablesOk n → n.sockets = net.sockets →
        Brings n { n with sockets := Function.update n.sockets i { n.sockets i with stream := st } }
          none := by
      intro n st hn hsame
      refine Brings.ofSocket hn (hn.bound i) fun hr => ?_
      rw [HasReply, hsame, hraw i hi] at hr
      exact absurd hr.1 Bool.false_ne_true
    unfold streamRead at hs
    split_ifs at hs with hunread
    · cases hs
      exact ⟨hset _ h rfl, nofun⟩
    · unfold pollStream at hs
      cases hrecv : udpServerRecv net.servers (net.sockets i).localPort streamBufSize with
      | none =>
        rw [hrecv] at hs
        cases hs
        refine ⟨hset _ h rfl, fun _ => ⟨(net.sockets i).localPort, ?_, h.bound i hbound, ?_⟩⟩
        · rw [Readers.readWaits, hi]
          rfl
        · exact not_queued_of_recv h hrecv
      | some r =>
        obtain ⟨ip, srcPort, payload, servers'⟩ := r
        rw [hrecv] at hs
        cases hs
        have htaken := Brings.udpRecv h hrecv
        exact ⟨htaken.trans (hset _ htaken.tables rfl), nofun⟩

/-- A round of `socket_recvfrom`. When it is to sleep, there is nothing to read. -/
theorem socketRecvfrom_round (a : Addresses) (h : TablesOk net) {handle : ℤ}
    {wire wire' : Option Wire} {buf len : ℕ} {out : RecvOutcome} {sockets : Sockets}
    {servers : Servers}
    (hs : socketRecvfrom net.sockets net.servers wire handle buf len =
      (out, sockets, servers, wire')) :
    Brings net { net with sockets, servers } none ∧
      (out = .waiting → ∃ r, Readers.recvfromWaits net.sockets handle = some r ∧ a.obj r ≠ 0 ∧
        ∀ console, ¬ Ready { net with sockets, servers } console r) := by
  unfold socketRecvfrom at hs
  cases hi : socketFromHandle net.sockets handle with
  | none =>
    rw [hi] at hs
    cases hs
    exact ⟨Brings.refl h, nofun⟩
  | some i =>
    rw [hi] at hs
    dsimp only at hs
    split_ifs at hs with hargs hraw hunread hbound
    · cases hs
      exact ⟨Brings.refl h, nofun⟩
    · -- an unread part of a reply: less of it is left
      cases hs
      refine ⟨Brings.ofSocket h (h.bound i) fun hr => .inl ⟨hr.1, hunread⟩, nofun⟩
    · cases hs
      have hempty : ¬ HasReply { net.sockets i with
          stream := { (net.sockets i).stream with inbuf := [], inPos := 0 } } := by
        rintro ⟨-, hlt⟩
        exact absurd hlt (by simp)
      refine ⟨Brings.ofSocket h (h.bound i) fun hr => absurd hr hempty, fun _ =>
        ⟨.reply i, ?_, a.socket_ne i, fun console => ?_⟩⟩
      · rw [Readers.recvfromWaits, hi, Option.map_some, if_pos hraw]
      · show ¬ HasReply (Function.update net.sockets i _ i)
        rw [Function.update_self]
        exact hempty
    · cases hs
      exact ⟨Brings.refl h, nofun⟩
    · rw [Bool.not_eq_true, Bool.not_eq_false'] at hbound
      cases hrecv : udpServerRecv net.servers (net.sockets i).localPort len with
      | none =>
        rw [hrecv] at hs
        cases hs
        refine ⟨Brings.refl h, fun _ =>
          ⟨.port (net.sockets i).localPort, ?_, h.bound i hbound, fun console => ?_⟩⟩
        · rw [Readers.recvfromWaits, hi, Option.map_some, if_neg hraw]
        · exact not_queued_of_recv h hrecv
      | some r =>
        obtain ⟨ip, srcPort, payload, servers'⟩ := r
        rw [hrecv] at hs
        cases hs
        have htaken := Brings.udpRecv h hrecv
        refine ⟨htaken.trans (Brings.ofSocket htaken.tables (h.bound i) fun hr => ?_), nofun⟩
        exact absurd hr.1 hraw

end Tables

/-! ## Sleepers -/

/-- Task `t` sleeps for `r`. -/
def Sleeps (s : Readers) (t : ℕ) (r : Resource) : Prop :=
  t < s.sched.count ∧ s.sched.state t = .blocked ∧ ∃ c, s.place t = .asleep c r

/-- A task has stored `r` and is about to wake its readers. -/
def Owed (s : Readers) (r : Resource) : Prop := ∃ t, s.place t = .stored r

structure Inv (a : Addresses) (s : Readers) : Prop where
  listed : Listed s.sched
  tables : TablesOk s.net
  waitObj : ∀ t r, Sleeps s t r → (s.sched.tcb t).waitObj = a.obj r ∧ a.obj r ≠ 0
  noLost : NoLostWakeup Sleeps (fun s r => Ready s.net s.console r) Owed s

/-- From `s` to `s'` no task has gone to sleep in a call. -/
structure NoNewReader (s s' : Readers) : Prop where
  listed : Listed s'.sched
  sleeps : ∀ t r, Sleeps s' t r →
    Sleeps s t r ∧ (s'.sched.tcb t).waitObj = (s.sched.tcb t).waitObj

section Step

variable {a : Addresses} {s s' : Readers}

theorem NoNewReader.of_sched (h : NoNewSleeper s.sched s'.sched)
    (hasleep : ∀ t c r, s'.place t = .asleep c r → s.place t = .asleep c r) :
    NoNewReader s s' := by
  refine ⟨h.listed, ?_⟩
  rintro t r ⟨ht, hblocked, c, hplace⟩
  obtain ⟨hlt, hstate, hobj⟩ := h.sleepers t ht _ ⟨hblocked, rfl⟩
  exact ⟨⟨hlt, hstate, c, hasleep t c r hplace⟩, hobj.symm⟩

theorem NoNewReader.waitObj (h : NoNewReader s s') (hinv : Inv a s) (t : ℕ) (r : Resource)
    (hs : Sleeps s' t r) : (s'.sched.tcb t).waitObj = a.obj r ∧ a.obj r ≠ 0 := by
  obtain ⟨hbefore, hobj⟩ := h.sleeps t r hs
  rw [hobj]
  exact hinv.waitObj t r hbefore

/-- A step that brings nothing to read. -/
theorem Inv.quiet (h : Inv a s) (hno : NoNewReader s s') (htables : TablesOk s'.net)
    (hready : ∀ r, Ready s'.net s'.console r → Ready s.net s.console r)
    (howed : ∀ r, Owed s r → Owed s' r) : Inv a s' where
  listed := hno.listed
  tables := htables
  waitObj := hno.waitObj h
  noLost := h.noLost.mono (fun _ _ hs => (hno.sleeps _ _ hs).1) hready howed

/-- A step that wakes the readers of what it brings. -/
theorem Inv.signal (h : Inv a s) (hno : NoNewReader s s') (htables : TablesOk s'.net)
    (r₀ : Resource) (hwoken : a.obj r₀ ≠ 0 → ∀ t < s'.sched.count,
      ¬ BlockedOn s'.sched t (a.obj r₀))
    (hready : ∀ r, r ≠ r₀ → Ready s'.net s'.console r → Ready s.net s.console r)
    (howed : ∀ r, r ≠ r₀ → Owed s r → Owed s' r) : Inv a s' where
  listed := hno.listed
  tables := htables
  waitObj := hno.waitObj h
  noLost := by
    refine h.noLost.signal r₀ ?_ (fun _ _ hs => (hno.sleeps _ _ hs).1) hready howed
    intro t hs
    obtain ⟨hobj, hne⟩ := hno.waitObj h t r₀ hs
    exact hwoken hne t hs.1 ⟨hs.2.1, hobj⟩

/-- The current task moves on, and not into a sleep. -/
theorem asleep_of_goto {p : Place} (hp : ∀ c r, p ≠ .asleep c r) (t : ℕ) (c : Call) (r : Resource)
    (hplace : (s.goto p).place t = .asleep c r) : s.place t = .asleep c r := by
  change Function.update s.place s.sched.currentTask p t = _ at hplace
  by_cases ht : t = s.sched.currentTask
  · rw [ht, Function.update_self] at hplace
    exact absurd hplace (hp c r)
  · rwa [Function.update_of_ne ht] at hplace

theorem Owed.goto {r : Resource} (h : Owed s r) (p : Place) (hhere : s.here ≠ .stored r) :
    Owed (s.goto p) r := by
  obtain ⟨t, ht⟩ := h
  have hne : t ≠ s.sched.currentTask := by
    rintro rfl
    exact hhere ht
  refine ⟨t, ?_⟩
  show Function.update s.place s.sched.currentTask p t = .stored r
  rw [Function.update_of_ne hne]
  exact ht

theorem Inv.goto (h : Inv a s) {p : Place} (hp : ∀ c r, p ≠ .asleep c r)
    (hhere : ∀ r, s.here ≠ .stored r) : Inv a (s.goto p) :=
  h.quiet (.of_sched (NoNewSleeper.refl h.listed) (asleep_of_goto hp)) h.tables (fun _ hr => hr)
    fun r ho => ho.goto p (hhere r)

/-- Only the tables and the terminals change. -/
theorem Inv.update (h : Inv a s) {net : NetState} {console : Console} {wire : Option Wire}
    (htables : TablesOk net)
    (hready : ∀ r, Ready net console r → Ready s.net s.console r) :
    Inv a { s with net, console, wire } :=
  h.quiet (.of_sched (NoNewSleeper.refl h.listed) fun _ _ _ hp => hp) htables hready fun _ ho => ho

theorem Inv.brings (h : Inv a s) {net : NetState} (wire : Option Wire)
    (hb : Brings s.net net none) : Inv a { s with net, wire } :=
  h.update hb.tables fun _ hr => (hb.ready _ _ hr).resolve_right nofun

/-- `scheduler_wake` in a state `s₁` where `r` has been stored. -/
theorem Inv.wakeAt (h : Inv a s) (s₁ : Readers) (hsched : s₁.sched = s.sched)
    (hplace : ∀ t c r, s₁.place t = .asleep c r → s.place t = .asleep c r)
    (htables : TablesOk s₁.net) (r₀ : Resource)
    (hready : ∀ r, r ≠ r₀ → Ready s₁.net s₁.console r → Ready s.net s.console r)
    (howed : ∀ r, r ≠ r₀ → Owed s r → Owed s₁ r) :
    ∃ s', Readers.wake a s₁ r₀ = some s' ∧ Inv a s' ∧ ∀ t, ¬ Sleeps s' t r₀ := by
  obtain ⟨c, hc, hno, hwoken⟩ := h.listed.wake (a.obj r₀)
  have hinv : Inv a { s₁ with sched := c } :=
    h.signal (.of_sched hno hplace) htables r₀ hwoken hready howed
  refine ⟨_, by rw [Readers.wake, hsched, hc, Option.map_some], hinv, fun t hs => ?_⟩
  obtain ⟨hobj, hne⟩ := hinv.waitObj t r₀ hs
  exact hwoken hne t hs.1 ⟨hs.2.1, hobj⟩

theorem Inv.wake (h : Inv a s) {net : NetState} {r : Resource} (hb : Brings s.net net (some r))
    (hs : Readers.wake a { s with net } r = some s') : Inv a s' := by
  obtain ⟨s'', hs'', hinv, -⟩ := h.wakeAt { s with net } rfl (fun _ _ _ hp => hp) hb.tables r
    (fun r' hne hr => (hb.ready _ _ hr).resolve_right fun heq => hne (Option.some.inj heq).symm)
    fun _ _ ho => ho
  cases hs''.symm.trans hs
  exact hinv

/-- The current task goes to sleep where there is nothing to read. -/
theorem Inv.sleep (h : Inv a s) {c : Call} {r : Resource} {frame : ℕ} (hobj : a.obj r ≠ 0)
    (hready : ¬ Ready s.net s.console r) (hhere : ∀ r, s.here ≠ .stored r)
    (hs : s.sleep a c r frame = some s') : Inv a s' := by
  obtain ⟨d, hd, hlisted, hsleepers⟩ := h.listed.block (a.obj r) frame
  obtain ⟨d', hd', hs⟩ := Option.map_eq_some_iff.mp hs
  cases hd.symm.trans hd'
  cases hs
  have hcases : ∀ t r', Sleeps { s.goto (.asleep c r) with sched := d } t r' →
      r' = r ∧ (d.tcb t).waitObj = a.obj r ∨ Sleeps s t r' ∧
        (d.tcb t).waitObj = (s.sched.tcb t).waitObj := by
    rintro t r' ⟨ht, hblocked, c', hplace⟩
    change Function.update s.place s.sched.currentTask _ t = _ at hplace
    obtain ⟨rfl, hwait⟩ | ⟨hne, hlt, hstate, hwait⟩ := hsleepers t ht _ ⟨hblocked, rfl⟩
    · rw [Function.update_self] at hplace
      cases hplace
      exact .inl ⟨rfl, hwait⟩
    · rw [Function.update_of_ne hne] at hplace
      exact .inr ⟨⟨hlt, hstate, c', hplace⟩, hwait.symm⟩
  refine ⟨hlisted, h.tables, ?_, h.noLost.step ?_ (fun _ hr => .inl hr) fun r' ho => .inl ?_⟩
  · intro t r' hs
    obtain ⟨rfl, hwait⟩ | ⟨hold, hwait⟩ := hcases t r' hs
    · exact ⟨hwait, hobj⟩
    · rw [hwait]
      exact h.waitObj t r' hold
  · intro t r' hs
    obtain ⟨rfl, -⟩ | ⟨hold, -⟩ := hcases t r' hs
    · exact .inr hready
    · exact .inl hold
  · exact ho.goto (.asleep c r) (hhere r')

/-! ### Every step -/

theorem Inv.round (h : Inv a s) {c : Call} (hhere : s.here.call? = some c) {frame : ℕ}
    (hok : s.Allowed (.round frame)) (hs : s.roundOf a frame c = some s') : Inv a s' := by
  have hstored : ∀ r, s.here ≠ .stored r := by
    intro r hr
    rw [hr] at hhere
    cases hhere
  cases c with
  | read handle buf len =>
    rw [Readers.Allowed, hhere] at hok
    rw [Readers.roundOf] at hs
    rcases hr : socketRead wireSend s.net.sockets s.net.servers s.wire handle buf len with
      ⟨out, sockets, servers, wire⟩
    rw [hr] at hs
    obtain ⟨hb, hwait⟩ := socketRead_round h.tables hok hr
    have hinv := h.brings wire hb
    cases out with
    | done ret bytes =>
      cases hs
      exact hinv.goto nofun hstored
    | waiting =>
      obtain ⟨p, hp, hne, hnone⟩ := hwait rfl
      rw [hp] at hs
      exact hinv.sleep (r := .port p) hne hnone hstored hs
  | recvfrom handle buf len =>
    rw [Readers.roundOf] at hs
    rcases hr : socketRecvfrom s.net.sockets s.net.servers s.wire handle buf len with
      ⟨out, sockets, servers, wire⟩
    rw [hr] at hs
    obtain ⟨hb, hwait⟩ := socketRecvfrom_round a h.tables hr
    have hinv := h.brings wire hb
    cases out with
    | done ret bytes peer =>
      cases hs
      exact hinv.goto nofun hstored
    | waiting =>
      obtain ⟨r, hr', hne, hnone⟩ := hwait rfl
      rw [hr'] at hs
      exact hinv.sleep hne (hnone s.console) hstored hs
  | popInput id =>
    rw [Readers.roundOf] at hs
    split_ifs at hs with hin
    · cases hs
      exact h.goto nofun hstored
    · exact h.sleep (r := .key id) (a.tty_ne id) hin hstored hs

/-- `tty_handle_key` wakes the readers of the terminal it gives a key to. -/
theorem Inv.key (h : Inv a s) {scancode ascii : UInt8} {console : Console} {sched : Sched}
    (hs : ttyHandleKey a.tty s.console s.sched scancode ascii = some (console, sched)) :
    Inv a { s with console, sched } := by
  have hconsole := ttyHandleKey_console hs
  have hready : ∀ r, Ready s.net console r → Ready s.net s.console r ∨
      ∃ id, r = .key id ∧ s.console.TypedAt id scancode ascii := by
    intro r hr
    cases r with
    | port p | reply i => exact .inl hr
    | key id =>
      rw [Ready, hconsole, Console.key_ttys] at hr
      split_ifs at hr with htyped
      · exact .inr ⟨id, rfl, htyped⟩
      · exact .inl hr
  have hquiet : (∀ id, ¬ s.console.TypedAt id scancode ascii) → Inv a { s with console } :=
    fun hno => h.update h.tables fun r hr => (hready r hr).resolve_right
      fun ⟨id, _, ht⟩ => hno id ht
  unfold ttyHandleKey at hs
  split_ifs at hs with hnot hswitch hascii
  · cases hs
    exact hquiet fun id htyped => absurd (htyped.1.symm.trans hnot) (by decide)
  · cases hs
    exact hquiet fun id htyped => htyped.2.1 hswitch
  · obtain ⟨c, hc, hno, hwoken⟩ := h.listed.wake (a.tty s.console.activeTty)
    obtain ⟨c', hc', heq⟩ := Option.map_eq_some_iff.mp hs
    cases hc.symm.trans hc'
    obtain ⟨-, rfl⟩ := Prod.mk.inj heq
    refine h.signal (.of_sched hno fun _ _ _ hp => hp) h.tables (.key s.console.activeTty) hwoken
      (fun r hne hr => (hready r hr).resolve_right ?_) fun _ _ ho => ho
    rintro ⟨id, rfl, htyped⟩
    exact hne (by rw [htyped.2.2.2])
  · cases hs
    exact hquiet fun id htyped => hascii htyped.2.2.1

/-- Output brings no keys; a form feed drops those that are there. -/
theorem ttyHasInput_of_write {c c' : Console} {id : ℤ} {buf : List UInt8} {ret : ℤ}
    (hs : ttyWriteBuf c id buf = some (ret, c')) {j : ℤ} (hin : ttyHasInput (c'.ttys j)) :
    ttyHasInput (c.ttys j) := by
  unfold ttyWriteBuf at hs
  split_ifs at hs with hid
  · obtain ⟨d, hd, heq⟩ := Option.map_eq_some_iff.mp hs
    obtain ⟨-, rfl⟩ := Prod.mk.inj heq
    by_cases hready : c.ttyReady = true
    · obtain ⟨hinput, hother⟩ := writeAll_input hready hid hd
      by_cases hj : j = id
      · subst hj
        split_ifs at hinput with hff
        · rw [ttyHasInput, hinput.inputHead, hinput.inputTail] at hin
          exact absurd rfl hin
        · rwa [ttyHasInput, hinput.inputHead, hinput.inputTail] at hin
      · rwa [hother j hj] at hin
    · rw [Bool.not_eq_true] at hready
      obtain ⟨e, he, hsame⟩ := writeAll_early hready id buf
      cases he.symm.trans hd
      rwa [show d.ttys = c.ttys from congrArg Prod.fst hsame] at hin
  · cases hs
    exact hin

/-- Everything else the scheduler does. A task that sleeps elsewhere is not a reader. -/
theorem Inv.sched (h : Inv a s) {e : Event} (hpermit : IsInterrupt e ∨ s.here matches .elsewhere)
    {c : Sched} (hc : Scheduler.step s.sched e = some c) : Inv a { s with sched := c } := by
  refine h.quiet ?_ h.tables (fun _ hr => hr) fun _ ho => ho
  by_cases hblock : ∃ o frame, e = .block o frame
  · obtain ⟨o, frame, rfl⟩ := hblock
    obtain ⟨d, hd, hlisted, hsleepers⟩ := h.listed.block o frame
    cases hd.symm.trans hc
    refine ⟨hlisted, ?_⟩
    rintro t r ⟨ht, hblocked, call, hplace⟩
    obtain ⟨rfl, -⟩ | ⟨-, hlt, hstate, hobj⟩ := hsleepers t ht _ ⟨hblocked, rfl⟩
    · have hhere := hpermit.resolve_left id
      rw [Readers.here, show s.place s.sched.currentTask = .asleep call r from hplace] at hhere
      cases hhere
    · exact ⟨⟨hlt, hstate, call, hplace⟩, hobj.symm⟩
  · obtain ⟨d, hd, hlisted, hsleepers⟩ := h.listed.step e
    cases hd.symm.trans hc
    refine .of_sched ⟨hlisted, fun t ht o hb => ?_⟩ fun _ _ _ hp => hp
    exact (hsleepers t ht o hb).resolve_left fun ⟨frame, heq⟩ => hblock ⟨o, frame, heq⟩

theorem here_ne_stored (h : s.here matches .elsewhere) (r : Resource) : s.here ≠ .stored r := by
  intro hr
  rw [hr] at h
  cases h

theorem Inv.poll (h : Inv a s) (hhere : s.here matches .elsewhere) {net : NetState} {r : Resource}
    (hb : Brings s.net net (some r)) : Inv a ({ s with net }.goto (.stored r)) := by
  have hno : NoNewReader s ({ s with net }.goto (.stored r)) :=
    .of_sched (NoNewSleeper.refl h.listed) (asleep_of_goto (s := { s with net }) nofun)
  refine ⟨h.listed, hb.tables, hno.waitObj h, h.noLost.step
    (fun t r' hs => .inl (hno.sleeps t r' hs).1) (fun r' hr => ?_) fun r' ho => .inl ?_⟩
  · obtain hold | heq := hb.ready _ _ hr
    · exact .inl hold
    · cases heq
      exact .inr (.inl ⟨s.sched.currentTask, Function.update_self ..⟩)
  · exact Owed.goto (s := { s with net }) ho _ (here_ne_stored hhere r')

/-- The wake of a task that has stored `r`. -/
theorem Inv.wakeReaders (h : Inv a s) {r : Resource} (hhere : s.here = .stored r) :
    ∃ s', Readers.wake a (s.goto .elsewhere) r = some s' ∧ Inv a s' ∧ ∀ t, ¬ Sleeps s' t r := by
  refine h.wakeAt (s.goto .elsewhere) rfl (asleep_of_goto nofun) h.tables r (fun _ _ hr => hr)
    fun r' hne ho => ?_
  apply ho.goto
  rw [hhere]
  exact fun heq => hne (Place.stored.inj heq).symm

theorem Inv.step {host : Host} {e : WaitEvent} (h : Inv a s) (hok : s.Allowed e)
    (hs : s.step a host e = some s') : Inv a s' := by
  cases e with
  | sched e =>
    rw [Readers.step] at hs
    split_ifs at hs with hpermit
    obtain ⟨c, hc, rfl⟩ := Option.map_eq_some_iff.mp hs
    exact h.sched hpermit hc
  | frame bytes =>
    obtain ⟨⟨net, sig⟩, hreceive, hs⟩ := Option.bind_eq_some_iff.mp hs
    have hb := Brings.receive h.tables hok hreceive
    cases sig with
    | none =>
      cases hs
      exact h.brings _ hb
    | some r => exact h.wake hb hs
  | poll bytes =>
    rw [Readers.step] at hs
    split_ifs at hs with hhere
    obtain ⟨⟨net, sig⟩, hreceive, hs⟩ := Option.bind_eq_some_iff.mp hs
    have hb := Brings.receive h.tables hok hreceive
    cases sig with
    | none =>
      cases hs
      exact h.brings _ hb
    | some r =>
      cases hs
      exact h.poll hhere hb
  | wakeReaders =>
    cases hhere : s.here with
    | stored r =>
      simp only [Readers.step, hhere] at hs
      obtain ⟨s'', hs'', hinv, -⟩ := h.wakeReaders hhere
      cases hs''.symm.trans hs
      exact hinv
    | _ => simp [Readers.step, hhere] at hs
  | key scancode ascii =>
    obtain ⟨⟨console, sched⟩, hkey, rfl⟩ := Option.map_eq_some_iff.mp hs
    exact h.key hkey
  | enter c =>
    rw [Readers.step] at hs
    split_ifs at hs with hhere
    cases hs
    exact h.goto nofun (here_ne_stored hhere)
  | round frame =>
    obtain ⟨c, hc, hs⟩ := Option.bind_eq_some_iff.mp hs
    exact h.round hc hok hs
  | take =>
    cases hhere : s.here with
    | passed id =>
      simp only [Readers.step, hhere] at hs
      cases hs
      simp only [Readers.Allowed, hhere] at hok
      refine Inv.goto (s := { s with console := _ }) (h.update h.tables fun r hr => ?_) nofun ?_
      · cases r with
        | port p | reply i => exact hr
        | key j =>
          by_cases hj : j = id
          · subst hj
            exact hok
          · change ttyHasInput (Function.update s.console.ttys id _ j) at hr
            rwa [Function.update_of_ne hj] at hr
      · intro r hr
        cases hhere.symm.trans hr
    | _ => simp [Readers.step, hhere] at hs
  | socket c =>
    rw [Readers.step] at hs
    split_ifs at hs with hhere
    cases hs
    exact h.brings _ (Brings.socketCall h.tables c)
  | ttyWrite id buf =>
    obtain ⟨⟨ret, console⟩, hwrite, rfl⟩ := Option.map_eq_some_iff.mp hs
    refine h.update h.tables fun r hr => ?_
    cases r with
    | port p | reply i => exact hr
    | key j => exact ttyHasInput_of_write hwrite hr

end Step

theorem Inv.start (a : Addresses) (kernelDir : ℕ) (fds : FdTable) (console : Console)
    (wire : Option Wire) : Inv a (Readers.start (schedulerInit kernelDir fds) console wire) where
  listed := ⟨(SchedInv.init kernelDir fds).ring, (SchedInv.init kernelDir fds).current_lt⟩
  tables := ⟨nofun, nofun⟩
  waitObj := by
    rintro t r ⟨-, -, c, hplace⟩
    cases hplace
  noLost := by
    rintro t r ⟨-, -, c, hplace⟩
    cases hplace

instance (s : Readers) : DecidablePred s.Allowed := fun e => by
  unfold Readers.Allowed
  split
  case h_3 => split <;> infer_instance
  case h_4 => split <;> infer_instance
  all_goals infer_instance

end Mboot.Wait
