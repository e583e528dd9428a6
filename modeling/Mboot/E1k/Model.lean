import Mboot.Common.Memory

/-!
# The descriptor rings of the e1000 driver

Model of `e1k_rx_init`, `e1k_drain_rx`, `e1k_tx_init` and `e1k_send` of
`stage2/dev/e1k.c`, each running against the network controller.

* The driver's code is cut where the controller can see the difference: each
  step does what lies between two accesses to memory or registers that both
  sides use. Steps of the controller come between any two steps of the driver.
* The controller receives into descriptor `RDH` and transmits descriptor `TDH`
  only while head and tail differ.
* `kmalloc` gives the rings and the packet buffers memory of their own. The
  rings are functions from index to descriptor; the buffers are memory, since
  the controller finds them through the addresses in the descriptors.
* One invocation of `e1k_drain_rx`, and one of `e1k_send`, runs at a time.
* Registers without influence on head, tail and descriptors, the interrupt
  causes and the log messages are left out.
-/

namespace Mboot.E1k

open Common

/-! ## Reception -/

/-- `NUM_RX_DESC` (inc/dev/e1k.h). -/
abbrev numRxDesc : ℕ := 32

/-- `RX_BUF_SIZE`. -/
abbrev rxBufSize : ℕ := 2048

/-- `E1K_RXD_STAT_DD`: the controller is done with the descriptor. -/
abbrev rxdStatDd : UInt8 := 1

/-- `E1K_RXD_STAT_EOP`: the descriptor ends a packet. -/
abbrev rxdStatEop : UInt8 := 2

/-- `E1K_RXD_ERR_FRAME_ERR_MASK`. -/
abbrev rxdErrFrameErrMask : UInt8 := 0x0F

/-- `e1k_rx_desc_t`. -/
structure RxDesc where
  addr : ℕ
  length : UInt16
  checksum : UInt16
  status : UInt8
  errors : UInt8
  special : UInt16
  deriving DecidableEq

/-- A received packet: the descriptor after the controller's write-back and the
    contents of its buffer. -/
abbrev Packet := RxDesc × List UInt8

/-- Where `e1k_drain_rx` is. -/
inductive RxPlace
  /-- before the test of line 257, or not running -/
  | head
  /-- the test has found `DD` set (line 261) -/
  | process
  /-- the packet has been handled (line 276) -/
  | recycle
  /-- `rx_tail` has been advanced, `RDT` not yet written (line 287) -/
  | publish (completed : ℕ)
  deriving DecidableEq

/-- The receive ring, the registers and the driver. `advancing` says that the
    controller has written a descriptor back and not yet advanced `RDH`.
    `completed` and `examined` record the packets in the order in which the
    controller completes them and the driver reads them, the latter with the
    ring index; `delivered` records the calls of `e1k_process_packet`. -/
structure Rx where
  ring : ℕ → RxDesc
  mem : ℕ → UInt8
  bufs : ℕ
  rdh : ℕ
  rdt : ℕ
  rxTail : ℕ
  place : RxPlace
  advancing : Bool
  completed : List Packet
  examined : List (ℕ × Packet)
  delivered : List (List UInt8)

/-- The address of `rx_bufs[i]`. -/
def Rx.bufAddr (s : Rx) (i : ℕ) : ℕ := s.bufs + rxBufSize * i

/-- The contents of `rx_bufs[i]`. -/
def Rx.buf (s : Rx) (i : ℕ) : List UInt8 := slice s.mem (s.bufAddr i) rxBufSize

/-- `DD` is set in descriptor `i`. -/
def Rx.Done (s : Rx) (i : ℕ) : Prop := (s.ring i).status &&& rxdStatDd ≠ 0

instance (s : Rx) (i : ℕ) : Decidable (s.Done i) := inferInstanceAs (Decidable (_ ≠ _))

/-- `e1k_rx_init` (lines 148–232) with the buffers at `bufs`. -/
def e1kRxInit (bufs : ℕ) (mem : ℕ → UInt8) : Rx where
  ring := fun i =>
    { addr := bufs + rxBufSize * i, length := 0, checksum := 0, status := 0, errors := 0,
      special := 0 }
  mem := fill mem bufs 0 (numRxDesc * rxBufSize)
  bufs := bufs
  rdh := 0
  rdt := numRxDesc - 1
  rxTail := 0
  place := .head
  advancing := false
  completed := []
  examined := []
  delivered := []

/-- What the controller writes when it completes a descriptor. -/
structure WriteBack where
  data : List UInt8
  length : UInt16
  checksum : UInt16
  status : UInt8
  errors : UInt8
  special : UInt16

/-- The controller receives into the buffer of descriptor `RDH` and writes the
    descriptor back, with `DD`. -/
def Rx.receive (s : Rx) (w : WriteBack) : Option Rx :=
  if s.advancing = false ∧ s.rdh ≠ s.rdt ∧ w.data.length ≤ rxBufSize ∧
      w.status &&& rxdStatDd ≠ 0 then
    let desc : RxDesc :=
      { addr := (s.ring s.rdh).addr, length := w.length, checksum := w.checksum,
        status := w.status, errors := w.errors, special := w.special }
    let mem := store s.mem (s.ring s.rdh).addr w.data
    some { s with
      ring := Function.update s.ring s.rdh desc
      mem := mem
      advancing := true
      completed := s.completed ++ [(desc, slice mem (s.ring s.rdh).addr rxBufSize)] }
  else none

/-- The controller advances `RDH`. -/
def Rx.advanceHead (s : Rx) : Option Rx :=
  if s.advancing then some { s with rdh := (s.rdh + 1) % numRxDesc, advancing := false } else none

/-- The packet `e1k_drain_rx` hands to `e1k_process_packet` (lines 261–273): none
    if the descriptor does not end a packet, has errors or is empty. -/
def packetOf (desc : RxDesc) (buf : List UInt8) : Option (List UInt8) :=
  if desc.status &&& rxdStatEop ≠ 0 ∧ desc.errors &&& rxdErrFrameErrMask = 0 ∧ desc.length > 0 then
    some (buf.take (if desc.length.toNat > rxBufSize then rxBufSize else desc.length.toNat))
  else none

/-- One step of `e1k_drain_rx` (lines 246–293). -/
def Rx.drain (s : Rx) : Rx :=
  match s.place with
  | .head => if s.Done s.rxTail then { s with place := .process } else s
  | .process =>
    let desc := s.ring s.rxTail
    let buf := s.buf s.rxTail
    { s with
      place := .recycle
      examined := s.examined ++ [(s.rxTail, desc, buf)]
      delivered := s.delivered ++ (packetOf desc buf).toList }
  | .recycle =>
    let desc := s.ring s.rxTail
    { s with
      ring := Function.update s.ring s.rxTail
        { desc with status := 0, errors := 0, length := 0, addr := s.bufAddr s.rxTail }
      rxTail := (s.rxTail + 1) % numRxDesc
      place := .publish s.rxTail }
  | .publish completed => { s with rdt := completed, place := .head }

inductive RxAction
  | receive (w : WriteBack)
  | advanceHead
  | drain

def Rx.step (s : Rx) : RxAction → Option Rx
  | .receive w => s.receive w
  | .advanceHead => s.advanceHead
  | .drain => some s.drain

/-! ## Transmission -/

/-- `NUM_TX_DESC` (inc/dev/e1k.h). -/
abbrev numTxDesc : ℕ := 8

/-- `TX_BUF_SIZE`. -/
abbrev txBufSize : ℕ := 2048

/-- `STATUS_DD`: the descriptor has been transmitted, or was never used. -/
abbrev statusDd : UInt8 := 1

/-- `CMD_EOP | CMD_IFCS | CMD_RS`. -/
abbrev txCmd : UInt8 := 0x0B

/-- `e1k_tx_desc_t`. -/
structure TxDesc where
  addr : ℕ
  length : UInt16
  cso : UInt8
  cmd : UInt8
  status : UInt8
  css : UInt8
  special : UInt16
  deriving DecidableEq

/-- Where `e1k_send` is. -/
inductive TxPlace
  | idle
  /-- the loop of lines 349–355, after `wait` rounds -/
  | waitFree (frame : List UInt8) (cur wait : ℕ)
  /-- the slot is free (line 359) -/
  | fill (frame : List UInt8) (cur : ℕ)
  /-- the descriptor is written, `TDT` not yet (line 367) -/
  | submit (frame : List UInt8) (cur : ℕ)
  /-- the loop of lines 373–378, after `wait` rounds -/
  | waitDone (cur wait : ℕ)
  deriving DecidableEq

/-- The transmit ring, the registers and the driver. `submitted` and
    `transmitted` record the frames in the order in which the driver writes
    `TDT` and the controller sends them; `result` is the last value
    `e1k_send` has returned. -/
structure Tx where
  ring : ℕ → TxDesc
  mem : ℕ → UInt8
  bufs : ℕ
  tdh : ℕ
  tdt : ℕ
  txTail : ℕ
  place : TxPlace
  result : Option ℤ
  submitted : List (List UInt8)
  transmitted : List (List UInt8)

/-- The address of `tx_bufs[i]`. -/
def Tx.bufAddr (s : Tx) (i : ℕ) : ℕ := s.bufs + txBufSize * i

/-- `DD` is set in descriptor `i`. -/
def Tx.Done (s : Tx) (i : ℕ) : Prop := (s.ring i).status &&& statusDd ≠ 0

instance (s : Tx) (i : ℕ) : Decidable (s.Done i) := inferInstanceAs (Decidable (_ ≠ _))

/-- `e1k_tx_init` (lines 104–146) with the buffers at `bufs`. -/
def e1kTxInit (bufs : ℕ) (mem : ℕ → UInt8) : Tx where
  ring := fun i =>
    { addr := bufs + txBufSize * i, length := 0, cso := 0, cmd := 0, status := statusDd, css := 0,
      special := 0 }
  mem := fill mem bufs 0 (numTxDesc * txBufSize)
  bufs := bufs
  tdh := 0
  tdt := 0
  txTail := 0
  place := .idle
  result := none
  submitted := []
  transmitted := []

/-- The controller transmits descriptor `TDH`, sets `DD` and advances `TDH`. -/
def Tx.transmit (s : Tx) : Option Tx :=
  if s.tdh ≠ s.tdt then
    let desc := s.ring s.tdh
    some { s with
      transmitted := s.transmitted ++ [slice s.mem desc.addr desc.length.toNat]
      ring := Function.update s.ring s.tdh { desc with status := desc.status ||| statusDd }
      tdh := (s.tdh + 1) % numTxDesc }
  else none

/-- `e1k_send(frame, len)` up to its first loop (lines 334–348). -/
def Tx.send (s : Tx) (frame : List UInt8) : Option Tx :=
  match s.place with
  | .idle =>
    if frame.length > txBufSize then some { s with result := some (-1) }
    else some { s with place := .waitFree frame (s.tdt &&& (numTxDesc - 1)) 0 }
  | _ => none

/-- One step of `e1k_send` (lines 349–384) after its entry. -/
def Tx.proceed (s : Tx) : Option Tx :=
  match s.place with
  | .idle => none
  | .waitFree frame cur wait =>
    if s.Done cur then some { s with place := .fill frame cur }
    else if wait + 1 > 2000000 then some { s with place := .idle, result := some (-2) }
    else some { s with place := .waitFree frame cur (wait + 1) }
  | .fill frame cur =>
    some { s with
      mem := store s.mem (s.bufAddr cur) frame
      ring := Function.update s.ring cur
        { s.ring cur with length := UInt16.ofNat frame.length, cmd := txCmd, status := 0 }
      place := .submit frame cur }
  | .submit frame cur =>
    some { s with
      tdt := (cur + 1) % numTxDesc
      submitted := s.submitted ++ [frame]
      place := .waitDone cur 0 }
  | .waitDone cur wait =>
    if s.Done cur then
      some { s with txTail := (cur + 1) % numTxDesc, place := .idle, result := some 0 }
    else if wait + 1 > 10000000 then some { s with place := .idle, result := some (-3) }
    else some { s with place := .waitDone cur (wait + 1) }

inductive TxAction
  | transmit
  | send (frame : List UInt8)
  | proceed

def Tx.step (s : Tx) : TxAction → Option Tx
  | .transmit => s.transmit
  | .send frame => s.send frame
  | .proceed => s.proceed

end Mboot.E1k
