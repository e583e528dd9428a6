import Mboot.Common.Memory
import Mboot.Scheduler.Invariant

/-!
# ATA reads under the disk lock

Model of `stage2/dev/disk.c`: `disk_lock`, `disk_unlock` and `ata_lba_read`,
run by any number of tasks of the scheduler.

* A timer tick can fall anywhere except into the sections between `CLI` and
  `STI`. The places where a task can be interrupted in `ata_lba_read` are the
  constructors of `Place`; what lies between two of them is one step.
* `scheduler_block` restores the flags with interrupts enabled, so a task woken
  in `disk_lock` stands before the `CLI` of line 16 until it runs again.
* What the device answers (the status register, the words of a sector) is the
  label of the step that reads it. `rep insw` writes only the caller's buffer
  and is one step.
* The address of `disk_mutex`, `mutexAddr`, is left open. The kernel is linked
  at `0x10000` (link.ld), above every port number and PID, so nobody else
  sleeps on this address.
* The log messages of the failure paths are left out.
-/

namespace Mboot.Disk

open Common Scheduler

/-- The arguments of `ata_lba_read`. -/
structure Request where
  lba : UInt32
  sectorCount : UInt8
  buffer : ℕ
  drive : UInt8
  deriving DecidableEq

/-- The three ways out of `ata_lba_read`. -/
inductive Outcome
  /-- line 83 -/
  | success
  /-- lines 69–71: `ERR` is set -/
  | deviceError
  /-- lines 73–76 -/
  | timedOut
  deriving DecidableEq

/-- A byte written to an I/O port. -/
abbrev PortWrite := ℕ × UInt8

/-- Where a task is in `ata_lba_read`. -/
inductive Place
  | outside
  /-- in the loop of `disk_lock`, between lines 15 and 16 -/
  | locking (r : Request)
  /-- in `ata_wait_busy_clear`, called on line 50 -/
  | waitBusy (r : Request)
  /-- between lines 50 and 58, with the port writes still to do -/
  | program (r : Request) (rest : List PortWrite)
  /-- before line 67 for sector `i` -/
  | poll (r : Request) (i : UInt8) (timeout : UInt32)
  /-- before line 81 for sector `i` -/
  | transfer (r : Request) (i : UInt8)
  /-- before the `disk_unlock` of lines 70, 75 or 83 -/
  | unlocking (r : Request) (o : Outcome)
  deriving DecidableEq

/-- The six port writes of lines 53–58: drive and LBA bits 24–27, sector count,
    LBA bits 0–23, and the command READ SECTORS. -/
def command (r : Request) : List PortWrite :=
  let driveSelect : UInt8 := if r.drive &&& 1 ≠ 0 then 0xF0 else 0xE0
  [(0x1F6, driveSelect ||| ((r.lba >>> 24) &&& 0x0F).toUInt8),
   (0x1F2, r.sectorCount),
   (0x1F3, r.lba.toUInt8),
   (0x1F4, (r.lba >>> 8).toUInt8),
   (0x1F5, (r.lba >>> 16).toUInt8),
   (0x1F7, 0x20)]

/-- The head of the `for` loop of line 60. -/
def sectorLoop (r : Request) (i : UInt8) : Place :=
  if i < r.sectorCount then .poll r i 10000000 else .unlocking r .success

/-- What follows a port write. -/
def afterOutb (r : Request) : List PortWrite → Place
  | [] => sectorLoop r 0
  | w :: rest => .program r (w :: rest)

/-- One round of the `do … while` loop of lines 66–78 that reads `status`. -/
def pollStatus (r : Request) (i : UInt8) (timeout : UInt32) (status : UInt8) : Place :=
  if status &&& 0x01 ≠ 0 then .unlocking r .deviceError
  else if timeout - 1 = 0 then .unlocking r .timedOut
  else if status &&& 0x88 ≠ 0x08 then .poll r i (timeout - 1)
  else .transfer r i

/-- The tasks, `disk_mutex` and memory. `outs` records the port writes. -/
structure DiskSystem where
  sched : Sched
  diskMutex : ℕ
  place : ℕ → Place
  outs : List PortWrite
  mem : ℕ → UInt8

namespace DiskSystem

/-- The system after `scheduler_init`. -/
def boot (kernelDir : ℕ) (fds : FdTable) (mem : ℕ → UInt8) : DiskSystem where
  sched := schedulerInit kernelDir fds
  diskMutex := 0
  place := fun _ => .outside
  outs := []
  mem := mem

/-- Task `t` goes on at `p`. -/
def setPlace (s : DiskSystem) (t : ℕ) (p : Place) : DiskSystem :=
  { s with place := Function.update s.place t p }

/-- The place of the current task. -/
abbrev here (s : DiskSystem) : Place := s.place s.sched.currentTask

/-- The test of `disk_lock` with what follows it (lines 13–19): sleep on the
    lock, or take it. -/
def diskLock (mutexAddr : ℕ) (s : DiskSystem) (r : Request) (frame : ℕ) : Option DiskSystem :=
  if s.diskMutex ≠ 0 then
    (schedulerBlock s.sched mutexAddr frame).map fun c =>
      { s with sched := c }.setPlace s.sched.currentTask (.locking r)
  else some ({ s with diskMutex := 1 }.setPlace s.sched.currentTask (.waitBusy r))

/-- `disk_unlock` (lines 22–27) and the return of `ata_lba_read`. -/
def diskUnlock (mutexAddr : ℕ) (s : DiskSystem) : Option DiskSystem :=
  (schedulerWake s.sched mutexAddr).map fun c =>
    { s with sched := c, diskMutex := 0 }.setPlace s.sched.currentTask .outside

/-- What the code between lock and unlock reads from the device. -/
inductive Input
  | status (b : UInt8)
  | sector (words : List UInt16)
  /-- a port write reads nothing -/
  | nothing

/-- One step of the current task between `disk_lock` and `disk_unlock`
    (lines 48–82). -/
def transferStep (s : DiskSystem) (input : Input) : Option DiskSystem :=
  let go := s.setPlace s.sched.currentTask
  match s.here, input with
  | .waitBusy r, .status b =>
    some (go (if b &&& 0x80 ≠ 0 then .waitBusy r else .program r (command r)))
  | .program r (w :: rest), .nothing => some { go (afterOutb r rest) with outs := s.outs ++ [w] }
  | .poll r i timeout, .status b => some (go (pollStatus r i timeout b))
  | .transfer r i, .sector words =>
    if words.length = 256 then
      some { go (sectorLoop r (i + 1)) with
        mem := store s.mem (r.buffer + 512 * i.toNat) (words.flatMap fun w => leBytes 2 w.toNat) }
    else none
  | _, _ => none

inductive Action
  /-- a timer tick, a wake from an interrupt, or another call of the current task -/
  | sched (e : Event)
  /-- the current task calls `ata_lba_read` -/
  | call (r : Request) (frame : ℕ)
  /-- the current task, woken in `disk_lock`, tests again -/
  | retry (frame : ℕ)
  | transfer (input : Input)
  | unlock

/-- The scheduler events outside `disk.c`. Ticks and wakes, on any object, come
    at any time; the other calls are made by a task outside `ata_lba_read`. -/
def Permitted (mutexAddr : ℕ) (s : DiskSystem) : Event → Prop
  | .tick _ | .wake _ => True
  | .block waitObj _ => s.here = .outside ∧ waitObj ≠ mutexAddr
  | _ => s.here = .outside

instance (mutexAddr : ℕ) (s : DiskSystem) : DecidablePred (Permitted mutexAddr s) := fun e => by
  unfold Permitted
  split <;> infer_instance

/-- One step of the system; `none` when the current task is somewhere else. -/
def step (mutexAddr : ℕ) (s : DiskSystem) : Action → Option DiskSystem
  | .sched e =>
    if s.Permitted mutexAddr e then
      (Scheduler.step s.sched e).map fun c => { s with sched := c }
    else none
  | .call r frame => if s.here = .outside then s.diskLock mutexAddr r frame else none
  | .retry frame =>
    match s.here with
    | .locking r => s.diskLock mutexAddr r frame
    | _ => none
  | .transfer input => s.transferStep input
  | .unlock =>
    match s.here with
    | .unlocking _ _ => s.diskUnlock mutexAddr
    | _ => none

end DiskSystem

end Mboot.Disk
