import AtmController.Lib.Clocked
import AtmController.Link.UnboundedQueue

/-! The transfers of a device in the memory of the host. What is written goes into the buffer of a
transfer that is not submitted yet, and a buffer is used again when its transfer is over. -/

namespace AtmController.Link

open Clocked Effect UnboundedQueue

/-- The transfer is that of the first `length` bytes of the buffer. -/
structure TransferWrapper where
  isRead : Bool := false
  length : Nat := 0
  buffer : List (BitVec 8) := List.replicate 0x10000 0

def TransferWrapper.write (n : Nat) (data : List (BitVec 8)) (t : TransferWrapper) :
    TransferWrapper :=
  { t with buffer := t.buffer.take n ++ data ++ t.buffer.drop (n + data.length) }

/-- `writeBuf` is the wrapper that is written into, and how far `writePtr` is from its start,
`outcomes` tells which calls of the system will succeed, and `sent` are the bytes of the transfers to
the device that are over. -/
structure HostMemory where
  wrappers : Nat → TransferWrapper := fun _ => {}
  allocated : Nat := 0
  queue : UnboundedQueue Nat := { itemArray := [], capacity := 0 }
  writeBuf : Option (Nat × Nat) := none
  outcomes : List Bool := []
  sent : List (List (BitVec 8)) := []

namespace HostMemory

abbrev USB := EStateM USBStatus HostMemory

def outcome (m : HostMemory) : Bool × HostMemory :=
  (m.outcomes.headD false, { m with outcomes := m.outcomes.tail })

def createTransfer (m : HostMemory) : Option Nat × HostMemory :=
  if m.outcome.1 = false then (none, m.outcome.2)
  else if m.outcome.2.outcome.1 = false then (none, m.outcome.2.outcome.2)
  else
    let m := m.outcome.2.outcome.2
    (some m.allocated, { m with
      wrappers := Function.update m.wrappers m.allocated {}, allocated := m.allocated + 1 })

def allocator : Allocator HostMemory Nat := ⟨outcome, createTransfer⟩

def modifyWrapper (a : Nat) (f : TransferWrapper → TransferWrapper) (m : HostMemory) : HostMemory :=
  { m with wrappers := Function.update m.wrappers a (f (m.wrappers a)) }

def usbOpenDevice : USB Unit := do
  let queue ← queueInit allocator 4
  modify fun m => { m with queue }

/-- The wrapper whose buffer is that of the next transfer. -/
def usbBulkWriteAsyncPrepare : USB Nat := do
  let m ← get
  let r ← m.queue.queuePut allocator
  modify fun m => { m with queue := r.1 }
  pure r.2

def submit (isRead : Bool) (length : Nat) : USB Unit := do
  let wrapper ← usbBulkWriteAsyncPrepare
  modify (modifyWrapper wrapper fun t => { t with isRead, length })
  match ← modifyGet outcome with
  | false => throw .asyncSubmit
  | true => modify fun m => { m with queue := m.queue.queueCommitPut }

def usbBulkWriteAsyncSubmit (length : Nat) : USB Unit := do
  if 0x10000 < length then throw .asyncSize
  submit false length

def usbBulkReadAsync (length : Nat) : USB Unit := do
  if 0x10000 < length then throw .asyncSize
  submit true length

structure CompletionReport where
  buffer : Nat
  isRead : Bool
  requestLength : Nat
  deriving DecidableEq

/-- The bytes of a write are read at the latest when it is awaited. -/
def usbBulkAwaitCompletion : USB CompletionReport := do
  let m ← get
  let wrapper ← m.queue.queueTake
  modify fun m => { m with
    queue := m.queue.queueCommitTake
    sent := m.sent ++ if (m.wrappers wrapper).isRead then [] else
      [(m.wrappers wrapper).buffer.take (m.wrappers wrapper).length] }
  match ← modifyGet outcome with
  | false => throw .asyncTransfer
  | true => pure ⟨wrapper, (m.wrappers wrapper).isRead, (m.wrappers wrapper).length⟩

def memcpy (data : List (BitVec 8)) : USB Unit :=
  modify fun m => match m.writeBuf with
    | none => m
    | some (a, n) => { m.modifyWrapper a (·.write n data) with writeBuf := some (a, n + data.length) }

def receive (i : Nat) (data : List (BitVec 8)) : USB Unit :=
  modify fun m => match m.queue.inQueue[i]? with
    | none => m
    | some a => m.modifyWrapper a (·.write 0 data)

end HostMemory

/-- What happens to the buffers: the library writes, submits and awaits, and `libusb` receives. -/
inductive WorkOp
  | prepare
  | append (data : List (BitVec 8))
  | submit
  | read (count : Nat)
  | await
  | receive (i : Nat) (data : List (BitVec 8))
  deriving DecidableEq

def WorkOp.isReceive : WorkOp → Bool
  | receive _ _ => true
  | _ => false

open HostMemory in
def WorkOp.run : WorkOp → USB Unit
  | prepare => do
    let wrapper ← usbBulkWriteAsyncPrepare
    modify fun m => { m with writeBuf := some (wrapper, 0) }
  | append data => memcpy data
  | submit => do
    let m ← get
    usbBulkWriteAsyncSubmit (m.writeBuf.elim 0 Prod.snd)
    modify fun m => { m with writeBuf := none }
  | read count => usbBulkReadAsync count
  | await => do
    let _ ← usbBulkAwaitCompletion
  | receive i data => HostMemory.receive i data

def HostMemory.serve (ops : List WorkOp) : USB Unit := do
  usbOpenDevice
  forM ops WorkOp.run

inductive Flight
  | write (data : List (BitVec 8))
  | read (count : Nat)
  deriving DecidableEq

def Flight.written : Flight → List (List (BitVec 8))
  | write data => [data]
  | read _ => []

/-- What the memory is there for: a buffer that is written into, and transfers that are over in the
order in which they were submitted. -/
structure Work where
  writeBuf : Option (List (BitVec 8)) := none
  flights : List Flight := []
  sent : List (List (BitVec 8)) := []
  deriving DecidableEq

namespace Work

def step (op : WorkOp) (w : Work) : Work :=
  match op with
  | .prepare => { w with writeBuf := some [] }
  | .append data => { w with writeBuf := w.writeBuf.map (· ++ data) }
  | .submit => { w with
      writeBuf := none, flights := w.flights ++ w.writeBuf.toList.map .write }
  | .read count => { w with flights := w.flights ++ [.read count] }
  | .await => { w with
      flights := w.flights.tail, sent := w.sent ++ (w.flights.take 1).flatMap Flight.written }
  | .receive _ _ => w

/-- The rules for those who use the buffers: nothing is read while there is a buffer that is written
into, since the read would take it. -/
def Legal (op : WorkOp) (w : Work) : Prop :=
  match op with
  | .prepare => w.writeBuf = none
  | .append data => ∃ bs ∈ w.writeBuf, bs.length + data.length ≤ 0x10000
  | .submit => w.writeBuf ≠ none
  | .read count => w.writeBuf = none ∧ count ≤ 0x10000
  | .await => w.flights ≠ []
  | .receive i data => ∃ count, w.flights[i]? = some (.read count) ∧ data.length ≤ count

end Work

end AtmController.Link
