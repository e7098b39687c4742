import AtmController.Link.Replies
import AtmController.Link.WorkQueue

/-! The channel functions of `libfpgalink`: commands are gathered in a write buffer that is submitted
in chunks, and the replies to reads are awaited in order. -/

namespace AtmController.Link

open Effect

inductive FLStatus
  | allocErr
  | usbErr
  | protocolErr
  | earlyTerm
  | badState
  deriving DecidableEq

/-- The `buffer` of a read: memory of the caller's, which nothing else writes to until the bytes are
collected, or a null pointer, so that they stay in the buffer of the transfer. -/
inductive ReadBuffer
  | own
  | borrowed
  deriving DecidableEq

structure Read where
  count : Nat
  buffer : ReadBuffer
  deriving DecidableEq

inductive Request
  | write (length : Nat)
  | read (r : Read)
  deriving DecidableEq

def Request.asRead : Request → Option Read
  | write _ => none
  | read r => some r

/-- The bytes that came. Those in the buffer of a transfer are still to be looked at, and may be
overwritten by then. -/
inductive ReplyBuffer
  | own (data : List (BitVec 8))
  | borrowed (actualLength : Nat)
  deriving DecidableEq

structure CompletionReport where
  isRead : Bool := false
  requestLength : Nat := 0
  buffer : ReplyBuffer := .own []
  deriving DecidableEq

namespace CompletionReport

def actualLength (r : CompletionReport) : Nat :=
  match r.buffer with
  | .own data => data.length
  | .borrowed n => n

def data (r : CompletionReport) : List (BitVec 8) :=
  match r.buffer with
  | .own data => data
  | .borrowed _ => []

def read (r : CompletionReport) : Read :=
  ⟨r.requestLength, match r.buffer with
    | .own _ => .own
    | .borrowed _ => .borrowed⟩

def Whole (r : CompletionReport) : Prop := r.actualLength = r.requestLength

instance (r : CompletionReport) : Decidable r.Whole := by
  unfold Whole
  infer_instance

end CompletionReport

def Read.report (r : Read) (data : List (BitVec 8)) : CompletionReport :=
  ⟨true, r.count, match r.buffer with
    | .own => .own data
    | .borrowed => .borrowed data.length⟩

def Request.report : Request → CompletionReport
  | write n => { requestLength := n }
  | read r => r.report []

/-- The context of a device: `writeBuf` are the bytes up to `writePtr`, `queue` the outstanding
requests, `submitted` the transfers to `commOutEP`, `packets` what comes from `commInEP`, `ops` all
that was asked of `libusbwrap`, and `refusals` tells which operations to come the system refuses. -/
structure FLContext where
  isCommCapable : Bool := true
  completionReport : CompletionReport := {}
  writeBuf : Option (List (BitVec 8)) := none
  chunkSize : Nat := 0x10000
  queue : List Request := []
  submitted : List (List (BitVec 8)) := []
  packets : List (List (BitVec 8)) := []
  ops : List WorkOp := []
  refusals : List Bool := []
  deriving DecidableEq

abbrev FL := EStateM FLStatus FLContext

def FLContext.buffered (c : FLContext) : List (BitVec 8) := c.writeBuf.getD []

/-- Memory, a submission or a transfer may fail, and then the caller returns `status`. -/
def attempt (status : FLStatus) : FL Unit := do
  let refused ← modifyGet fun c => (c.refusals.headD false, { c with refusals := c.refusals.tail })
  if refused then throw status

def usbBulkWriteAsyncPrepare (status : FLStatus) : FL Unit := do
  attempt status
  modify fun c => { c with writeBuf := some [], ops := c.ops ++ [.prepare] }

def memcpy (data : List (BitVec 8)) : FL Unit :=
  modify fun c => { c with
    writeBuf := some (c.buffered ++ data), ops := c.ops ++ [.append data] }

/-- The pointers into the write buffer are zero afterwards. -/
def usbBulkWriteAsyncSubmit : FL Unit := do
  let c ← get
  if 0x10000 < c.buffered.length then throw .usbErr
  attempt .usbErr
  modify fun c => { c with
    writeBuf := none, queue := c.queue ++ [.write c.buffered.length]
    submitted := c.submitted ++ [c.buffered], ops := c.ops ++ [.submit] }

def usbBulkReadAsync (count : Nat) (buffer : ReadBuffer) : FL Unit := do
  if 0x10000 < count then throw .usbErr
  attempt .usbErr
  modify fun c => { c with
    queue := c.queue ++ [.read ⟨count, buffer⟩], ops := c.ops ++ [.read count] }

/-- The oldest request is over, also when it failed. It is an error to wait when there is none, or for
packets that the device never sends, where the report says nothing of the bytes that did come. -/
def usbBulkAwaitCompletion : FL Unit := do
  let c ← get
  match c.queue with
  | [] => throw .usbErr
  | request :: queue =>
    modify fun c => { c with
      queue, completionReport := request.report, ops := c.ops ++ [.await] }
    attempt .usbErr
    match request with
    | .write _ => pure ()
    | .read r =>
      match bulkRead r.count c.packets with
      | some (data, packets) =>
        modify fun c => { c with packets, completionReport := r.report data }
      | none => throw .usbErr

/-- The loops that wait while more than `limit` requests are outstanding and no reply is at hand. -/
def awaitWhile (limit : Nat) : Nat → FL Unit
  | 0 => pure ()
  | n + 1 => do
    let c ← get
    if limit < c.queue.length ∧ c.completionReport.isRead = false then
      usbBulkAwaitCompletion
      awaitWhile limit n

def reduceQueue (limit : Nat) : FL Unit := do
  let c ← get
  awaitWhile limit c.queue.length

def FLContext.spaceAvailable (c : FLContext) : Nat := c.chunkSize - c.buffered.length

def submitWith (data : List (BitVec 8)) : FL Unit := do
  reduceQueue 2
  memcpy data
  usbBulkWriteAsyncSubmit

/-- The loop of `bufferAppend` while the data does not fit; it returns the rest. -/
def fillChunks : Nat → List (BitVec 8) → FL (List (BitVec 8))
  | 0, data => pure data
  | n + 1, data => do
    let c ← get
    if c.spaceAvailable < data.length then
      submitWith (data.take c.spaceAvailable)
      usbBulkWriteAsyncPrepare .usbErr
      fillChunks n (data.drop c.spaceAvailable)
    else pure data

def ensureBuffer : FL Unit := do
  let c ← get
  if c.writeBuf = none then usbBulkWriteAsyncPrepare .allocErr

def bufferAppend (data : List (BitVec 8)) : FL Unit := do
  ensureBuffer
  let data ← fillChunks data.length data
  let c ← get
  if data.length = c.spaceAvailable then submitWith data else memcpy data

def flSetAsyncWriteChunkSize (chunkSize : BitVec 16) : FL Unit := do
  let c ← get
  if c.writeBuf.isSome then throw .badState
  modify fun c => { c with chunkSize := if chunkSize ≠ 0 then chunkSize.toNat else 0x10000 }

def flFlushAsyncWrites : FL Unit := do
  let c ← get
  if c.buffered ≠ [] then
    if c.isCommCapable = false then throw .protocolErr
    usbBulkWriteAsyncSubmit

def flAwaitAsyncWrites : FL Unit := do
  flFlushAsyncWrites
  reduceQueue 0
  let c ← get
  if c.queue ≠ [] then throw .badState

def flWriteWord (value : BitVec 16) : List (BitVec 8) :=
  [((value >>> 8) &&& 0xFF).setWidth 8, (value &&& 0xFF).setWidth 8]

/-- Blocks of `0x10000` bytes, and the rest. -/
def writeBlocks (chan : BitVec 8) (data : List (BitVec 8)) : FL Unit := do
  if 0x10000 ≤ data.length then
    bufferAppend [chan &&& 0x7F, 0, 0]
    bufferAppend (data.take 0x10000)
    writeBlocks chan (data.drop 0x10000)
  else if data ≠ [] then
    bufferAppend ((chan &&& 0x7F) :: flWriteWord (.ofNat 16 data.length))
    bufferAppend data
termination_by data.length
decreasing_by
  rw [List.length_drop]
  omega

def flWriteChannelAsync (chan : BitVec 8) (data : List (BitVec 8)) : FL Unit := do
  let c ← get
  if data = [] then throw .protocolErr
  if c.isCommCapable = false then throw .protocolErr
  writeBlocks chan data

def flWriteChannel (chan : BitVec 8) (data : List (BitVec 8)) : FL Unit := do
  flWriteChannelAsync chan data
  flAwaitAsyncWrites

def flReadChannelAsyncSubmit (chan : BitVec 8) (count : Nat) (buffer : ReadBuffer) : FL Unit := do
  let count16 : BitVec 16 := if count = 0x10000 then 0 else .ofNat 16 count
  let c ← get
  if c.isCommCapable = false then throw .protocolErr
  if count = 0 then throw .protocolErr
  if 0x10000 < count then throw .protocolErr
  bufferAppend ((chan ||| 0x80) :: flWriteWord count16)
  flFlushAsyncWrites
  reduceQueue 2
  usbBulkReadAsync count buffer

def awaitRead : Nat → FL Unit
  | 0 => pure ()
  | n + 1 => do
    let c ← get
    if c.completionReport.isRead = false then
      usbBulkAwaitCompletion
      awaitRead n

def flReadChannelAsyncAwait : FL CompletionReport := do
  let c ← get
  awaitRead (c.queue.length + 1)
  let c ← get
  modify fun c => { c with completionReport := {} }
  pure c.completionReport

def awaitWhole : FL (List (BitVec 8)) := do
  let report ← flReadChannelAsyncAwait
  if ¬ report.Whole then throw .earlyTerm
  pure report.data

/-- The loop of `flReadChannel`, one block of `0x10000` bytes ahead of the replies. -/
def readBlocks (chan : BitVec 8) (count : Nat) : FL (List (BitVec 8)) := do
  if 0x10000 ≤ count then
    flReadChannelAsyncSubmit chan 0x10000 .own
    let block ← awaitWhole
    let rest ← readBlocks chan (count - 0x10000)
    pure (block ++ rest)
  else if count ≠ 0 then
    flReadChannelAsyncSubmit chan count .own
    awaitWhole
  else pure []
termination_by count

def flReadChannel (chan : BitVec 8) (count : Nat) : FL (List (BitVec 8)) := do
  let c ← get
  if count = 0 then throw .protocolErr
  if c.isCommCapable = false then throw .protocolErr
  if 0x10000 ≤ count then
    flReadChannelAsyncSubmit chan 0x10000 .own
    let blocks ← readBlocks chan (count - 0x10000)
    let last ← awaitWhole
    pure (blocks ++ last)
  else
    flReadChannelAsyncSubmit chan count .own
    awaitWhole

end AtmController.Link
