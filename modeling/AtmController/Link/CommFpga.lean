import AtmController.Lib.Slice
import AtmController.Link.Command

namespace AtmController.Link

open Slice

/-- Reads and writes are those of the FPGA: host reads are fulfilled in `write`. -/
inductive StateType
  | reset
  | idle
  | getCount0
  | getCount1
  | beginWrite
  | write
  | endWriteAligned
  | endWriteNonaligned
  | read
  deriving DecidableEq

structure CommFpga where
  state : StateType := .reset
  count : BitVec 17 := 0
  chanAddr : BitVec 7 := 0
  isWrite : Bool := false
  isAligned : Bool := false

/-- The inputs at a clock edge; `fx2Data` is what the FX2LP would drive on the bus. -/
structure CommEdge where
  resetIn : Bool := false
  fx2Data : BitVec 8
  fx2GotData : Bool
  fx2GotRoom : Bool
  h2fReady : Bool
  f2hData : BitVec 8
  f2hValid : Bool

def fifoRead : BitVec 2 := 0b10

def fifoWrite : BitVec 2 := 0b01

def fifoNop : BitVec 2 := 0b11

def outFifo : Bool := false

def inFifo : Bool := true

/-- The signals of the next-state logic with their defaults; `none` is the high impedance. -/
structure CommSignals where
  fx2FifoSel : Option Bool
  fifoOp : Option (BitVec 2) := some fifoRead
  fx2PktEnd : Option Bool := some true
  dataOut : BitVec 8 := 0
  driveBus : Bool := false
  f2hReady : Bool := false
  h2fValid : Bool := false
  resetOut : Bool := false

namespace CommSignals

/-- Active low. -/
def fx2Read (o : CommSignals) : Option Bool := o.fifoOp.map fun op => op.getLsbD 0

def fx2Write (o : CommSignals) : Option Bool := o.fifoOp.map fun op => op.getLsbD 1

end CommSignals

@[simp] theorem fifoRead_bits : fifoRead.getLsbD 0 = false ∧ fifoRead.getLsbD 1 = true := ⟨rfl, rfl⟩

@[simp] theorem fifoWrite_bits : fifoWrite.getLsbD 0 = true ∧ fifoWrite.getLsbD 1 = false :=
  ⟨rfl, rfl⟩

@[simp] theorem fifoNop_bits : fifoNop.getLsbD 0 = true ∧ fifoNop.getLsbD 1 = true := ⟨rfl, rfl⟩

namespace CommFpga

/-- The count once its low byte is there. -/
def lengthCount (lo : BitVec 8) (count : BitVec 17) : BitVec 17 :=
  assign (assign count 0 lo) 16
    (if count.extractLsb' 8 8 = 0 ∧ lo = 0 then 1 else 0 : BitVec 1)

def logic (i : CommEdge) (s : CommFpga) : CommFpga × CommSignals :=
  match s.state with
  | .getCount0 =>
    (if i.fx2GotData then
        { s with count := assign s.count 8 i.fx2Data, state := .getCount1 }
      else s,
      { fx2FifoSel := some outFifo })
  | .getCount1 =>
    (if i.fx2GotData then
        { s with
          count := lengthCount i.fx2Data s.count
          state := if s.isWrite then .beginWrite else .read }
      else s,
      { fx2FifoSel := some outFifo })
  | .beginWrite =>
    ({ s with isAligned := decide (s.count.extractLsb' 0 9 = 0), state := .write },
      { fx2FifoSel := some inFifo, fifoOp := some fifoNop })
  | .write =>
    if i.fx2GotRoom ∧ i.f2hValid then
      ({ s with
          count := s.count - 1
          state := if s.count = 1 then
              if s.isAligned then .endWriteAligned else .endWriteNonaligned
            else .write },
        { fx2FifoSel := some inFifo, f2hReady := i.fx2GotRoom, fifoOp := some fifoWrite,
          dataOut := i.f2hData, driveBus := true })
    else
      (s, { fx2FifoSel := some inFifo, f2hReady := i.fx2GotRoom, fifoOp := some fifoNop })
  | .endWriteAligned =>
    ({ s with state := .idle }, { fx2FifoSel := some inFifo, fifoOp := some fifoNop })
  | .endWriteNonaligned =>
    ({ s with state := .idle },
      { fx2FifoSel := some inFifo, fifoOp := some fifoNop, fx2PktEnd := some false })
  | .read =>
    if i.fx2GotData ∧ i.h2fReady then
      ({ s with count := s.count - 1, state := if s.count = 1 then .idle else .read },
        { fx2FifoSel := some outFifo, h2fValid := true })
    else (s, { fx2FifoSel := some outFifo, fifoOp := some fifoNop })
  | .reset =>
    (if i.fx2GotData = false then { s with state := .idle } else s,
      { fx2FifoSel := none, fifoOp := none, fx2PktEnd := none, resetOut := true })
  | .idle =>
    (if i.fx2GotData then
        { s with
          chanAddr := i.fx2Data.extractLsb' 0 7
          isWrite := i.fx2Data.getLsbD 7
          state := .getCount0 }
      else s,
      { fx2FifoSel := some outFifo })

def signals (i : CommEdge) (s : CommFpga) : CommSignals := (s.logic i).2

def clock (i : CommEdge) (s : CommFpga) : CommFpga :=
  if i.resetIn then {} else (s.logic i).1

def bus (i : CommEdge) (s : CommFpga) : BitVec 8 :=
  if (s.signals i).driveBus then (s.signals i).dataOut else i.fx2Data

def Puts (i : CommEdge) (s : CommFpga) : Prop := (s.signals i).h2fValid ∧ i.h2fReady

def Gets (i : CommEdge) (s : CommFpga) : Prop := (s.signals i).f2hReady ∧ i.f2hValid

instance (i : CommEdge) (s : CommFpga) : Decidable (s.Puts i) := inferInstanceAs (Decidable (_ ∧ _))

instance (i : CommEdge) (s : CommFpga) : Decidable (s.Gets i) := inferInstanceAs (Decidable (_ ∧ _))

def transfer (i : CommEdge) (s : CommFpga) : List Transfer :=
  if s.Puts i then [.put s.chanAddr (s.bus i)] else if s.Gets i then [.get s.chanAddr] else []

variable {i : CommEdge} {s : CommFpga}

theorem logic_write (hs : s.state = .write) (hg : i.fx2GotRoom ∧ i.f2hValid) :
    s.logic i = ({ s with
        count := s.count - 1
        state := if s.count = 1 then
            if s.isAligned then .endWriteAligned else .endWriteNonaligned
          else .write },
      { fx2FifoSel := some inFifo, f2hReady := i.fx2GotRoom, fifoOp := some fifoWrite,
        dataOut := i.f2hData, driveBus := true }) := by
  rw [logic, hs]
  exact if_pos hg

theorem logic_write_stall (hs : s.state = .write) (hg : ¬ (i.fx2GotRoom ∧ i.f2hValid)) :
    s.logic i =
      (s, { fx2FifoSel := some inFifo, f2hReady := i.fx2GotRoom, fifoOp := some fifoNop }) := by
  rw [logic, hs]
  exact if_neg hg

theorem logic_read (hs : s.state = .read) (hg : i.fx2GotData ∧ i.h2fReady) :
    s.logic i = ({ s with count := s.count - 1, state := if s.count = 1 then .idle else .read },
      { fx2FifoSel := some outFifo, h2fValid := true }) := by
  rw [logic, hs]
  exact if_pos hg

theorem logic_read_stall (hs : s.state = .read) (hg : ¬ (i.fx2GotData ∧ i.h2fReady)) :
    s.logic i = (s, { fx2FifoSel := some outFifo, fifoOp := some fifoNop }) := by
  rw [logic, hs]
  exact if_neg hg

theorem f2hReady_of_ne_write (hs : s.state ≠ .write) : (s.signals i).f2hReady = false := by
  unfold signals logic
  cases h : s.state with
  | write => exact absurd h hs
  | read =>
    simp only
    split <;> rfl
  | _ => rfl

/-- The FPGA drives the bus only when it has the FX2LP off it and writes into EP6IN, and it never
reads and writes at once. -/
theorem bus_discipline (i : CommEdge) (s : CommFpga) :
    ((s.signals i).driveBus = true → (s.signals i).fx2Read = some true ∧
      (s.signals i).fx2Write = some false ∧ (s.signals i).fx2FifoSel = some inFifo) ∧
    ¬ ((s.signals i).fx2Read = some false ∧ (s.signals i).fx2Write = some false) ∧
    ((s.signals i).fx2FifoSel = some inFifo → (s.signals i).fx2Read = some true) := by
  unfold signals logic CommSignals.fx2Read CommSignals.fx2Write
  cases s.state with
  | write | read =>
    simp only
    split <;> simp [-BitVec.getLsbD_eq_getElem, outFifo, inFifo]
  | _ => simp [-BitVec.getLsbD_eq_getElem, outFifo, inFifo]

theorem toNat_lengthCount (lo : BitVec 8) (count : BitVec 17) :
    (lengthCount lo count).toNat = decodeLength (count.extractLsb' 8 8) lo := by
  have hcat (z : BitVec 1) :
      assign (assign count 0 lo) 16 z = z ++ count.extractLsb' 8 8 ++ lo := by
    apply BitVec.eq_of_getLsbD_eq
    intro k hk
    rw [getLsbD_assign _ _ _ _ hk, getLsbD_assign _ _ _ _ hk, BitVec.getLsbD_append,
      BitVec.getLsbD_append, BitVec.getLsbD_extractLsb']
    rcases (by omega : k < 8 ∨ 8 ≤ k ∧ k < 16 ∨ k = 16) with h | h | h
    · simp [h, show ¬ 16 ≤ k by omega]
    · simp [show ¬ 16 ≤ k by omega, show ¬ k < 8 by omega, show k - 8 < 8 by omega,
        show 8 + (k - 8) = k by omega]
    · simp [h]
  unfold lengthCount decodeLength
  rw [hcat]
  generalize count.extractLsb' 8 8 = hi
  by_cases hz : hi = 0 ∧ lo = 0
  · obtain ⟨rfl, rfl⟩ := hz
    simp [maxLength]
  · rw [if_neg hz, if_neg hz, BitVec.toNat_append, BitVec.toNat_append,
      show (0 : BitVec 1).toNat = 0 from rfl, Nat.zero_shiftLeft, Nat.zero_or,
      ← Nat.shiftLeft_add_eq_or_of_lt lo.isLt, Nat.shiftLeft_eq]

end CommFpga

end AtmController.Link
