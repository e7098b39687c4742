import AtmController.Lib.Clocked
import AtmController.Lib.Chunks
import AtmController.Link.CommFpga

/-! The channel interface on the FIFOs of the FX2LP: EP2OUT with the bytes of the host, and EP6IN,
whose bytes are committed in packets of 512, or earlier with `fx2PktEnd`. -/

namespace AtmController.Link

open Clocked Slice

/-- The bytes for the FPGA, the bytes from it that are in no packet yet, and the packets. -/
structure Fx2 where
  ep2out : List (BitVec 8) := []
  ep6in : List (BitVec 8) := []
  packets : List (List (BitVec 8)) := []

def packetSize : Nat := 512

namespace Fx2

def commit (f : Fx2) : Fx2 := { f with ep6in := [], packets := f.packets ++ [f.ep6in] }

/-- A full packet is committed at once. -/
def push (b : BitVec 8) (f : Fx2) : Fx2 :=
  let f := { f with ep6in := f.ep6in ++ [b] }
  if f.ep6in.length = packetSize then f.commit else f

def clock (gotData : Bool) (bus : BitVec 8) (o : CommSignals) (f : Fx2) : Fx2 :=
  let f := if o.fx2FifoSel = some outFifo ∧ o.fx2Read = some false ∧ gotData then
    { f with ep2out := f.ep2out.tail } else f
  let f := if o.fx2FifoSel = some inFifo ∧ o.fx2Write = some false then f.push bus else f
  if o.fx2FifoSel = some inFifo ∧ o.fx2PktEnd = some false then f.commit else f

variable {gotData : Bool} {bus : BitVec 8} {o : CommSignals} {f : Fx2}

theorem clock_read (hsel : o.fx2FifoSel = some outFifo) (hop : o.fifoOp = some fifoRead) :
    f.clock gotData bus o = if gotData then { f with ep2out := f.ep2out.tail } else f := by
  simp [clock, CommSignals.fx2Read, hsel, hop, outFifo, inFifo, -BitVec.getLsbD_eq_getElem]

theorem clock_nop (hop : o.fifoOp = some fifoNop) (hend : o.fx2PktEnd = some true) :
    f.clock gotData bus o = f := by
  simp [clock, CommSignals.fx2Read, CommSignals.fx2Write, hop, hend, -BitVec.getLsbD_eq_getElem]

theorem clock_write (hsel : o.fx2FifoSel = some inFifo) (hop : o.fifoOp = some fifoWrite)
    (hend : o.fx2PktEnd = some true) : f.clock gotData bus o = f.push bus := by
  simp [clock, CommSignals.fx2Read, CommSignals.fx2Write, hsel, hop, hend,
    -BitVec.getLsbD_eq_getElem]

theorem clock_pktEnd (hsel : o.fx2FifoSel = some inFifo) (hop : o.fifoOp = some fifoNop)
    (hend : o.fx2PktEnd = some false) : f.clock gotData bus o = f.commit := by
  simp [clock, CommSignals.fx2Read, CommSignals.fx2Write, hsel, hop, hend,
    -BitVec.getLsbD_eq_getElem]

theorem clock_none (hsel : o.fx2FifoSel = none) : f.clock gotData bus o = f := by
  simp [clock, hsel]

end Fx2

structure Bridge where
  comm : CommFpga := {}
  fx2 : Fx2 := {}

/-- A cycle: the flags of the FX2LP, the side of the channels, and what the host does meanwhile,
which may submit bytes and collect a packet. -/
structure BridgeEdge where
  gotData : Bool
  gotRoom : Bool
  h2fReady : Bool
  f2hData : BitVec 8
  f2hValid : Bool
  submitted : List (BitVec 8) := []
  collected : Bool := false

namespace Bridge

def edge (i : BridgeEdge) (l : Bridge) : CommEdge where
  fx2Data := l.fx2.ep2out.headD 0
  fx2GotData := i.gotData
  fx2GotRoom := i.gotRoom
  h2fReady := i.h2fReady
  f2hData := i.f2hData
  f2hValid := i.f2hValid

def serve (i : BridgeEdge) (l : Bridge) : Bridge where
  comm := l.comm.clock (l.edge i)
  fx2 := l.fx2.clock i.gotData (l.comm.bus (l.edge i)) (l.comm.signals (l.edge i))

def exchange (i : BridgeEdge) (l : Bridge) : Bridge :=
  { l with
    fx2 := { l.fx2 with
      ep2out := l.fx2.ep2out ++ i.submitted
      packets := if i.collected then l.fx2.packets.tail else l.fx2.packets } }

def clock (i : BridgeEdge) (l : Bridge) : Bridge := (l.serve i).exchange i

def transfer (i : BridgeEdge) (l : Bridge) : List Transfer := l.comm.transfer (l.edge i)

def Legal (i : BridgeEdge) (l : Bridge) : Prop := i.gotData = true → l.fx2.ep2out ≠ []

instance (i : BridgeEdge) (l : Bridge) : Decidable (l.Legal i) :=
  inferInstanceAs (Decidable (_ → _))

def Stalled (i : BridgeEdge) (l : Bridge) : Prop :=
  match l.comm.state with
  | .reset => i.gotData = true
  | .idle | .getCount0 | .getCount1 => i.gotData = false
  | .write => ¬ (i.gotRoom = true ∧ i.f2hValid = true)
  | .read => ¬ (i.gotData = true ∧ i.h2fReady = true)
  | _ => False

instance (i : BridgeEdge) (l : Bridge) : Decidable (l.Stalled i) := by
  unfold Stalled
  split <;> infer_instance

def action (i : BridgeEdge) (l : Bridge) : List Action :=
  if l.Stalled i then []
  else match l.comm.state with
    | .reset => [.wake]
    | .idle => [.address]
    | .getCount0 => [.countHigh]
    | .getCount1 => [.countLow]
    | .beginWrite => [.turn l.comm.count.toNat]
    | .write => [.get l.comm.chanAddr]
    | .endWriteAligned | .endWriteNonaligned => [.finish]
    | .read => [.put l.comm.chanAddr (l.fx2.ep2out.headD 0)]

inductive Step (i : BridgeEdge) (l : Bridge) : List Action → Bridge → Prop
  | stall (h : l.Stalled i) : Step i l [] l
  | wake (hs : l.comm.state = .reset) :
    Step i l [.wake] { l with comm := { l.comm with state := .idle } }
  | address (hs : l.comm.state = .idle) (b : BitVec 8) (bs : List (BitVec 8))
      (ho : l.fx2.ep2out = b :: bs) :
    Step i l [.address] ⟨{ l.comm with
      chanAddr := b.extractLsb' 0 7
      isWrite := b.getLsbD 7
      state := .getCount0 }, { l.fx2 with ep2out := bs }⟩
  | countHigh (hs : l.comm.state = .getCount0) (b : BitVec 8) (bs : List (BitVec 8))
      (ho : l.fx2.ep2out = b :: bs) :
    Step i l [.countHigh] ⟨{ l.comm with count := assign l.comm.count 8 b, state := .getCount1 },
      { l.fx2 with ep2out := bs }⟩
  | countLow (hs : l.comm.state = .getCount1) (b : BitVec 8) (bs : List (BitVec 8))
      (ho : l.fx2.ep2out = b :: bs) :
    Step i l [.countLow] ⟨{ l.comm with
      count := CommFpga.lengthCount b l.comm.count
      state := if l.comm.isWrite then .beginWrite else .read }, { l.fx2 with ep2out := bs }⟩
  | turn (hs : l.comm.state = .beginWrite) :
    Step i l [.turn l.comm.count.toNat] { l with comm := { l.comm with
      isAligned := decide (l.comm.count.extractLsb' 0 9 = 0), state := .write } }
  | get (hs : l.comm.state = .write) :
    Step i l [.get l.comm.chanAddr] ⟨{ l.comm with
      count := l.comm.count - 1
      state := if l.comm.count = 1 then
          if l.comm.isAligned then .endWriteAligned else .endWriteNonaligned
        else .write }, l.fx2.push i.f2hData⟩
  | endAligned (hs : l.comm.state = .endWriteAligned) :
    Step i l [.finish] { l with comm := { l.comm with state := .idle } }
  | endNonaligned (hs : l.comm.state = .endWriteNonaligned) :
    Step i l [.finish] ⟨{ l.comm with state := .idle }, l.fx2.commit⟩
  | put (hs : l.comm.state = .read) (b : BitVec 8) (bs : List (BitVec 8))
      (ho : l.fx2.ep2out = b :: bs) :
    Step i l [.put l.comm.chanAddr b] ⟨{ l.comm with
      count := l.comm.count - 1
      state := if l.comm.count = 1 then .idle else .read }, { l.fx2 with ep2out := bs }⟩

variable {i : BridgeEdge} {l : Bridge}

theorem exists_cons (h : l.Legal i) (hg : i.gotData = true) : ∃ b bs, l.fx2.ep2out = b :: bs :=
  List.exists_cons_of_ne_nil (h hg)

theorem step_of_logic {c : CommFpga} {o : CommSignals} {a : List Action} {f : Fx2}
    (hl : l.comm.logic (l.edge i) = (c, o))
    (hf : l.fx2.clock i.gotData (if o.driveBus then o.dataOut else l.fx2.ep2out.headD 0) o = f)
    (ht : (if o.h2fValid ∧ i.h2fReady then
        [.put l.comm.chanAddr (if o.driveBus then o.dataOut else l.fx2.ep2out.headD 0)]
      else if o.f2hReady ∧ i.f2hValid then [.get l.comm.chanAddr] else []) =
        a.filterMap Action.transfer)
    (ha : l.action i = a) (h : l.Step i a ⟨c, f⟩) :
    l.Step i (l.action i) (l.serve i) ∧ l.transfer i = (l.action i).filterMap Action.transfer := by
  have hserve : l.serve i = ⟨c, f⟩ := by
    simp only [serve, CommFpga.clock, CommFpga.bus, CommFpga.signals, hl, ← hf]
    rfl
  have htransfer : l.transfer i = a.filterMap Action.transfer := by
    simp only [transfer, CommFpga.transfer, CommFpga.Puts, CommFpga.Gets, CommFpga.bus,
      CommFpga.signals, hl, ← ht]
    rfl
  rw [hserve, ha]
  exact ⟨h, htransfer⟩

theorem action_of_stalled (h : l.Stalled i) : l.action i = [] := if_pos h

theorem step_and_transfer (h : l.Legal i) :
    l.Step i (l.action i) (l.serve i) ∧ l.transfer i = (l.action i).filterMap Action.transfer := by
  cases hs : l.comm.state with
  | reset =>
    cases hg : i.gotData with
    | true =>
      have hst : l.Stalled i := by simp [Stalled, hs, hg]
      refine step_of_logic (by rw [CommFpga.logic, hs]) (Fx2.clock_none rfl) (by simp)
        (action_of_stalled hst) ?_
      simpa [edge, hg] using Step.stall hst
    | false =>
      refine step_of_logic (a := [.wake]) (by rw [CommFpga.logic, hs]) (Fx2.clock_none rfl)
        (by simp) (by simp [action, Stalled, hs, hg]) ?_
      simpa [edge, hg] using Step.wake (i := i) hs
  | idle =>
    cases hg : i.gotData with
    | true =>
      obtain ⟨b, bs, ho⟩ := exists_cons h hg
      refine step_of_logic (a := [.address]) (by rw [CommFpga.logic, hs]) (Fx2.clock_read rfl rfl)
        (by simp) (by simp [action, Stalled, hs, hg]) ?_
      simpa [edge, hg, ho] using Step.address (i := i) hs b bs ho
    | false =>
      have hst : l.Stalled i := by simp [Stalled, hs, hg]
      refine step_of_logic (by rw [CommFpga.logic, hs]) (Fx2.clock_read rfl rfl) (by simp)
        (action_of_stalled hst) ?_
      simpa [edge, hg] using Step.stall hst
  | getCount0 =>
    cases hg : i.gotData with
    | true =>
      obtain ⟨b, bs, ho⟩ := exists_cons h hg
      refine step_of_logic (a := [.countHigh]) (by rw [CommFpga.logic, hs])
        (Fx2.clock_read rfl rfl) (by simp) (by simp [action, Stalled, hs, hg]) ?_
      simpa [edge, hg, ho] using Step.countHigh (i := i) hs b bs ho
    | false =>
      have hst : l.Stalled i := by simp [Stalled, hs, hg]
      refine step_of_logic (by rw [CommFpga.logic, hs]) (Fx2.clock_read rfl rfl) (by simp)
        (action_of_stalled hst) ?_
      simpa [edge, hg] using Step.stall hst
  | getCount1 =>
    cases hg : i.gotData with
    | true =>
      obtain ⟨b, bs, ho⟩ := exists_cons h hg
      refine step_of_logic (a := [.countLow]) (by rw [CommFpga.logic, hs])
        (Fx2.clock_read rfl rfl) (by simp) (by simp [action, Stalled, hs, hg]) ?_
      simpa [edge, hg, ho] using Step.countLow (i := i) hs b bs ho
    | false =>
      have hst : l.Stalled i := by simp [Stalled, hs, hg]
      refine step_of_logic (by rw [CommFpga.logic, hs]) (Fx2.clock_read rfl rfl) (by simp)
        (action_of_stalled hst) ?_
      simpa [edge, hg] using Step.stall hst
  | beginWrite =>
    exact step_of_logic (a := [.turn l.comm.count.toNat]) (by rw [CommFpga.logic, hs])
      (Fx2.clock_nop rfl rfl) (by simp) (by simp [action, Stalled, hs]) (.turn hs)
  | write =>
    by_cases hg : i.gotRoom = true ∧ i.f2hValid = true
    · refine step_of_logic (a := [.get l.comm.chanAddr]) (CommFpga.logic_write hs hg)
        (Fx2.clock_write rfl rfl rfl) (by simp [edge, hg]) (by simp [action, Stalled, hs, hg]) ?_
      simpa [edge] using Step.get (i := i) hs
    · have hst : l.Stalled i := by simpa [Stalled, hs] using hg
      exact step_of_logic (CommFpga.logic_write_stall hs hg) (Fx2.clock_nop rfl rfl)
        (by simpa [edge] using hg) (action_of_stalled hst) (.stall hst)
  | endWriteAligned =>
    exact step_of_logic (a := [.finish]) (by rw [CommFpga.logic, hs]) (Fx2.clock_nop rfl rfl)
      (by simp) (by simp [action, Stalled, hs]) (.endAligned hs)
  | endWriteNonaligned =>
    exact step_of_logic (a := [.finish]) (by rw [CommFpga.logic, hs])
      (Fx2.clock_pktEnd rfl rfl rfl) (by simp) (by simp [action, Stalled, hs]) (.endNonaligned hs)
  | read =>
    by_cases hg : i.gotData = true ∧ i.h2fReady = true
    · obtain ⟨b, bs, ho⟩ := exists_cons h hg.1
      refine step_of_logic (a := [.put l.comm.chanAddr b]) (CommFpga.logic_read hs hg)
        (Fx2.clock_read rfl rfl) (by simp [hg.2, ho]) (by simp [action, Stalled, hs, hg, ho]) ?_
      simpa [hg.1, ho] using Step.put (i := i) hs b bs ho
    · have hst : l.Stalled i := by simpa [Stalled, hs] using hg
      exact step_of_logic (CommFpga.logic_read_stall hs hg) (Fx2.clock_nop rfl rfl) (by simp)
        (action_of_stalled hst) (.stall hst)

theorem step (h : l.Legal i) : l.Step i (l.action i) (l.serve i) := (step_and_transfer h).1

theorem transfer_eq (h : l.Legal i) : l.transfer i = (l.action i).filterMap Action.transfer :=
  (step_and_transfer h).2

end Bridge

end AtmController.Link
