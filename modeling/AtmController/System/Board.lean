import AtmController.System.Access
import AtmController.System.System

/-! The board and the host with the channel interface between them: `flReadChannel` and
`flWriteChannel` put a command on the way, and return when the reply is there or at any time after
a write. -/

namespace AtmController.System

open Clocked Backend Frontend Link

/-- The ATM and the channel interface, the host, the access that a library call is busy with, and
the cycles since the last transfer. -/
structure Board where
  top : TopLevel := .powerUp
  link : Bridge := {}
  host : Host
  op : Option Op := none
  gap : Nat := 0

/-- The part of the host in a cycle: a library call submits its access and returns later. -/
inductive HostAct
  | idle
  | submit
  | ret
  | stop
  | restart
  deriving DecidableEq

structure BoardCycle where
  buttons : Buttons
  swIn : BitVec 8
  gotData : Bool
  gotRoom : Bool
  act : HostAct

namespace Board

def pinsWith (c : BoardCycle) (chanAddr : BitVec 7) (h2fValid : Bool) (h2fData : BitVec 8) :
    Pins where
  loadBankId := c.buttons.loadBankId
  nextDataIn := c.buttons.nextDataIn
  reset := c.buttons.reset
  start := c.buttons.start
  done := c.buttons.done
  swIn := c.swIn
  chanAddr := chanAddr
  h2fValid := h2fValid
  h2fData := h2fData

def f2hData (c : BoardCycle) (b : Board) : BitVec 8 :=
  b.top.f2hData (pinsWith c b.link.comm.chanAddr false 0)

/-- The interface in a cycle; `h2fReady` and `f2hValid` are tied to `'1'`. -/
def edge (c : BoardCycle) (b : Board) : BridgeEdge where
  gotData := c.gotData
  gotRoom := c.gotRoom
  h2fReady := true
  f2hData := b.f2hData c
  f2hValid := true
  submitted := match c.act, b.host.op with
    | .submit, some op => (command op).encode
    | _, _ => []
  collected := match c.act, b.op with
    | .ret, some op => isRead op
    | _, _ => false

def pins (c : BoardCycle) (b : Board) : Pins :=
  let i := b.link.edge (b.edge c)
  pinsWith c b.link.comm.chanAddr (b.link.comm.signals i).h2fValid (b.link.comm.bus i)

def result (b : Board) : BitVec 8 := ((bulkRead 1 b.link.fx2.packets).elim [] Prod.fst).headD 0

def clock (g : Generics) (bankID : BitVec 5) (c : BoardCycle) (b : Board) : Board where
  top := b.top.clock g (b.pins c)
  link := b.link.clock (b.edge c)
  host := match c.act with
    | .ret => b.host.complete bankID b.result
    | .stop => b.host.stop
    | .restart => b.host.start
    | _ => b.host
  op := match c.act with
    | .submit => b.host.op
    | .ret => none
    | _ => b.op
  gap := if b.link.transfer (b.edge c) ≠ [] ∨ c.act = .restart then 0 else b.gap + 1

/-- What the host may do in a cycle: it submits an access 100 cycles after the one before, a read
returns with its packet, and the process is only stopped at the head of its loop. -/
def Enabled (c : BoardCycle) (b : Board) : Prop :=
  b.link.Legal (b.edge c) ∧
    match c.act with
    | .idle => True
    | .submit => b.op = none ∧ Quiet b.link ∧ 100 ≤ b.gap ∧ b.host.pc ≠ .stopped
    | .ret => ∃ op ∈ b.op, isRead op = true → b.link.fx2.packets ≠ []
    | .stop => b.op = none ∧ Quiet b.link ∧ b.host.pc = .head
    | .restart => b.op = none ∧ Quiet b.link ∧ b.host.pc = .stopped

instance (c : BoardCycle) (b : Board) : Decidable (b.Enabled c) := by
  unfold Enabled
  cases c.act <;> infer_instance

/-- What the host submits and gets is what the library call for its access does on the same packets,
between two other calls. -/
theorem result_call {b b' : Board} {i : BoardCycle} {op : Op} (hop : b.host.op = some op)
    (hact : i.act = .submit) {c : FLContext} (hc : c.Ok) (hcap : c.isCommCapable = true)
    (hp : c.pending = []) (hb : c.buffered = []) {x : BitVec 8} {ps : List (List (BitVec 8))}
    (hpk : isRead op = true → b'.link.fx2.packets = [x] :: ps ∧ c.packets = [x] :: ps) :
    ∃ data c', (call op).run c = .ok data c' ∧
      c'.submitted.flatten = c.submitted.flatten ++ (b.edge i).submitted ∧
      (isRead op = true → data = [b'.result] ∧ c'.packets = b'.link.fx2.packets.tail) := by
  obtain ⟨data, c', hrun, hsub, hread⟩ := call_returns op hc hcap hp hb fun hr => (hpk hr).2
  refine ⟨data, c', hrun, ?_, fun hr => ?_⟩
  · rw [hsub, edge, hact, hop]
  · obtain ⟨rfl, hps⟩ := hread hr
    rw [result, (hpk hr).1]
    exact ⟨rfl, hps⟩

def powerUp (rows : List Row) : Board := { host := ⟨.setup 0, rows, rows⟩ }

end Board

end AtmController.System
