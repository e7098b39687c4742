import AtmController.Backend.Host
import AtmController.Frontend.Session

/-! The ATM and the host together: one step for each clock edge of the ATM, with what the user
does to the board and what the host does on the channels in this cycle. -/

namespace AtmController.System

open Clocked Backend Frontend

/-- The ATM, the host, the register `chanAddr` of the channel interface, whether the host is in
the middle of an access, and the cycles since its last one. -/
structure Sys where
  top : TopLevel
  host : Host
  chanAddr : BitVec 7
  selected : Bool
  gap : Nat

/-- The part of the host in a cycle: an access first selects its channel and later transfers its
byte; in between its accesses the process may be stopped, and started anew. -/
inductive Act
  | idle
  | select
  | transfer
  | stop
  | restart
  deriving DecidableEq

structure Cycle where
  buttons : Buttons
  swIn : BitVec 8
  act : Act

namespace Sys

def written (c : Cycle) (s : Sys) : Option (BitVec 8) :=
  match c.act, s.host.op with
  | .transfer, some (.write _ b) => some b
  | _, _ => none

def pins (c : Cycle) (s : Sys) : Pins where
  loadBankId := c.buttons.loadBankId
  nextDataIn := c.buttons.nextDataIn
  reset := c.buttons.reset
  start := c.buttons.start
  done := c.buttons.done
  swIn := c.swIn
  chanAddr := s.chanAddr
  h2fValid := (s.written c).isSome
  h2fData := (s.written c).getD 0

def data (c : Cycle) (s : Sys) : BitVec 8 := s.top.f2hData (s.pins c)

def clock (g : Generics) (bankID : BitVec 5) (c : Cycle) (s : Sys) : Sys where
  top := s.top.clock g (s.pins c)
  host := match c.act with
    | .transfer => s.host.complete bankID (s.data c)
    | .stop => s.host.stop
    | .restart => s.host.start
    | _ => s.host
  chanAddr := match c.act, s.host.op with
    | .select, some op => op.chan
    | _, _ => s.chanAddr
  selected := match c.act with
    | .select => true
    | .transfer => false
    | _ => s.selected
  gap := match c.act with
    | .transfer | .restart => 0
    | _ => s.gap + 1

/-- What the host may do in a cycle: its accesses are at least 100 cycles apart, and it is only
stopped at the head of its loop. -/
def Enabled (c : Cycle) (s : Sys) : Prop :=
  match c.act with
  | .idle => True
  | .select => s.selected = false ∧ 100 ≤ s.gap ∧ s.host.pc ≠ .stopped
  | .transfer => s.selected = true
  | .stop => s.selected = false ∧ s.host.pc = .head
  | .restart => s.selected = false ∧ s.host.pc = .stopped

def powerUp (rows : List Row) : Sys := ⟨.powerUp, ⟨.setup 0, rows, rows⟩, 0, false, 0⟩

abbrev after (g : Generics) (bankID : BitVec 5) (rows : List Row) (cs : List Cycle) : Sys :=
  run (clock g bankID) (powerUp rows) cs

theorem after_concat (g : Generics) (bankID : BitVec 5) (rows : List Row) (cs : List Cycle)
    (c : Cycle) : after g bankID rows (cs ++ [c]) = clock g bankID c (after g bankID rows cs) :=
  run_concat cs c

theorem after_append (g : Generics) (bankID : BitVec 5) (rows : List Row) (cs ds : List Cycle) :
    after g bankID rows (cs ++ ds) = run (clock g bankID) (after g bankID rows cs) ds :=
  run_append cs ds

/-- In the middle of an access the address is that of its channel. -/
structure Wf (s : Sys) : Prop where
  bounded : s.host.pc.Bounded
  addressed : s.selected = true → ∃ op, s.host.op = some op ∧ s.chanAddr = op.chan

variable {g : Generics} {bankID : BitVec 5} {c : Cycle} {s : Sys}

theorem exists_op (h : s.host.pc ≠ .stopped) : ∃ op, s.host.op = some op := by
  unfold Host.op
  cases hpc : s.host.pc with
  | stopped => exact absurd hpc h
  | _ => exact ⟨_, rfl⟩

theorem Wf.clock (h : s.Wf) (he : s.Enabled c) : (s.clock g bankID c).Wf := by
  obtain ⟨hb, ha⟩ := h
  unfold Enabled at he
  constructor
  · unfold Sys.clock
    cases c.act with
    | transfer => exact Host.bounded_complete hb
    | stop => trivial
    | restart => exact Nat.zero_lt_succ _
    | _ => exact hb
  · unfold Sys.clock
    cases hact : c.act with
    | idle => exact ha
    | select =>
      rw [hact] at he
      obtain ⟨op, ho⟩ := exists_op he.2.2
      exact fun _ => ⟨op, ho, by simp [ho]⟩
    | transfer => exact fun hs => Bool.noConfusion hs
    | stop =>
      rw [hact] at he
      exact fun hs => Bool.noConfusion (hs.symm.trans he.1)
    | restart =>
      rw [hact] at he
      exact fun hs => Bool.noConfusion (hs.symm.trans he.1)

theorem wf_powerUp (rows : List Row) : (powerUp rows).Wf :=
  ⟨Nat.zero_lt_succ _, fun h => Bool.noConfusion h⟩

theorem Wf.write (h : s.Wf) (he : s.Enabled c) (hv : (s.pins c).h2fValid = true) :
    c.act = .transfer ∧ s.host.op = some (.write s.chanAddr (s.pins c).h2fData) := by
  simp only [pins, written] at hv ⊢
  cases hact : c.act with
  | transfer =>
    rw [hact] at hv
    simp only [Enabled, hact] at he
    obtain ⟨op, ho, ha⟩ := h.addressed he
    rw [ho] at hv ⊢
    cases op with
    | read _ => exact Bool.noConfusion hv
    | write ch b => exact ⟨rfl, by rw [ha]; rfl⟩
  | _ => simp [hact] at hv

theorem Wf.reply (h : s.Wf) (he : s.Enabled c) (hv : (s.pins c).h2fValid = true)
    (hlo : 10 ≤ s.chanAddr.toNat) (hhi : s.chanAddr.toNat < 18) :
    c.act = .transfer ∧ ∃ a, s.host.pc = .writeReply (s.chanAddr.toNat - 10) a ∧
      (s.pins c).h2fData = replyByte a.befEncSen (s.chanAddr.toNat - 10) := by
  obtain ⟨hact, ho⟩ := h.write he hv
  refine ⟨hact, ?_⟩
  have hb := h.bounded
  unfold Host.op at ho
  cases hpc : s.host.pc with
  | setup k =>
    simp only [hpc, Pc.Bounded] at ho hb
    obtain ⟨ho, -⟩ := Op.write.inj (Option.some.inj ho)
    rw [← ho, BitVec.toNat_ofNat] at hhi
    omega
  | writeStatus b a =>
    simp only [hpc] at ho
    obtain ⟨ho, -⟩ := Op.write.inj (Option.some.inj ho)
    rw [← ho] at hlo
    exact absurd hlo (by decide)
  | writeReply k a =>
    simp only [hpc, Pc.Bounded] at ho hb
    obtain ⟨ho, hd⟩ := Op.write.inj (Option.some.inj ho)
    have hk : s.chanAddr.toNat - 10 = k := by
      rw [← ho, BitVec.toNat_ofNat]
      omega
    rw [hk]
    exact ⟨a, rfl, hd.symm⟩
  | _ => simp [hpc] at ho

end Sys

end AtmController.System
