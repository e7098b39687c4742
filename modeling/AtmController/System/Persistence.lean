import AtmController.Backend.Process
import AtmController.System.EmptySlot

/-! The ATM and a host whose file is a text. The host may be stopped and started anew any number of
times, only not while it writes the file, and the system that keeps the lines themselves shows what
happens. -/

namespace AtmController.System

open Clocked Backend Frontend

structure FileSys where
  top : TopLevel
  process : Process
  chanAddr : BitVec 7
  selected : Bool
  gap : Nat

namespace FileSys

def sys (x : FileSys) : Sys := ⟨x.top, x.process.host, x.chanAddr, x.selected, x.gap⟩

/-- Besides, so many characters reach the file. -/
structure FileCycle extends Cycle where
  flushed : Nat := 0

/-- A new process reads the file, which is no step where a store is outside of the array. -/
def act (bankID : BitVec 5) (c : Cycle) (x : FileSys) : Option Process :=
  match c.act with
  | .transfer => some (x.process.complete bankID (x.sys.data c))
  | .stop => some x.process.stop
  | .restart => Process.start x.process.file
  | _ => some x.process

def clock (g : Generics) (bankID : BitVec 5) (c : FileCycle) (x : FileSys) : Option FileSys :=
  (x.act bankID c.toCycle).map fun process =>
    let s := x.sys.clock g bankID c.toCycle
    ⟨s.top, process.write c.flushed, s.chanAddr, s.selected, s.gap⟩

/-- From the last byte of an answer to `fclose` the process is not stopped and does no access. -/
def Legal (c : FileCycle) (x : FileSys) : Prop := c.act = .idle ∨ x.process.unwritten = []

def powerUp (file : List Char) : Option FileSys :=
  (Process.start file).map fun process => ⟨.powerUp, process, 0, false, 0⟩

variable (g : Generics) (bankID : BitVec 5) {x : FileSys}

theorem clock_spec {c : FileCycle} (hl : x.Legal c) (h : x.process.Saved) :
    ∃ y, x.clock g bankID c = some y ∧ y.sys = x.sys.clock g bankID c.toCycle ∧
      y.process.Saved := by
  unfold clock act Sys.clock
  cases hact : c.act with
  | transfer =>
    refine ⟨_, rfl, ?_, h.complete.write _⟩
    simp only [sys, Process.host_write, h.host_complete]
  | stop =>
    obtain ⟨hhost, hsaved⟩ := h.stop (hl.resolve_left (by simp [hact]))
    refine ⟨_, rfl, ?_, hsaved.write _⟩
    simp only [sys, Process.host_write, hhost]
  | restart =>
    obtain ⟨p, hp, hhost, hsaved⟩ := h.start (hl.resolve_left (by simp [hact]))
    refine ⟨_, by rw [hp]; rfl, ?_, hsaved.write _⟩
    simp only [sys, Process.host_write, hhost]
  | _ =>
    refine ⟨_, rfl, ?_, h.write _⟩
    simp only [sys, Process.host_write]

/-- A run ends where a file cannot be read. -/
def step (c : FileCycle) (x : Option FileSys) : Option FileSys := x.bind (clock g bankID c)

theorem run_spec {cs : List FileCycle}
    (hl : Runs (step g bankID) (fun c x => ∀ y ∈ x, Legal c y) (some x) cs)
    (h : x.process.Saved) :
    ∃ y, run (step g bankID) (some x) cs = some y ∧
      y.sys = run (Sys.clock g bankID) x.sys (cs.map FileCycle.toCycle) ∧ y.process.Saved := by
  induction cs generalizing x with
  | nil => exact ⟨x, rfl, rfl, h⟩
  | cons c cs ih =>
    obtain ⟨y, hy, hsys, hy'⟩ := clock_spec g bankID (hl.1 x rfl) h
    have hstep : step g bankID c (some x) = some y := hy
    have hl' := hl.2
    rw [hstep] at hl'
    obtain ⟨z, hz, hzsys, hz'⟩ := ih hl' hy'
    refine ⟨z, ?_, ?_, hz'⟩
    · rw [run_cons, hstep, hz]
    · rw [hzsys, hsys, List.map_cons, run_cons]

theorem clock_flushed {c : Cycle} {y : FileSys} (h : x.clock g bankID ⟨c, 0⟩ = some y) (n : Nat) :
    x.clock g bankID ⟨c, n⟩ = some { y with process := y.process.write n } := by
  obtain ⟨p, hp, rfl⟩ := Option.map_eq_some_iff.mp h
  rw [clock, hp, Option.map_some]
  simp only [Process.write, List.take_zero, List.append_nil, List.drop_zero]

/-- Whatever the ATM and the host do, it is a run in which the file is closed in the cycle in which
it is opened. -/
theorem exists_run (h : x.process.Saved) (hw : x.process.unwritten = []) (cs : List Cycle) :
    ∃ fs, fs.map FileCycle.toCycle = cs ∧
      Runs (step g bankID) (fun c x => ∀ y ∈ x, Legal c y) (some x) fs := by
  induction cs generalizing x with
  | nil => exact ⟨[], rfl, trivial⟩
  | cons c cs ih =>
    obtain ⟨y, hy, -, hsaved⟩ := clock_spec g bankID (c := ⟨c, 0⟩) (.inr hw) h
    have hclock := clock_flushed g bankID hy y.process.unwritten.length
    obtain ⟨fs, hfs, hruns⟩ :=
      ih (x := { y with process := y.process.write y.process.unwritten.length })
        (hsaved.write _) List.drop_length
    refine ⟨⟨c, y.process.unwritten.length⟩ :: fs, by rw [List.map_cons, hfs], ?_, ?_⟩
    · intro z hz
      obtain rfl := Option.some.inj hz
      exact .inr hw
    · rw [step, Option.bind_some, hclock]
      exact hruns

end FileSys

theorem Sys.accountsInv_clock {g : Generics} {bankID : BitVec 5} {rows : List Row} (c : Cycle)
    (s : Sys) (h : s.host.AccountsInv rows) : (s.clock g bankID c).host.AccountsInv rows := by
  unfold Sys.clock
  cases c.act with
  | transfer => exact h.complete
  | stop => exact h.jump trivial
  | restart => exact h.start
  | _ => exact h

theorem Sys.accountsInv (g : Generics) (bankID : BitVec 5) (rows : List Row) (cs : List Cycle) :
    (Sys.after g bankID rows cs).host.AccountsInv rows :=
  have hstart : (Sys.powerUp rows).host.AccountsInv rows := ⟨sameAccounts_refl _, rfl, trivial⟩
  run_invariant (P := fun s : Sys => s.host.AccountsInv rows) Sys.accountsInv_clock hstart cs

/-- With a text that the program reads into its array, in any run of the ATM and the host where the
host is not stopped while it writes the file: no start of the host fails, its table and its state are
those of the system that keeps the lines, a process that read the file after it is closed would have
the same lines, and they are the accounts of the text. -/
theorem file_follows (g : Generics) (bankID : BitVec 5) (file : List Char) (t : Table)
    (ht : Table.read file = some t) (hN : t.numLines ≤ 100004) (cs : List FileSys.FileCycle)
    (hl : Runs (FileSys.step g bankID) (fun c x => ∀ y ∈ x, FileSys.Legal c y)
      (FileSys.powerUp file) cs) :
    ∃ y u, run (FileSys.step g bankID) (FileSys.powerUp file) cs = some y ∧
      y.sys = Sys.after g bankID t.rows (cs.map FileSys.FileCycle.toCycle) ∧
      Table.read (y.process.file ++ y.process.unwritten) = some u ∧
      u.rows = y.process.table.rows ∧ SameAccounts t.rows y.process.table.rows := by
  have hsaved : Process.Saved ⟨.setup 0, t, file, []⟩ :=
    ⟨hN, t, by rw [List.append_nil, ht], hN, rfl⟩
  have hpower : FileSys.powerUp file = some ⟨.powerUp, ⟨.setup 0, t, file, []⟩, 0, false, 0⟩ := by
    rw [FileSys.powerUp, Process.start, ht]
    rfl
  rw [hpower] at hl ⊢
  obtain ⟨y, hy, hsys, hy'⟩ := FileSys.run_spec g bankID hl hsaved
  obtain ⟨u, hu, -, hrows⟩ := hy'.read
  have hstart₀ : FileSys.sys ⟨.powerUp, ⟨.setup 0, t, file, []⟩, 0, false, 0⟩ = .powerUp t.rows := by
    rw [FileSys.sys, hsaved.host_eq]
    rfl
  rw [hstart₀] at hsys
  have hinv : y.sys.host.AccountsInv t.rows :=
    hsys ▸ Sys.accountsInv g bankID t.rows (cs.map FileSys.FileCycle.toCycle)
  exact ⟨y, u, hy, hsys, hu, hrows, hinv.accounts⟩

def oneLine : List Char := "ID,PIN\n0,0,0,1000".toList

def oneLineTable : Table where
  numLines := 1
  dataFromCSV i k :=
    if i = 1 ∧ k = 3 then 1000
    else if i = 1 ∧ k = 2 then 0
    else if i = 1 ∧ k = 1 then 0
    else if i = 1 ∧ k = 0 then 0 else 0

/-- The balance changes twice, and then the host is stopped and started anew. -/
theorem file_follows_of_exchanges : ∃ fs y u,
    run (FileSys.step {} 0) (FileSys.powerUp oneLine) fs = some y ∧
      Table.read (y.process.file ++ y.process.unwritten) = some u ∧
      u.rows = [⟨0, 0, 0, 40⟩] ∧ y.process.table.rows = [⟨0, 0, 0, 40⟩] := by
  obtain ⟨cs, c, ds, -, -, -, -, hrows⟩ := Sys.exists_exchangesEmpty 0 [⟨0, 0, 0, 1000⟩]
    (reconcile_zero 0 _) (reconcile_zero 0 _)
  have ht : Table.read oneLine = some oneLineTable := rfl
  have hsaved : Process.Saved ⟨.setup 0, oneLineTable, oneLine, []⟩ :=
    ⟨by decide, oneLineTable, ht, by decide, rfl⟩
  obtain ⟨fs, hfs, hl⟩ := FileSys.exists_run {} 0
    (x := ⟨.powerUp, ⟨.setup 0, oneLineTable, oneLine, []⟩, 0, false, 0⟩) hsaved rfl
    (cs ++ [c] ++ ds ++ [⟨{}, 0, .stop⟩, ⟨{}, 0, .restart⟩])
  obtain ⟨y, u, hy, hsys, hu, hur, -⟩ := file_follows {} 0 oneLine oneLineTable ht (by decide) fs hl
  have htable : y.process.table.rows = [⟨0, 0, 0, 40⟩] := by
    change y.sys.host.dataFromCSV = _
    rw [hsys, hfs, Sys.after_append]
    change (Sys.after {} 0 [⟨0, 0, 0, 1000⟩] (cs ++ [c] ++ ds)).host.csv = _
    rw [(Sys.accountsInv {} 0 _ _).csv, hrows]
    decide
  exact ⟨fs, y, u, hy, hu, hur.trans htable, htable⟩

end AtmController.System
