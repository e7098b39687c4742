import AtmController.Backend.Authentication

/-! The host program with its file as text: it is written after a debit, and a process that is
started anew reads it. -/

namespace AtmController.Backend

/-- The process, its table, its file, and the rest of the text that it is writing into the file;
before that is written, it does nothing else. -/
structure Process where
  pc : Pc
  table : Table
  file : List Char
  unwritten : List Char := []

namespace Process

def host (p : Process) : Host :=
  ⟨p.pc, p.table.rows, ((Table.read (p.file ++ p.unwritten)).map Table.rows).getD []⟩

/-- After the last byte: the balance is updated in the table, and `fopen` empties the file. -/
def settle (a : Answer) (p : Process) : Process :=
  match a.update with
  | some (inLineNum, bal) =>
    -- in the table the lines are counted from 1
    let table := p.table.setBal (inLineNum + 1) bal
    ⟨.head, table, [], table.write⟩
  | none => { p with pc := .head }

def complete (bankID : BitVec 5) (b : BitVec 8) (p : Process) : Process :=
  match p.pc with
  | .writeReply k a => if k < 7 then { p with pc := .writeReply (k + 1) a } else p.settle a
  | _ => { p with pc := (p.host.complete bankID b).pc }

def write (n : Nat) (p : Process) : Process :=
  { p with file := p.file ++ p.unwritten.take n, unwritten := p.unwritten.drop n }

/-- What is not written is lost. -/
def stop (p : Process) : Process := { p with pc := .stopped, unwritten := [] }

def start (file : List Char) : Option Process :=
  (Table.read file).map fun table => ⟨.setup 0, table, file, []⟩

/-- A new process would read the lines of the table, once the file is closed. -/
structure Saved (p : Process) : Prop where
  numLines : p.table.numLines ≤ 100004
  read : ∃ t, Table.read (p.file ++ p.unwritten) = some t ∧ t.numLines ≤ 100004 ∧
    t.rows = p.table.rows

end Process

theorem Table.rows_of_neg {t : Table} (h : t.numLines < 0) : t.rows = [] := by
  rw [rows, Int.toNat_of_nonpos h.le]
  rfl

theorem Table.read_write_rows {t : Table} (h : t.numLines ≤ 100004) :
    ∃ u, read t.write = some u ∧ u.numLines ≤ 100004 ∧ u.rows = t.rows := by
  rcases Int.lt_or_le t.numLines 0 with hneg | h0
  · have hw : t.write = write { t with numLines := 0 } := by
      simp only [write, Int.toNat_of_nonpos hneg.le, Int.toNat_zero]
      rfl
    have hle : (0 : Int) ≤ 100004 := by decide
    obtain ⟨u, hu, hag⟩ := read_write (t := { t with numLines := 0 }) le_rfl hle
    refine ⟨u, hw ▸ hu, hag.numLines.trans_le hle, ?_⟩
    rw [hag.rows_eq, rows_of_neg hneg]
    rfl
  · obtain ⟨u, hu, hag⟩ := read_write h0 h
    exact ⟨u, hu, hag.numLines.trans_le h, hag.rows_eq⟩

theorem Host.complete_of_ne {bankID : BitVec 5} {b : BitVec 8} {h : Host}
    (hpc : ∀ k a, h.pc ≠ .writeReply k a) :
    h.complete bankID b = { h with pc := (h.complete bankID b).pc } := by
  obtain ⟨pc, rows, csv⟩ := h
  unfold Host.complete
  cases pc with
  | writeReply k a => exact absurd rfl (hpc k a)
  | readInput v i inp =>
    simp only
    split_ifs
    · rfl
    · rcases answer_cases bankID v (readByte inp (i + 1) b) ⟨.readInput v i inp, rows, csv⟩ with
        ⟨a, ha⟩ | ha
      · rw [ha]
        rcases reply_cases a ⟨.readInput v i inp, rows, csv⟩ with ⟨b', -, hr⟩ | ⟨-, hr⟩ <;> rw [hr]
      · rw [ha]
  | _ => rfl

namespace Process

variable {bankID : BitVec 5} {b : BitVec 8} {p : Process} {a : Answer}

theorem Saved.host_eq (h : p.Saved) : p.host = ⟨p.pc, p.table.rows, p.table.rows⟩ := by
  obtain ⟨t, ht, -, hrows⟩ := h.read
  rw [host, ht, ← hrows]
  rfl

theorem Saved.settle (h : p.Saved) (a : Answer) : (p.settle a).Saved := by
  unfold Process.settle
  cases a.update with
  | none => exact ⟨h.numLines, h.read⟩
  | some u => exact ⟨h.numLines, Table.read_write_rows h.numLines⟩

theorem Saved.host_settle (h : p.Saved) (a : Answer) : (p.settle a).host = p.host.settle a := by
  rw [(h.settle a).host_eq, h.host_eq]
  unfold Process.settle Host.settle
  cases a.update with
  | none => rfl
  | some u => simp only [Table.rows_setBal]

theorem Saved.complete (h : p.Saved) : (p.complete bankID b).Saved := by
  unfold Process.complete
  split
  · split
    · exact ⟨h.numLines, h.read⟩
    · exact h.settle _
  · exact ⟨h.numLines, h.read⟩

theorem Saved.host_complete (h : p.Saved) :
    (p.complete bankID b).host = p.host.complete bankID b := by
  unfold Process.complete
  split
  · next k a hp =>
    rw [Host.complete, show p.host.pc = .writeReply k a from hp]
    simp only
    split
    · rfl
    · exact h.host_settle a
  · next hp => exact (Host.complete_of_ne fun k a => hp k a).symm

theorem host_write (n : Nat) (p : Process) : (p.write n).host = p.host := by
  simp only [host, write, List.append_assoc, List.take_append_drop]

theorem Saved.write (h : p.Saved) (n : Nat) : (p.write n).Saved := by
  refine ⟨h.numLines, ?_⟩
  simp only [Process.write, List.append_assoc, List.take_append_drop]
  exact h.read

theorem Saved.stop (h : p.Saved) (hw : p.unwritten = []) :
    p.stop.host = p.host.stop ∧ p.stop.Saved := by
  have hstop : p.stop = { p with pc := .stopped } := by rw [Process.stop, ← hw]
  rw [hstop]
  exact ⟨rfl, h.numLines, h.read⟩

theorem Saved.start (h : p.Saved) (hw : p.unwritten = []) :
    ∃ p', start p.file = some p' ∧ p'.host = p.host.start ∧ p'.Saved := by
  obtain ⟨t, ht, hN, hrows⟩ := h.read
  rw [hw, List.append_nil] at ht
  refine ⟨⟨.setup 0, t, p.file, []⟩, by rw [Process.start, ht]; rfl, ?_, hN, t, ?_, hN, rfl⟩
  · simp only [host, Host.start, hw, List.append_nil, ht, Option.map_some, Option.getD_some]
  · rw [List.append_nil, ht]

theorem lost_of_stop {u : Nat × BitVec 32} (h : a.update = some u) :
    ∃ p', start (p.settle a).stop.file = some p' ∧ p'.table.rows = [] := by
  rw [Process.settle, h]
  exact ⟨_, rfl, rfl⟩

end Process

/-! ### The accounts -/

def SameAccounts : List Row → List Row → Prop :=
  List.Forall₂ fun r r' => { r' with balance := r.balance } = r ∧ (r.admin = 1 → r' = r)

theorem sameAccounts_refl (rows : List Row) : SameAccounts rows rows :=
  List.forall₂_same.mpr fun _ _ => ⟨rfl, fun _ => rfl⟩

variable {rows rows' : List Row} {bankID : BitVec 5} {b : BitVec 8} {h : Host} {a : Account}

theorem SameAccounts.setBalance {n : Nat} {bal : BitVec 32} (hs : SameAccounts rows rows')
    (hn : ∀ r ∈ rows'[n]?, r.admin ≠ 1) : SameAccounts rows (setBalance rows' n bal) := by
  induction hs generalizing n with
  | nil =>
    rw [Backend.setBalance, List.modify_nil]
    exact .nil
  | @cons r r' rs rs' hr hrs ih =>
    cases n with
    | zero =>
      refine .cons ⟨hr.1, fun hadm => ?_⟩ hrs
      have hr' := hr.2 hadm
      exact absurd hadm (hr' ▸ hn r' rfl)
    | succ n => exact .cons hr (ih hn)

def Answer.DebitsUser (rows : List Row) (a : Answer) : Prop :=
  ∀ u ∈ a.update, ∀ r ∈ rows[u.1]?, r.admin ≠ 1

def Pc.DebitsUser (rows : List Row) : Pc → Prop
  | .writeStatus _ a | .writeReply _ a => a.DebitsUser rows
  | _ => True

theorem admin_of_find {u p : BitVec 16} (ha : find u p rows = some a) (hu : a.isAdmin ≠ true) :
    ∀ r ∈ rows[a.inLineNum]?, r.admin ≠ 1 := by
  obtain ⟨k, r, hr, -, -, rfl⟩ := findFrom_eq_some_iff.mp ha
  intro r' hr' hadm
  rw [Nat.zero_add, hr] at hr'
  obtain rfl := Option.some.inj hr'
  exact hu (decide_eq_true hadm)

theorem debitsUser_transact (b : BitVec 8) (inp : Block) :
    (transact bankID rows b inp).DebitsUser rows := by
  unfold transact
  split
  · next a ha =>
    split_ifs with hadm hsuff hb
    · nofun
    · rintro u ⟨⟩
      exact admin_of_find ha hadm
    · nofun
    · nofun
  · nofun

theorem debitsUser_reconcile {inp : Block} {a : Answer} (ha : reconcile bankID rows inp = some a) :
    a.DebitsUser rows := by
  unfold reconcile at ha
  split at ha
  · next acc hacc =>
    split_ifs at ha with hadm
    obtain rfl := Option.some.inj ha
    rintro u ⟨⟩
    exact admin_of_find hacc hadm
  · obtain rfl := Option.some.inj ha
    nofun

namespace Host

structure AccountsInv (rows : List Row) (h : Host) : Prop where
  accounts : SameAccounts rows h.dataFromCSV
  csv : h.csv = h.dataFromCSV
  user : h.pc.DebitsUser h.dataFromCSV

theorem AccountsInv.jump {pc : Pc} (hi : h.AccountsInv rows) (hu : pc.DebitsUser h.dataFromCSV) :
    AccountsInv rows { h with pc } := ⟨hi.accounts, hi.csv, hu⟩

theorem AccountsInv.reply {a : Answer} (hi : h.AccountsInv rows)
    (ha : a.DebitsUser h.dataFromCSV) : (h.reply a).AccountsInv rows := by
  rcases reply_cases a h with ⟨b, -, hr⟩ | ⟨-, hr⟩ <;> rw [hr] <;> exact hi.jump ha

theorem AccountsInv.answer (hi : h.AccountsInv rows) (v : BitVec 8) (inp : Block) :
    (h.answer bankID v inp).AccountsInv rows := by
  unfold Host.answer
  simp only
  split
  · split
    · next a ha => exact hi.reply (debitsUser_reconcile ha)
    · exact hi.jump trivial
  · exact hi.reply (debitsUser_transact v _)

theorem AccountsInv.settle {a : Answer} (hi : h.AccountsInv rows)
    (ha : a.DebitsUser h.dataFromCSV) : (h.settle a).AccountsInv rows := by
  unfold Host.settle
  cases hu : a.update with
  | none => exact hi.jump trivial
  | some u => exact ⟨hi.accounts.setBalance (ha u hu), rfl, trivial⟩

theorem AccountsInv.complete (hi : h.AccountsInv rows) :
    (h.complete bankID b).AccountsInv rows := by
  have hu := hi.user
  unfold Host.complete
  cases hpc : h.pc with
  | stopped => exact hi
  | setup k =>
    simp only
    exact hi.jump (by split <;> trivial)
  | head =>
    simp only
    exact hi.jump (by split <;> trivial)
  | confirm v cnt =>
    simp only
    exact hi.jump (by split_ifs <;> trivial)
  | readInput v i inp =>
    simp only
    split
    · exact hi.jump trivial
    · exact hi.answer v _
  | writeStatus b' a =>
    rw [hpc] at hu
    exact hi.jump hu
  | writeReply k a =>
    rw [hpc] at hu
    simp only
    split
    · exact hi.jump hu
    · exact hi.settle hu

theorem AccountsInv.start (hi : h.AccountsInv rows) : h.start.AccountsInv rows where
  accounts := by
    change SameAccounts rows h.csv
    rw [hi.csv]
    exact hi.accounts
  csv := rfl
  user := trivial

end Host

end AtmController.Backend
