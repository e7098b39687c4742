import AtmController.Backend.Account

namespace AtmController.Backend

inductive Op
  | read (chan : BitVec 7)
  | write (chan : BitVec 7) (data : BitVec 8)
  deriving DecidableEq

def Op.chan : Op → BitVec 7
  | read c => c
  | write c _ => c

/-- The answer to a message: the status on channel 9, `befEncSen` after its encryption, and the
line whose balance changes once the last byte is written. -/
structure Answer where
  status : Option (BitVec 8)
  befEncSen : Block
  update : Option (Nat × BitVec 32)
  deriving DecidableEq

inductive Pc
  /-- No process. -/
  | stopped
  /-- Channel `18 + k` of the configuration comes next. -/
  | setup (k : Nat)
  /-- The poll at the head of the loop comes next. -/
  | head
  /-- The value was read `cnt` times. -/
  | confirm (valRead : BitVec 8) (cnt : Nat)
  /-- Channel `i + 1` comes next. -/
  | readInput (valRead : BitVec 8) (i : Nat) (inpFromFrontEnd : Block)
  | writeStatus (statusOnChan9 : BitVec 8) (a : Answer)
  /-- Channel `10 + k` comes next. -/
  | writeReply (k : Nat) (a : Answer)
  deriving DecidableEq

structure Host where
  pc : Pc
  dataFromCSV : List Row
  csv : List Row

/-- The cap on an amount and the caps on the notes, encrypted. -/
def befEncSenInit : Block := encrypt64 ⟨packNotes 255 255 255 255, 0xffffffff⟩

def transact (bankID : BitVec 5) (rows : List Row) (valRead : BitVec 8) (inp : Block) : Answer :=
  match find (userID inp.v1) (myHash bankID (unhashedPin inp.v1)) rows with
  | some a =>
    if a.isAdmin then
      ⟨some 3, encrypt64 ⟨packNotes (num2000Admin inp.v0) (num1000Admin inp.v0)
        (num500Admin inp.v0) (num100Admin inp.v0), 0⟩, none⟩
    else if SuffBalUser a.bal inp.v0 then
      if valRead = 1 then
        ⟨some 1, encrypt64 ⟨percent (a.bal - inp.v0), 0⟩, some (a.inLineNum, a.bal - inp.v0)⟩
      else ⟨some 1, encrypt64 ⟨percent a.bal, 0⟩, none⟩
    else ⟨some 2, encrypt64 ⟨percent a.bal, 0⟩, none⟩
  | none => ⟨some 4, ⟨0, 0⟩, none⟩

/-- The answer to an entry of the cache; the program returns on an administrator. -/
def reconcile (bankID : BitVec 5) (rows : List Row) (inp : Block) : Option Answer :=
  match find (userID inp.v1) (myHash bankID (unhashedPin inp.v1)) rows with
  | some a =>
    if a.isAdmin then none
    else
      let bal := finalBal a.bal inp.v0
      some ⟨none, encrypt64 ⟨percent bal, 0⟩, some (a.inLineNum, bal)⟩
  | none => some ⟨none, encrypt64 ⟨0, 0⟩, none⟩

namespace Host

def op (h : Host) : Option Op :=
  match h.pc with
  | .stopped => none
  | .setup k => some (.write (.ofNat 7 (18 + k)) (replyByte befEncSenInit k))
  | .head | .confirm _ _ => some (.read 0)
  | .readInput _ i _ => some (.read (.ofNat 7 (i + 1)))
  | .writeStatus b _ => some (.write 9 b)
  | .writeReply k a => some (.write (.ofNat 7 (10 + k)) (replyByte a.befEncSen k))

def reply (h : Host) (a : Answer) : Host :=
  match a.status with
  | some b => { h with pc := .writeStatus b a }
  | none => { h with pc := .writeReply 0 a }

/-- What follows on the last byte of a message. -/
def answer (bankID : BitVec 5) (valRead : BitVec 8) (inpFromFrontEnd : Block) (h : Host) : Host :=
  let inp := decrypt64 inpFromFrontEnd
  if valRead = 5 then
    match reconcile bankID h.dataFromCSV inp with
    | some a => h.reply a
    | none => { h with pc := .stopped }
  else h.reply (transact bankID h.dataFromCSV valRead inp)

/-- Back to the head of the loop, with the balance updated in the table and in the file, at once;
`Process` has the steps of the rewriting. -/
def settle (a : Answer) (h : Host) : Host :=
  match a.update with
  | some (inLineNum, bal) =>
    let rows := setBalance h.dataFromCSV inLineNum bal
    ⟨.head, rows, rows⟩
  | none => { h with pc := .head }

def complete (bankID : BitVec 5) (b : BitVec 8) (h : Host) : Host :=
  match h.pc with
  | .stopped => h
  | .setup k => { h with pc := if k < 7 then .setup (k + 1) else .head }
  | .head => { h with pc := if b = 1 ∨ b = 2 ∨ b = 5 then .confirm b 1 else .head }
  | .confirm valRead cnt =>
    { h with
      pc := if b = valRead then
          if cnt + 1 < 3 then .confirm valRead (cnt + 1) else .readInput valRead 0 ⟨0, 0⟩
        else .head }
  | .readInput valRead i inp =>
    let inp := readByte inp (i + 1) b
    if i < 7 then { h with pc := .readInput valRead (i + 1) inp }
    else h.answer bankID valRead inp
  | .writeStatus _ a => { h with pc := .writeReply 0 a }
  | .writeReply k a => if k < 7 then { h with pc := .writeReply (k + 1) a } else h.settle a

def stop (h : Host) : Host := { h with pc := .stopped }

def start (h : Host) : Host := ⟨.setup 0, h.csv, h.csv⟩

end Host

def Pc.Exchanging : Pc → Prop
  | .readInput .. | .writeStatus .. | .writeReply .. => True
  | _ => False

def Pc.Free : Pc → Prop
  | .setup _ | .head => True
  | _ => False

def IsMessage (valRead : BitVec 8) : Prop := valRead = 1 ∨ valRead = 2 ∨ valRead = 5

def Pc.Bounded : Pc → Prop
  | .setup k | .writeReply k _ => k < 8
  | .confirm valRead cnt => IsMessage valRead ∧ cnt < 3
  | .readInput valRead i _ => IsMessage valRead ∧ i < 8
  | _ => True

namespace Host

variable {bankID : BitVec 5} {b : BitVec 8} {h : Host}

theorem reply_cases (a : Answer) (h : Host) :
    (∃ b, a.status = some b ∧ h.reply a = { h with pc := .writeStatus b a }) ∨
      a.status = none ∧ h.reply a = { h with pc := .writeReply 0 a } := by
  unfold reply
  cases a.status with
  | some b => exact .inl ⟨b, rfl, rfl⟩
  | none => exact .inr ⟨rfl, rfl⟩

theorem answer_cases (bankID : BitVec 5) (v : BitVec 8) (inp : Block) (h : Host) :
    (∃ a, h.answer bankID v inp = h.reply a) ∨
      h.answer bankID v inp = { h with pc := .stopped } := by
  unfold answer
  simp only
  split_ifs
  · cases reconcile bankID h.dataFromCSV (decrypt64 inp) with
    | some a => exact .inl ⟨a, rfl⟩
    | none => exact .inr rfl
  · exact .inl ⟨_, rfl⟩

theorem settle_pc (a : Answer) (h : Host) : (h.settle a).pc = .head := by
  unfold settle
  cases a.update <;> rfl

theorem bounded_complete (hb : h.pc.Bounded) : (h.complete bankID b).pc.Bounded := by
  unfold complete
  cases hpc : h.pc with
  | stopped => simp [Pc.Bounded, hpc]
  | setup k =>
    simp only
    split_ifs
    · simp only [Pc.Bounded]; omega
    · trivial
  | head =>
    simp only
    split_ifs with hv
    · exact ⟨hv, by omega⟩
    · trivial
  | confirm v cnt =>
    rw [hpc] at hb
    simp only
    split_ifs with _ hc
    · exact ⟨hb.1, hc⟩
    · exact ⟨hb.1, by omega⟩
    · trivial
  | readInput v i inp =>
    rw [hpc] at hb
    simp only
    split_ifs
    · exact ⟨hb.1, by omega⟩
    · rcases answer_cases bankID v (readByte inp (i + 1) b) h with ⟨a, ha⟩ | ha
      · rw [ha]
        rcases reply_cases a h with ⟨b', -, hr⟩ | ⟨-, hr⟩ <;> simp [hr, Pc.Bounded]
      · rw [ha]
        trivial
  | writeStatus b' a => simp [Pc.Bounded]
  | writeReply k a =>
    simp only
    split_ifs
    · simp only [Pc.Bounded]; omega
    · rw [settle_pc]
      trivial

theorem exchanging_complete (hb : h.pc.Bounded) (hx : (h.complete bankID b).pc.Exchanging) :
    h.pc.Exchanging ∨ h.pc = .confirm b 2 := by
  unfold complete at hx
  cases hpc : h.pc with
  | stopped => rw [hpc] at hx; exact .inl (by rw [hpc] at hx; exact hx)
  | setup k => rw [hpc] at hx; simp only at hx; split_ifs at hx <;> exact hx.elim
  | head => rw [hpc] at hx; simp only at hx; split_ifs at hx <;> exact hx.elim
  | confirm v cnt =>
    rw [hpc] at hx hb
    simp only [Pc.Bounded] at hx hb
    split_ifs at hx with h₁ h₂
    · exact hx.elim
    · rw [h₁, show cnt = 2 by omega]
      exact .inr rfl
    · exact hx.elim
  | readInput v i inp => exact .inl trivial
  | writeStatus b' a => exact .inl trivial
  | writeReply k a => exact .inl trivial

end Host

end AtmController.Backend
