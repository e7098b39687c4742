import AtmController.Backend.Authentication
import AtmController.Frontend.Cipher

namespace AtmController.Backend

open Slice

def Answer.message (a : Answer) : BitVec 64 := join a.befEncSen.v1 a.befEncSen.v0

def Answer.settled (a : Answer) (rows : List Row) : List Row :=
  match a.update with
  | some (inLineNum, bal) => setBalance rows inLineNum bal
  | none => rows

structure Host.Holds (rows : List Row) (h : Host) : Prop where
  dataFromCSV : h.dataFromCSV = rows
  csv : h.csv = rows

namespace Host

variable {bankID : BitVec 5} {b : BitVec 8} {rows : List Row} {h : Host} {a : Answer}

theorem Holds.settle (hh : h.Holds rows) :
    (h.settle a).Holds (a.settled rows) ∧ (h.settle a).pc = .head := by
  refine ⟨?_, settle_pc a h⟩
  obtain ⟨rfl, hc⟩ := hh
  unfold Host.settle Answer.settled
  cases a.update with
  | none => exact ⟨rfl, hc⟩
  | some u => exact ⟨rfl, rfl⟩

theorem Holds.reply (hh : h.Holds rows) : (h.reply a).Holds rows := by
  rcases reply_cases a h with ⟨b, -, hr⟩ | ⟨-, hr⟩ <;> rw [hr] <;> exact ⟨hh.1, hh.2⟩

theorem Holds.complete (hh : h.Holds rows) (hpc : ∀ k a, h.pc = .writeReply k a → k < 7) :
    (h.complete bankID b).Holds rows := by
  unfold Host.complete
  cases hp : h.pc with
  | stopped => exact hh
  | readInput v i inp =>
    simp only
    split_ifs
    · exact ⟨hh.1, hh.2⟩
    · rcases answer_cases bankID v (readByte inp (i + 1) b) h with ⟨a, ha⟩ | ha <;> rw [ha]
      · exact hh.reply
      · exact ⟨hh.1, hh.2⟩
  | writeReply k a =>
    simp only [if_pos (hpc k a hp)]
    exact ⟨hh.1, hh.2⟩
  | _ => exact ⟨hh.1, hh.2⟩

theorem Holds.exists_complete (hh : h.Holds rows) :
    ∃ rows', (h.complete bankID b).Holds rows' := by
  by_cases hpc : ∀ k a, h.pc = .writeReply k a → k < 7
  · exact ⟨rows, hh.complete hpc⟩
  · push Not at hpc
    obtain ⟨k, a, hpc, hk⟩ := hpc
    simp only [Host.complete, hpc, if_neg (by omega : ¬ k < 7)]
    exact ⟨_, hh.settle.1⟩

theorem polling_of_complete {v : BitVec 8} {cnt : Nat}
    (hpc : (h.complete bankID b).pc = .confirm v cnt) :
    h.pc = .head ∨ ∃ v cnt, h.pc = .confirm v cnt := by
  unfold Host.complete at hpc
  cases hp : h.pc with
  | head => exact .inl rfl
  | confirm v cnt => exact .inr ⟨v, cnt, rfl⟩
  | stopped => simp [hp] at hpc
  | setup k =>
    simp only [hp] at hpc
    split_ifs at hpc
  | readInput v i inp =>
    simp only [hp] at hpc
    split_ifs at hpc
    rcases answer_cases bankID v (readByte inp (i + 1) b) h with ⟨a, ha⟩ | ha <;> rw [ha] at hpc
    · rcases reply_cases a h with ⟨_, -, hr⟩ | ⟨-, hr⟩ <;> simp [hr] at hpc
    · simp at hpc
  | writeStatus b a => simp [hp] at hpc
  | writeReply k a =>
    simp only [hp] at hpc
    split_ifs at hpc
    simp [settle_pc] at hpc

end Host

theorem reconcile_status {bankID : BitVec 5} {rows : List Row} {inp : Block} {a : Answer}
    (h : reconcile bankID rows inp = some a) : a.status = none := by
  unfold reconcile at h
  split at h
  · split at h
    · exact absurd h (by simp)
    · rw [← Option.some.inj h]
  · rw [← Option.some.inj h]

variable {bankID : BitVec 5} {rows : List Row} {a : Account} {u p : BitVec 16}

theorem myHash_zero (bankID : BitVec 5) : myHash bankID 0 = 0 := by
  simp [myHash]

theorem setBalance_eq_self_iff {n : Nat} {r : Row} {bal : BitVec 32} (h : rows[n]? = some r) :
    setBalance rows n bal = rows ↔ bal = r.balance := by
  constructor
  · intro he
    have hn : (setBalance rows n bal)[n]? = some { r with balance := bal } := by
      simp [setBalance, h]
    rw [he, h, Option.some.injEq] at hn
    exact congrArg Row.balance hn.symm
  · rintro rfl
    refine List.ext_getElem? fun m => ?_
    rw [setBalance, List.getElem?_modify]
    split_ifs with hm
    · subst hm
      rw [h]
      rfl
    · simp

theorem percent_eq_zero_iff (bal : BitVec 32) :
    percent bal = 0 ↔ -1 ≤ bal.toInt ∧ bal.toInt ≤ 1 := by
  have hlo := bal.le_toInt
  have hhi := bal.toInt_lt
  obtain ⟨q, hq⟩ : ∃ q, (4 * bal.toInt).tdiv 5 = q := ⟨_, rfl⟩
  have hdiv : q = 4 * bal.toInt / 5 + if 0 ≤ 4 * bal.toInt ∨ 5 ∣ 4 * bal.toInt then 0 else 1 := by
    rw [← hq, Int.tdiv_eq_ediv]
    rfl
  have hint : (percent bal).toInt = q := by
    rw [percent, hq, BitVec.toInt_ofInt]
    split_ifs at hdiv <;> exact Int.bmod_eq_of_le (by omega) (by omega)
  rw [← BitVec.toInt_inj, hint, show (0 : BitVec 32).toInt = 0 from BitVec.toInt_zero]
  split_ifs at hdiv <;> omega

theorem finalBal_zero (bal : BitVec 32) : finalBal bal 0 = bal - percent bal := by
  simp [finalBal, percent]

/-- No account is that of the zero record, or it is one that the exchange leaves alone: the host
returns on an administrator, and four fifths of -1, 0 and 1 are 0. -/
def Inert (rows : List Row) : Prop :=
  ∀ a ∈ find 0 0 rows, a.isAdmin = true ∨ -1 ≤ a.bal.toInt ∧ a.bal.toInt ≤ 1

instance (rows : List Row) : Decidable (Inert rows) := inferInstanceAs (Decidable (∀ _ ∈ _, _))

theorem reconcile_zero (bankID : BitVec 5) (rows : List Row) :
    reconcile bankID rows (Frontend.words 0) =
      match find 0 0 rows with
      | some a =>
        if a.isAdmin then none
        else some ⟨none, encrypt64 ⟨percent (a.bal - percent a.bal), 0⟩,
          some (a.inLineNum, a.bal - percent a.bal)⟩
      | none => some ⟨none, encrypt64 ⟨0, 0⟩, none⟩ := by
  have hu : userID (Frontend.words 0).v1 = 0 := by decide
  have hp : unhashedPin (Frontend.words 0).v1 = 0 := by decide
  have hw : (Frontend.words 0).v0 = 0 := by decide
  cases hf : find 0 0 rows with
  | none => simp only [reconcile, hu, hp, myHash_zero, hf]
  | some a => simp only [reconcile, hu, hp, hw, myHash_zero, finalBal_zero, hf]

theorem low_decipher_message {ans : Answer} {w : BitVec 32} (h : ans.befEncSen = encrypt64 ⟨w, 0⟩) :
    low (Frontend.decipher ans.message) = w := by
  have hm : ans.message = Frontend.encipher (join 0 w) := by
    rw [Answer.message, h, Frontend.encipher, Frontend.words, low_join, high_join]
    rfl
  rw [hm, Frontend.decipher_encipher, low_join]

theorem settled_eq_self_iff {ans : Answer} (h : reconcile bankID rows (Frontend.words 0) = some ans) :
    ans.settled rows = rows ∧ low (Frontend.decipher ans.message) = 0 ↔ Inert rows := by
  rw [reconcile_zero] at h
  unfold Inert
  cases hf : find 0 0 rows with
  | none =>
    rw [hf] at h
    obtain rfl := Option.some.inj h
    exact iff_of_true ⟨rfl, low_decipher_message rfl⟩ fun a ha => absurd ha (by simp)
  | some a =>
    obtain ⟨r, hr, hb⟩ := exists_of_find hf
    rw [hf] at h
    simp only at h
    split_ifs at h with hadm
    obtain rfl := Option.some.inj h
    have hs : setBalance rows a.inLineNum (a.bal - percent a.bal) = rows ↔ percent a.bal = 0 := by
      rw [setBalance_eq_self_iff hr, hb, sub_eq_self]
    rw [low_decipher_message rfl]
    simp only [Answer.settled, hs, Option.mem_def, Option.some.injEq, forall_eq', hadm,
      false_or, Bool.false_eq_true, ← percent_eq_zero_iff, and_iff_left_iff_imp]
    intro h0
    rw [h0, sub_zero, h0]

end AtmController.Backend
