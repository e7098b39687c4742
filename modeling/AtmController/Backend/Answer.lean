import AtmController.Backend.Settling
import AtmController.Frontend.Transaction

namespace AtmController.Backend

open Slice Frontend Frontend.Atm

variable {bankID : BitVec 5} {d d' : Durable} {rows : List Row} {v x : BitVec 64} {ans : Answer}
  {acc adm : Bool} {a : Account}

def Answer.Reports (a : Answer) (acc adm : Bool) : Prop :=
  a.status = some 1 ∧ acc = true ∧ adm = false ∨ a.status = some 2 ∧ acc = false ∧ adm = false ∨
    a.status = some 3 ∧ adm = true

theorem transact_status (bankID : BitVec 5) (rows : List Row) (b : BitVec 8) (inp : Block) :
    (transact bankID rows b inp).status = some 1 ∨ (transact bankID rows b inp).status = some 2 ∨
      (transact bankID rows b inp).status = some 3 ∨
        (transact bankID rows b inp).status = some 4 := by
  unfold transact
  split
  · split_ifs <;> simp
  · simp

theorem flags_of_status {m : Main} {b : BitVec 8} (hb : b = 1 ∨ b = 2 ∨ b = 3)
    (hans : ans.status = some b) {i : AtmEdge} (h9 : i.chanAddr = 9) (hv : i.h2fValid = true)
    (hd : i.h2fData = b) :
    ∃ acc adm, (Atm.status i m).flags = (acc, adm) ∧ ans.Reports acc adm := by
  subst hd
  simp only [status, h9, hv, and_self, if_true]
  rcases hb with hb | hb | hb <;> rw [hb] at hans ⊢
  · exact ⟨true, false, rfl, .inl ⟨hans, rfl, rfl⟩⟩
  · exact ⟨false, false, rfl, .inr (.inl ⟨hans, rfl, rfl⟩)⟩
  · exact ⟨m.adequateCashInAccount, true, rfl, .inr (.inr ⟨hans, rfl⟩)⟩

def verdict (d : Durable) (v : BitVec 64) : BitVec 8 :=
  if NoteAllocator.Granted (asks d v) then 1 else 2

abbrev answerTo (bankID : BitVec 5) (d : Durable) (rows : List Row) (v : BitVec 64) : Answer :=
  transact bankID rows (verdict d v) (words v)

/-! ### What a transaction comes to -/

abbrev accountOf (bankID : BitVec 5) (rows : List Row) (v : BitVec 64) : Option Account :=
  find (v.extractLsb' 48 16) (myHash bankID (v.extractLsb' 32 16)) rows

/-- The amount is at most four fifths of the balance, and some choice of notes within stock and
limits pays it. -/
def Payable (d : Durable) (v : BitVec 64) (bal : BitVec 32) : Prop :=
  5 * (low v).toNat ≤ 4 * bal.toNat ∧ (low v).toNat ≤ d.limits.totalAmount.toNat ∧
    ∃ n₁ n₂ n₃ n₄, NoteAllocator.Payment (asks d v) (low v).toNat n₁ n₂ n₃ n₄

/-- The registers `d'` and the host after the transaction `v` on the registers `d` and the table
`rows`. -/
structure Transacted (bankID : BitVec 5) (d : Durable) (rows : List Row) (v : BitVec 64)
    (d' : Durable) (h : Host) : Prop where
  unknown : accountOf bankID rows v = none → d' = d ∧ h.Holds rows
  admin : ∀ a, accountOf bankID rows v = some a → a.isAdmin = true →
    d' = { d with stock := ⟨v.extractLsb' 24 8, v.extractLsb' 16 8, v.extractLsb' 8 8,
      v.extractLsb' 0 8⟩ } ∧ h.Holds rows
  paid : ∀ a, accountOf bankID rows v = some a → a.isAdmin = false → Payable d v a.bal →
    Leaves (asks d v) d'.stock ∧
      h.Holds (setBalance rows a.inLineNum (.ofNat 32 (a.bal.toNat - (low v).toNat))) ∧
      d'.cache.cache1 = join (high v) (.ofNat 32 (4 * (a.bal.toNat - (low v).toNat) / 5))
  refused : ∀ a, accountOf bankID rows v = some a → a.isAdmin = false → ¬ Payable d v a.bal →
    d'.stock = d.stock ∧ h.Holds rows ∧
      d'.cache.cache1 = join (high v) (.ofNat 32 (4 * a.bal.toNat / 5))

/-- The host and the ATM agree on an amount: one that is at most four fifths of a balance that is
not negative is no negative `int`. -/
theorem payable_iff {bal : BitVec 32} (hb : 0 ≤ bal.toInt) :
    Payable d v bal ↔ SuffBalUser bal (low v) ∧ NoteAllocator.Granted (asks d v) := by
  have hbal := toNat_lt_of_nonneg hb
  rw [NoteAllocator.granted_iff, Payable, SuffBalUser, toInt_of_toNat_lt hbal]
  constructor
  · rintro ⟨h45, hp⟩
    have h31 : (low v).toNat < 2 ^ 31 := by omega
    exact ⟨by rw [toInt_of_toNat_lt h31]; omega, h31, hp⟩
  · rintro ⟨h45, h31, hp⟩
    have h31 : (low v).toNat < 2 ^ 31 := h31
    rw [toInt_of_toNat_lt h31] at h45
    exact ⟨by omega, hp⟩

theorem noteBytes_congr {x y : BitVec 64} (h : low x = low y) : noteBytes x = noteBytes y := by
  have hb {k : Nat} (hk : k < 4) : byte x k = byte y k := by
    rw [← join_high_low x, ← join_high_low y, byte_join_of_lt _ _ hk, byte_join_of_lt _ _ hk, h]
  rw [noteBytes, noteBytes, hb (by decide), hb (by decide), hb (by decide), hb (by decide)]

/-! ### The four answers -/

theorem find_words (bankID : BitVec 5) (rows : List Row) (v : BitVec 64) :
    find (userID (words v).v1) (myHash bankID (unhashedPin (words v).v1)) rows =
      accountOf bankID rows v := by
  rw [accountOf, ← userID_high, ← unhashedPin_high]
  rfl

theorem answerTo_unknown (h : accountOf bankID rows v = none) :
    answerTo bankID d rows v = ⟨some 4, ⟨0, 0⟩, none⟩ := by
  rw [answerTo, transact, find_words, h]

theorem answerTo_admin (h : accountOf bankID rows v = some a) (ha : a.isAdmin = true) :
    answerTo bankID d rows v = ⟨some 3, encrypt64 ⟨low v, 0⟩, none⟩ := by
  rw [answerTo, transact, find_words, h]
  simp only [ha, if_true, packNotes_num]
  rfl

theorem answerTo_paid (h : accountOf bankID rows v = some a) (ha : a.isAdmin = false)
    (hs : SuffBalUser a.bal (low v)) (hg : NoteAllocator.Granted (asks d v)) :
    answerTo bankID d rows v = ⟨some 1, encrypt64 ⟨percent (a.bal - low v), 0⟩,
      some (a.inLineNum, a.bal - low v)⟩ := by
  have hs' : SuffBalUser a.bal (words v).v0 := hs
  rw [answerTo, transact, find_words, h]
  simp only [ha, Bool.false_eq_true, if_false, if_pos hs', verdict, if_pos hg, if_true]
  rfl

theorem answerTo_refused (h : accountOf bankID rows v = some a) (ha : a.isAdmin = false)
    (hn : ¬ (SuffBalUser a.bal (low v) ∧ NoteAllocator.Granted (asks d v))) :
    (answerTo bankID d rows v).befEncSen = encrypt64 ⟨percent a.bal, 0⟩ ∧
      (answerTo bankID d rows v).update = none ∧
      ((answerTo bankID d rows v).status = some 2 ∨ (answerTo bankID d rows v).status = some 1 ∧
        ¬ NoteAllocator.Granted (asks d v)) := by
  by_cases hs : SuffBalUser a.bal (words v).v0
  · have hg : ¬ NoteAllocator.Granted (asks d v) := fun hg => hn ⟨hs, hg⟩
    have hv : verdict d v = 2 := if_neg hg
    rw [answerTo, hv, transact, find_words, h]
    simp only [ha, Bool.false_eq_true, if_false, if_pos hs]
    exact ⟨rfl, rfl, .inr ⟨rfl, hg⟩⟩
  · rw [answerTo, transact, find_words, h]
    simp only [ha, Bool.false_eq_true, if_false, if_neg hs, true_or, and_self]

theorem status_four_iff : (answerTo bankID d rows v).status = some 4 ↔
    accountOf bankID rows v = none := by
  refine ⟨fun hs => ?_, fun h => by rw [answerTo_unknown h]⟩
  by_contra hne
  obtain ⟨a, ha⟩ := Option.ne_none_iff_exists'.mp hne
  cases hadm : a.isAdmin with
  | true => simp [answerTo_admin ha hadm] at hs
  | false =>
    by_cases hp : SuffBalUser a.bal (low v) ∧ NoteAllocator.Granted (asks d v)
    · simp [answerTo_paid ha hadm hp.1 hp.2] at hs
    · rcases (answerTo_refused ha hadm hp).2.2 with h2 | ⟨h1, -⟩
      · exact absurd (h2.symm.trans hs) (by decide)
      · exact absurd (h1.symm.trans hs) (by decide)

theorem known_of_reports (h : (answerTo bankID d rows v).Reports acc adm) :
    accountOf bankID rows v ≠ none := by
  intro hn
  have hs : (answerTo bankID d rows v).status = some 4 := status_four_iff.mpr hn
  rcases h with ⟨h1, -⟩ | ⟨h2, -⟩ | ⟨h3, -⟩
  · exact absurd (h1.symm.trans hs) (by decide)
  · exact absurd (h2.symm.trans hs) (by decide)
  · exact absurd (h3.symm.trans hs) (by decide)

theorem transacted_of_unknown {h : Host} (hn : accountOf bankID rows v = none)
    (hh : h.Holds rows) : Transacted bankID d rows v d h where
  unknown := fun _ => ⟨rfl, hh⟩
  admin := fun _ ha => absurd (hn.symm.trans ha) (by simp)
  paid := fun _ ha => absurd (hn.symm.trans ha) (by simp)
  refused := fun _ ha => absurd (hn.symm.trans ha) (by simp)

theorem settled_of_none {h : Host} (hu : ans.update = none) (hh : h.Holds (ans.settled rows)) :
    h.Holds rows := by
  rwa [Answer.settled, hu] at hh

theorem transacted_of_comes {h : Host} (hrows : ∀ r ∈ rows, 0 ≤ r.balance.toInt)
    (hrep : (answerTo bankID d rows v).Reports acc adm)
    (hc : Comes d v (answerTo bankID d rows v).message acc adm d')
    (hh : h.Holds ((answerTo bankID d rows v).settled rows)) :
    Transacted bankID d rows v d' h := by
  have hbal {a : Account} (ha : accountOf bankID rows v = some a) : 0 ≤ a.bal.toInt := by
    obtain ⟨r, hr, hb⟩ := exists_of_find ha
    rw [← hb]
    exact hrows r (List.mem_of_getElem? hr)
  constructor
  · exact fun hf => absurd hf (known_of_reports hrep)
  · intro a hf ha
    rw [answerTo_admin hf ha] at hrep hc hh
    have hadm : adm = true := by
      rcases hrep with ⟨hs, -⟩ | ⟨hs, -⟩ | ⟨-, h⟩
      · exact absurd hs (by simp)
      · exact absurd hs (by simp)
      · exact h
    rw [Comes, if_pos hadm, noteBytes_congr (low_decipher_message rfl)] at hc
    exact ⟨hc, settled_of_none rfl hh⟩
  · intro a hf ha hp
    obtain ⟨hs, hg⟩ := (payable_iff (hbal hf)).mp hp
    have hle := hp.1
    have hlt := toNat_lt_of_nonneg (hbal hf)
    have hsub : (a.bal - low v).toNat = a.bal.toNat - (low v).toNat :=
      BitVec.toNat_sub_of_le (show (low v).toNat ≤ a.bal.toNat by omega)
    rw [answerTo_paid hf ha hs hg] at hrep hc hh
    obtain ⟨rfl, rfl⟩ : acc = true ∧ adm = false := by
      rcases hrep with ⟨-, h⟩ | ⟨hs, -⟩ | ⟨hs, -⟩
      · exact h
      · exact absurd hs (by simp)
      · exact absurd hs (by simp)
    rw [Comes, if_neg Bool.false_ne_true, if_pos ⟨rfl, hg⟩, low_decipher_message rfl,
      percent_eq (by omega), hsub] at hc
    rw [Answer.settled] at hh
    exact ⟨hc.2, by rwa [← hsub, BitVec.ofNat_toNat, BitVec.setWidth_eq], hc.1⟩
  · intro a hf ha hp
    have hlt := toNat_lt_of_nonneg (hbal hf)
    obtain ⟨hmsg, hupd, hst⟩ := answerTo_refused hf ha fun h => hp ((payable_iff (hbal hf)).mpr h)
    obtain ⟨rfl, hn⟩ : adm = false ∧ ¬ (acc = true ∧ NoteAllocator.Granted (asks d v)) := by
      rcases hrep with ⟨hs, rfl, rfl⟩ | ⟨hs, rfl, rfl⟩ | ⟨hs, -⟩
      · refine ⟨rfl, fun h => ?_⟩
        rcases hst with h2 | ⟨-, hg⟩
        · exact absurd (hs.symm.trans h2) (by decide)
        · exact hg h.2
      · exact ⟨rfl, fun h => Bool.false_ne_true h.1⟩
      · rcases hst with h2 | ⟨h1, -⟩
        · exact absurd (hs.symm.trans h2) (by decide)
        · exact absurd (hs.symm.trans h1) (by decide)
    rw [Comes, if_neg Bool.false_ne_true, if_neg hn, low_decipher_message hmsg,
      percent_eq hlt] at hc
    exact ⟨hc.2, settled_of_none hupd hh, hc.1⟩

end AtmController.Backend
