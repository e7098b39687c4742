import AtmController.Backend.Database

namespace AtmController.Backend

open Slice

variable {bankID : BitVec 5} {rows : List Row} {u h p q : BitVec 16} {a : Account} {n k : Nat}

/-! ### The hash -/

def hashPos (bankID : BitVec 5) (i : Nat) : Nat := (i + bankID.toNat % 16) % 16

theorem myHash_eq (bankID : BitVec 5) (p : BitVec 16) :
    myHash bankID p = (List.range 16).foldl (fun ret i =>
      if p &&& 1#16 <<< i ≠ 0 then ret + 1#16 <<< hashPos bankID i else ret) 0 := rfl

theorem hashPos_injective (bankID : BitVec 5) :
    ∀ i < 16, ∀ j < 16, hashPos bankID i = hashPos bankID j → i = j := by
  intro i hi j hj he
  rw [hashPos, hashPos] at he
  omega

theorem getLsbD_myHash (bankID : BitVec 5) (p : BitVec 16) (hk : k < 16) :
    (myHash bankID p).getLsbD (hashPos bankID k) = p.getLsbD k := by
  have hlt : hashPos bankID k < 16 := Nat.mod_lt _ (by decide)
  rw [Bool.eq_iff_iff, myHash_eq, getLsbD_foldl_add (hashPos_injective bankID) hlt]
  simp only [and_one_shiftLeft_ne_zero]
  constructor
  · rintro ⟨j, hj, hb, he⟩
    rwa [← hashPos_injective bankID j hj k hk he]
  · exact fun hb => ⟨k, hk, hb, rfl⟩

theorem myHash_injective (bankID : BitVec 5) (h : myHash bankID p = myHash bankID q) : p = q := by
  apply BitVec.eq_of_getLsbD_eq
  intro k hk
  rw [← getLsbD_myHash bankID p hk, h, getLsbD_myHash bankID q hk]

theorem myHash_eq_rotateLeft (bankID : BitVec 5) (p : BitVec 16) :
    myHash bankID p = p.rotateLeft (bankID.toNat % 16) := by
  have hs : bankID.toNat % 16 < 16 := Nat.mod_lt _ (by decide)
  have hpos (i : Nat) : hashPos bankID i = (i + bankID.toNat % 16) % 16 := rfl
  apply BitVec.eq_of_getLsbD_eq
  intro k hk
  rw [BitVec.getLsbD_rotateLeft_of_le hs]
  by_cases hlt : k < bankID.toNat % 16
  · have hi : hashPos bankID (16 - bankID.toNat % 16 + k) = k := by rw [hpos]; omega
    have hbit := getLsbD_myHash bankID p (k := 16 - bankID.toNat % 16 + k) (by omega)
    rw [hi] at hbit
    simp only [hbit, hlt, decide_true, cond_true]
  · have hi : hashPos bankID (k - bankID.toNat % 16) = k := by rw [hpos]; omega
    have hbit := getLsbD_myHash bankID p (k := k - bankID.toNat % 16) (by omega)
    rw [hi] at hbit
    simp only [hbit, hlt, hk, decide_false, decide_true, cond_false, Bool.true_and]

/-! ### The search -/

theorem findFrom_eq_some_iff : findFrom u h n rows = some a ↔
    ∃ k r, rows[k]? = some r ∧ r.Matches u h ∧ (∀ j < k, ∀ r ∈ rows[j]?, ¬ r.Matches u h) ∧
      a = ⟨n + k, r.admin = 1, r.balance⟩ := by
  induction rows generalizing n with
  | nil => simp [findFrom]
  | cons r rs ih =>
    rw [findFrom]
    by_cases hr : r.Matches u h
    · rw [if_pos hr, Option.some.injEq]
      constructor
      · rintro rfl
        exact ⟨0, r, rfl, hr, fun j hj => absurd hj (Nat.not_lt_zero j), rfl⟩
      · rintro ⟨k, r', hk, -, hfirst, rfl⟩
        cases k with
        | zero =>
          obtain rfl : r = r' := Option.some.inj hk
          rfl
        | succ k => exact absurd hr (hfirst 0 (Nat.succ_pos k) r rfl)
    · rw [if_neg hr, ih]
      constructor
      · rintro ⟨k, r', hk, hm, hfirst, rfl⟩
        refine ⟨k + 1, r', hk, hm, fun j hj r'' hr'' => ?_, by rw [Nat.add_assoc, Nat.add_comm 1]⟩
        cases j with
        | zero =>
          obtain rfl : r = r'' := Option.some.inj hr''
          exact hr
        | succ j => exact hfirst j (by omega) r'' hr''
      · rintro ⟨k, r', hk, hm, hfirst, rfl⟩
        cases k with
        | zero =>
          obtain rfl : r = r' := Option.some.inj hk
          exact absurd hm hr
        | succ k =>
          exact ⟨k, r', hk, hm, fun j hj => hfirst (j + 1) (by omega),
            by rw [Nat.add_assoc, Nat.add_comm 1]⟩

theorem exists_of_find (ha : find u h rows = some a) :
    ∃ r, rows[a.inLineNum]? = some r ∧ r.balance = a.bal := by
  obtain ⟨k, r, hr, -, -, rfl⟩ := findFrom_eq_some_iff.mp ha
  exact ⟨r, by rw [Nat.zero_add]; exact hr, rfl⟩

theorem find_setBalance {bal : BitVec 32} (ha : find u h rows = some a) :
    find u h (setBalance rows a.inLineNum bal) = some { a with bal := bal } := by
  obtain ⟨k, r, hr, hm, hfirst, rfl⟩ := findFrom_eq_some_iff.mp ha
  rw [Nat.zero_add]
  refine findFrom_eq_some_iff.mpr
    ⟨k, { r with balance := bal }, ?_, hm, fun j hj r' hr' => ?_, by rw [Nat.zero_add]⟩
  · rw [setBalance, List.getElem?_modify_eq, hr]
    rfl
  · rw [setBalance, List.getElem?_modify_ne _ _ hj.ne'] at hr'
    exact hfirst j hj r' hr'

theorem find_eq_some_iff {row : Nat → Row} : find u h ((List.range' 1 n).map row) = some a ↔
    ∃ i, 1 ≤ i ∧ i ≤ n ∧ (row i).Matches u h ∧ (∀ j, 1 ≤ j → j < i → ¬ (row j).Matches u h) ∧
      a = ⟨i - 1, (row i).admin = 1, (row i).balance⟩ := by
  have hget (k : Nat) (r : Row) :
      ((List.range' 1 n).map row)[k]? = some r ↔ k < n ∧ row (k + 1) = r := by
    by_cases hk : k < n
    · rw [List.getElem?_map, List.getElem?_range' hk, Nat.one_mul, Nat.add_comm 1]
      simp [hk]
    · rw [List.getElem?_eq_none (by simpa using hk)]
      simp [hk]
  rw [find, findFrom_eq_some_iff]
  constructor
  · rintro ⟨k, r, hk, hm, hfirst, rfl⟩
    obtain ⟨hlt, rfl⟩ := (hget k r).mp hk
    refine ⟨k + 1, by omega, by omega, hm, fun j h1 hj => ?_,
      by rw [Nat.zero_add, Nat.add_sub_cancel]⟩
    have hj' := (hget (j - 1) (row j)).mpr ⟨by omega, by rw [Nat.sub_add_cancel h1]⟩
    exact hfirst (j - 1) (by omega) (row j) hj'
  · rintro ⟨i, h1, hi, hm, hfirst, rfl⟩
    refine ⟨i - 1, row i, (hget _ _).mpr ⟨by omega, by rw [Nat.sub_add_cancel h1]⟩, hm,
      fun j hj r hr => ?_, by rw [Nat.zero_add]⟩
    obtain ⟨-, rfl⟩ := (hget j r).mp hr
    exact hfirst (j + 1) (by omega) (by omega)

theorem exists_find_of_matches {row : Nat → Row} {i : Nat} (h1 : 1 ≤ i) (hi : i ≤ n)
    (hm : (row i).Matches u h) : ∃ a, find u h ((List.range' 1 n).map row) = some a := by
  have hex : ∃ i, 1 ≤ i ∧ i ≤ n ∧ (row i).Matches u h := ⟨i, h1, hi, hm⟩
  obtain ⟨h1', hi', hm'⟩ := Nat.find_spec hex
  refine ⟨_, find_eq_some_iff.mpr ⟨Nat.find hex, h1', hi', hm', fun j hj hlt hmj => ?_, rfl⟩⟩
  exact Nat.find_min hex hlt ⟨hj, by omega, hmj⟩

namespace Table

def row (t : Table) (i : Nat) : Row :=
  ⟨t.dataFromCSV i 0, t.dataFromCSV i 1, t.dataFromCSV i 2, t.dataFromCSV i 3⟩

theorem rows_eq (t : Table) : t.rows = (List.range' 1 t.numLines.toNat).map t.row := rfl

def Authenticates (t : Table) (bankID : BitVec 5) (userID pin : BitVec 16) (i : Nat) : Prop :=
  1 ≤ i ∧ (i : Int) ≤ t.numLines ∧ (t.dataFromCSV i 0).setWidth 16 = userID ∧
    (t.dataFromCSV i 1).setWidth 16 = pin.rotateLeft (bankID.toNat % 16)

theorem authenticates_iff (t : Table) (bankID : BitVec 5) (userID pin : BitVec 16) (i : Nat) :
    t.Authenticates bankID userID pin i ↔
      1 ≤ i ∧ i ≤ t.numLines.toNat ∧ (t.row i).Matches userID (myHash bankID pin) := by
  rw [Authenticates, Row.Matches, myHash_eq_rotateLeft, eq_comm (a := userID),
    eq_comm (a := pin.rotateLeft _)]
  refine and_congr_right fun h1 => and_congr_left fun _ => ?_
  omega

/-- A user is found exactly when some line has the low half of its ID and the rotation of its PIN as
the low half of the hash; the first such line is returned, which `inLineNum` counts from 0, with its
balance and its flag; and a line is that of one PIN at most. -/
theorem authentication_exact (t : Table) (bankID : BitVec 5) (userID pin : BitVec 16) :
    ((find userID (myHash bankID pin) t.rows).isSome = true ↔
      ∃ i, t.Authenticates bankID userID pin i) ∧
    (∀ a, find userID (myHash bankID pin) t.rows = some a →
      t.Authenticates bankID userID pin (a.inLineNum + 1) ∧
      (∀ i, t.Authenticates bankID userID pin i → a.inLineNum + 1 ≤ i) ∧
      a.bal = t.dataFromCSV (a.inLineNum + 1) 3 ∧
      (a.isAdmin = true ↔ t.dataFromCSV (a.inLineNum + 1) 2 = 1)) ∧
    ∀ i userID' pin', t.Authenticates bankID userID pin i →
      t.Authenticates bankID userID' pin' i → pin' = pin := by
  simp only [authenticates_iff, rows_eq]
  refine ⟨?_, fun a ha => ?_, ?_⟩
  · rw [Option.isSome_iff_exists]
    constructor
    · rintro ⟨a, ha⟩
      obtain ⟨i, h1, hi, hm, -, -⟩ := find_eq_some_iff.mp ha
      exact ⟨i, h1, hi, hm⟩
    · rintro ⟨i, h1, hi, hm⟩
      exact exists_find_of_matches h1 hi hm
  · obtain ⟨i, h1, hi, hm, hfirst, rfl⟩ := find_eq_some_iff.mp ha
    rw [Nat.sub_add_cancel h1]
    refine ⟨⟨h1, hi, hm⟩, fun j ⟨hj, _, hmj⟩ => ?_, rfl, decide_eq_true_iff⟩
    by_contra hlt
    exact hfirst j hj (by omega) hmj
  · rintro i userID' pin' ⟨-, -, -, hp⟩ ⟨-, -, -, hp'⟩
    exact myHash_injective bankID (hp'.trans hp.symm)

end Table

end AtmController.Backend
