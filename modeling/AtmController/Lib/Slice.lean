import Mathlib.Data.BitVec

namespace Slice

/-- The assignment `v(lo + m - 1 downto lo) := x`. -/
def assign (v : BitVec n) (lo : Nat) (x : BitVec m) : BitVec n :=
  (v &&& ~~~((BitVec.allOnes m).setWidth n <<< lo)) ||| (x.setWidth n <<< lo)

theorem getLsbD_assign (v : BitVec n) (lo : Nat) (x : BitVec m) (i : Nat) (hi : i < n) :
    (assign v lo x).getLsbD i =
      if lo ≤ i ∧ i < lo + m then x.getLsbD (i - lo) else v.getLsbD i := by
  simp only [assign, BitVec.getLsbD_or, BitVec.getLsbD_and, BitVec.getLsbD_not,
    BitVec.getLsbD_shiftLeft, BitVec.getLsbD_setWidth, BitVec.getLsbD_allOnes, hi, decide_true,
    Bool.true_and]
  by_cases hlo : i < lo
  · simp [hlo]
  · have hn : i - lo < n := by omega
    by_cases hm : i - lo < m
    · simp [hlo, hn, hm, show lo ≤ i ∧ i < lo + m by omega]
    · have hx : x.getLsbD (i - lo) = false := BitVec.getLsbD_of_ge _ _ (by omega)
      simp [hlo, hn, hm, hx, show ¬ (lo ≤ i ∧ i < lo + m) by omega]

theorem extractLsb'_assign (v : BitVec n) (lo : Nat) (x : BitVec m) (h : lo + m ≤ n) :
    (assign v lo x).extractLsb' lo m = x := by
  apply BitVec.eq_of_getLsbD_eq
  intro i hi
  rw [BitVec.getLsbD_extractLsb', getLsbD_assign _ _ _ _ (by omega)]
  simp [hi]

theorem extractLsb'_assign_of_disjoint (v : BitVec n) (lo : Nat) (x : BitVec m) (a k : Nat)
    (h : a + k ≤ n) (hd : a + k ≤ lo ∨ lo + m ≤ a) :
    (assign v lo x).extractLsb' a k = v.extractLsb' a k := by
  apply BitVec.eq_of_getLsbD_eq
  intro i hi
  rw [BitVec.getLsbD_extractLsb', BitVec.getLsbD_extractLsb', getLsbD_assign _ _ _ _ (by omega),
    if_neg (by omega)]

def low (v : BitVec 64) : BitVec 32 := v.extractLsb' 0 32

def high (v : BitVec 64) : BitVec 32 := v.extractLsb' 32 32

def join (hi lo : BitVec 32) : BitVec 64 := hi ++ lo

@[simp] theorem low_join (hi lo : BitVec 32) : low (join hi lo) = lo := by
  apply BitVec.eq_of_getLsbD_eq
  intro i hi'
  simp only [low, join, BitVec.getLsbD_extractLsb', BitVec.getLsbD_append, hi', decide_true,
    Bool.true_and, Nat.zero_add, if_true]

@[simp] theorem high_join (hi lo : BitVec 32) : high (join hi lo) = hi := by
  apply BitVec.eq_of_getLsbD_eq
  intro i hi'
  simp only [high, join, BitVec.getLsbD_extractLsb', BitVec.getLsbD_append, hi', decide_true,
    Bool.true_and, show ¬ 32 + i < 32 by omega, if_false, Nat.add_sub_cancel_left]

@[simp] theorem join_high_low (v : BitVec 64) : join (high v) (low v) = v := by
  apply BitVec.eq_of_getLsbD_eq
  intro i hi
  simp only [high, low, join, BitVec.getLsbD_append, BitVec.getLsbD_extractLsb']
  by_cases h : i < 32
  · simp [h]
  · simp [h, show i - 32 < 32 by omega, show 32 + (i - 32) = i by omega]

theorem extractLsb'_high (v : BitVec 64) {lo m : Nat} (h : lo + m ≤ 32) :
    (high v).extractLsb' lo m = v.extractLsb' (32 + lo) m := by
  apply BitVec.eq_of_getLsbD_eq
  intro i hi
  simp only [high, BitVec.getLsbD_extractLsb', hi, decide_true, Bool.true_and,
    show lo + i < 32 by omega, Nat.add_assoc]

/-- Byte `k` of a vector, counted from the least significant one. -/
def byte (v : BitVec n) (k : Nat) : BitVec 8 := v.extractLsb' (8 * k) 8

theorem byte_assign (v : BitVec n) (b : BitVec 8) {k : Nat} (h : 8 * k + 8 ≤ n) :
    byte (assign v (8 * k) b) k = b := extractLsb'_assign v _ b h

theorem byte_assign_of_ne (v : BitVec n) (b : BitVec 8) {j k : Nat} (hj : 8 * j + 8 ≤ n)
    (h : j ≠ k) : byte (assign v (8 * k) b) j = byte v j :=
  extractLsb'_assign_of_disjoint v _ b _ _ hj (by omega)

theorem ext_bytes {m : Nat} {v w : BitVec (8 * m)} (h : ∀ k < m, byte v k = byte w k) : v = w := by
  apply BitVec.eq_of_getLsbD_eq
  intro i hi
  have hk := congrArg (fun b => b.getLsbD (i % 8)) (h (i / 8) (by omega))
  simpa [byte, BitVec.getLsbD_extractLsb', Nat.mod_lt, Nat.div_add_mod] using hk

theorem and_one_shiftLeft_ne_zero (v : BitVec n) (j : Nat) :
    v &&& 1#n <<< j ≠ 0 ↔ v.getLsbD j = true := by
  rw [← BitVec.twoPow_eq, BitVec.and_twoPow]
  cases hj : v.getLsbD j with
  | false => simp
  | true =>
    have hlt : j < n := BitVec.lt_of_getLsbD hj
    simp only [if_true, iff_true]
    intro h
    simpa [hlt] using congrArg (fun v => v.getLsbD j) h

/-- A loop that adds powers of two, each at most once, sets the bits at the places added: there are
no carries. -/
theorem getLsbD_foldl_add {p : Nat → Prop} [DecidablePred p] {pos : Nat → Nat} {n : Nat}
    (hpos : ∀ i < n, ∀ j < n, pos i = pos j → i = j) {k : Nat} (hk : k < m) :
    ((List.range n).foldl (fun (field : BitVec m) j =>
      if p j then field + 1#m <<< pos j else field) 0).getLsbD k = true ↔
      ∃ j < n, p j ∧ pos j = k := by
  induction n generalizing k with
  | zero => simp
  | succ n ih =>
    have ih {k : Nat} (hk : k < m) :=
      ih (fun i hi j hj => hpos i (by omega) j (by omega)) hk
    rw [List.range_succ, List.foldl_append, List.foldl_cons, List.foldl_nil]
    generalize (List.range n).foldl _ _ = field at ih ⊢
    have hlast : (∃ j < n + 1, p j ∧ pos j = k) ↔ (∃ j < n, p j ∧ pos j = k) ∨ p n ∧ pos n = k := by
      simp only [Nat.lt_succ_iff_lt_or_eq, or_and_right, exists_or, exists_eq_left]
    rw [hlast]
    by_cases hn : p n
    · have hdisj : field &&& BitVec.twoPow m (pos n) = 0 := by
        have hfree : ¬ field.getLsbD (pos n) = true := by
          intro hb
          obtain ⟨j, hj, -, he⟩ := (ih (BitVec.lt_of_getLsbD hb)).mp hb
          have := hpos j (by omega) n (by omega) he
          omega
        rw [BitVec.and_twoPow, if_neg hfree]
        rfl
      rw [if_pos hn, ← BitVec.twoPow_eq, BitVec.add_eq_or_of_and_eq_zero _ _ hdisj,
        BitVec.getLsbD_or, Bool.or_eq_true, ih hk, BitVec.getLsbD_twoPow, Bool.and_eq_true,
        decide_eq_true_iff, decide_eq_true_iff]
      have hlt : pos n < m ∧ pos n = k ↔ p n ∧ pos n = k :=
        and_congr_left fun he => iff_of_true (he ▸ hk) hn
      rw [hlt]
    · rw [if_neg hn, ih hk]
      simp [hn]

end Slice
