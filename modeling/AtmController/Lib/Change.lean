import Mathlib.Tactic.Ring
import Mathlib.Algebra.Order.Ring.Nat

/-! Making change from a till with a bounded number of coins of each value. When the values
form a divisibility chain, paying greedily from the largest value down finds a payment
whenever there is one, and one with the fewest coins. -/

namespace Change

/-- A till: coin values with the number of coins of each. -/
abbrev Till := List (Nat × Nat)

def Pays : Till → List Nat → Nat → Prop
  | [], [], a => a = 0
  | (v, b) :: t, x :: xs, a => x ≤ b ∧ v * x ≤ a ∧ Pays t xs (a - v * x)
  | _, _, _ => False

/-- As many coins of each value as the till and the rest of the amount allow. -/
def greedy : Till → Nat → List Nat
  | [], _ => []
  | (v, b) :: t, a => min b (a / v) :: greedy t (a - v * min b (a / v))

/-- Each value divides the values before it, and all are positive. -/
inductive IsChain : Till → Prop
  | nil : IsChain []
  | cons : 0 < v → (∀ p ∈ t, p.1 ∣ v) → IsChain t → IsChain ((v, b) :: t)

theorem exists_pays_sub {t : Till} (ht : IsChain t) {xs : List Nat} {a u : Nat}
    (hu : 0 < u) (hd : ∀ p ∈ t, p.1 ∣ u) (h : Pays t xs a) (hua : u ≤ a) :
    ∃ ys, Pays t ys (a - u) ∧ ys.sum + 1 ≤ xs.sum := by
  induction ht generalizing xs a u with
  | nil =>
    cases xs with
    | nil => exact absurd h (show ¬ a = 0 by omega)
    | cons x xs => exact absurd h id
  | @cons v t b hv hdv _ ih =>
    cases xs with
    | nil => exact absurd h id
    | cons x xs =>
      obtain ⟨hx, hxa, hp⟩ := h
      have hvu : v ∣ u := hd (v, b) (by simp)
      obtain ⟨m, rfl⟩ := hvu
      have hm : 0 < m := Nat.pos_of_mul_pos_left hu
      by_cases hmx : m ≤ x
      · obtain ⟨y, rfl⟩ := Nat.exists_eq_add_of_le hmx
        have hmul : v * (m + y) = v * m + v * y := by ring
        refine ⟨y :: xs, ⟨by omega, by omega, ?_⟩, by simp; omega⟩
        rwa [show a - v * m - v * y = a - v * (m + y) by omega]
      · obtain ⟨y, rfl⟩ := Nat.exists_eq_add_of_lt (Nat.lt_of_not_le hmx)
        have hmul : v * (x + y + 1) = v * x + v * (y + 1) := by ring
        have hpos : 0 < v * (y + 1) := Nat.mul_pos hv (Nat.succ_pos y)
        obtain ⟨ys, hys, hsum⟩ := ih hpos
          (fun p hp => (hdv p hp).mul_right (y + 1)) hp (by omega)
        refine ⟨0 :: ys, ⟨by omega, by omega, ?_⟩, by simp; omega⟩
        rwa [Nat.mul_zero, Nat.sub_zero,
          show a - v * (x + y + 1) = a - v * x - v * (y + 1) by omega]

theorem exists_pays_sub_mul {t : Till} (ht : IsChain t) {u : Nat} (hu : 0 < u)
    (hd : ∀ p ∈ t, p.1 ∣ u) (k : Nat) {xs : List Nat} {a : Nat} (h : Pays t xs a)
    (hua : u * k ≤ a) : ∃ ys, Pays t ys (a - u * k) ∧ ys.sum + k ≤ xs.sum := by
  induction k with
  | zero => exact ⟨xs, by simpa using h, by simp⟩
  | succ k ih =>
    have hmul : u * (k + 1) = u * k + u := by ring
    obtain ⟨ys, hys, hsum⟩ := ih (by omega)
    obtain ⟨zs, hzs, hsum'⟩ := exists_pays_sub ht hu hd hys (by omega)
    exact ⟨zs, by rwa [hmul, ← Nat.sub_sub], by omega⟩

theorem greedy_pays {t : Till} (ht : IsChain t) {xs : List Nat} {a : Nat} (h : Pays t xs a) :
    Pays t (greedy t a) a ∧ (greedy t a).sum ≤ xs.sum := by
  induction ht generalizing xs a with
  | nil =>
    cases xs with
    | nil => exact ⟨h, Nat.le_refl _⟩
    | cons x xs => exact absurd h id
  | @cons v t b hv hdv ht ih =>
    cases xs with
    | nil => exact absurd h id
    | cons x xs =>
      obtain ⟨hx, hxa, hp⟩ := h
      have hle : x ≤ a / v := (Nat.le_div_iff_mul_le hv).mpr (by rwa [Nat.mul_comm])
      obtain ⟨k, hk⟩ := Nat.exists_eq_add_of_le (le_min hx hle)
      have hmul : v * min b (a / v) = v * x + v * k := by rw [hk]; ring
      have hga : v * min b (a / v) ≤ a :=
        (Nat.mul_le_mul_left v (min_le_right _ _)).trans (Nat.mul_div_le a v)
      obtain ⟨ys, hys, hsum⟩ := exists_pays_sub_mul ht hv hdv k hp (by omega)
      rw [Nat.sub_sub, ← hmul] at hys
      obtain ⟨hg, hgs⟩ := ih hys
      refine ⟨⟨min_le_left _ _, hga, hg⟩, ?_⟩
      simp only [greedy, List.sum_cons]
      omega

end Change
