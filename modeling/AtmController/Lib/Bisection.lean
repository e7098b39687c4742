import Mathlib.Tactic.Ring
import Mathlib.Algebra.Order.Ring.Nat

namespace Bisection

/-- The predicate holds at the left end and not at the right end. -/
structure Bracket (P : Nat → Prop) (l r : Nat) : Prop where
  left : P l
  right : ¬ P r
  lt : l < r

variable {P : Nat → Prop} {l r k : Nat}

theorem Bracket.mid_eq_left (h : Bracket P l r) : (l + r) / 2 = l ↔ r = l + 1 := by
  have := h.lt
  omega

theorem Bracket.lower (h : Bracket P l r) (hm : ¬ P ((l + r) / 2)) :
    Bracket P l ((l + r) / 2) := by
  refine ⟨h.left, hm, ?_⟩
  rcases Nat.lt_or_ge l ((l + r) / 2) with hlt | hge
  · exact hlt
  · have := h.lt
    exact absurd (show P ((l + r) / 2) by rw [show (l + r) / 2 = l by omega]; exact h.left) hm

theorem Bracket.upper (h : Bracket P l r) (hm : P ((l + r) / 2)) :
    Bracket P ((l + r) / 2) r := by
  have := h.lt
  exact ⟨hm, h.right, by omega⟩

theorem width_lower (hw : r ≤ l + 2 ^ (k + 1)) : (l + r) / 2 ≤ l + 2 ^ k := by
  have : 2 ^ (k + 1) = 2 * 2 ^ k := by ring
  omega

theorem width_upper (hw : r ≤ l + 2 ^ (k + 1)) : r ≤ (l + r) / 2 + 2 ^ k := by
  have : 2 ^ (k + 1) = 2 * 2 ^ k := by ring
  omega

/-- The halvings that narrow an interval of width at most `2 ^ k` down to the place of `x`. -/
def halvings (x : Nat) : Nat → Nat → Nat → Nat
  | 0, _, _ => 0
  | k + 1, l, r =>
    if r = l + 1 then 0
    else if x < (l + r) / 2 then halvings x k l ((l + r) / 2) + 1
    else halvings x k ((l + r) / 2) r + 1

theorem halvings_of_eq {x : Nat} (h : r = l + 1) : halvings x k l r = 0 := by
  cases k with
  | zero => rfl
  | succ k => rw [halvings, if_pos h]

theorem halvings_le (x k l r : Nat) : halvings x k l r ≤ k := by
  induction k generalizing l r with
  | zero => exact le_rfl
  | succ k ih =>
    rw [halvings]
    split
    · exact Nat.zero_le _
    · split
      · exact Nat.succ_le_succ (ih _ _)
      · exact Nat.succ_le_succ (ih _ _)

end Bisection
