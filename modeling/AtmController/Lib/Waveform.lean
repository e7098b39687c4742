import Mathlib.Order.Basic
import Mathlib.Order.Nat
import Mathlib.Tactic.ByContra

namespace Waveform

variable {α : Type*}

def Shows (x : Nat → α) (v : α) (m n : Nat) : Prop := ∀ k, m ≤ k → k < n → x k = v

/-- The last of the first `n` samples; `a` stands for the one before the first. -/
def last (a : α) (x : Nat → α) : Nat → α
  | 0 => a
  | n + 1 => x n

/-- How many of the first `n` samples, counted back from the last, repeat the one before them. -/
def steady [DecidableEq α] (a : α) (x : Nat → α) : Nat → Nat
  | 0 => 0
  | n + 1 => if last a x n = x n then steady a x n + 1 else 0

/-- The output `y` is rewritten only with a level that has been steady for `w` samples, and is
rewritten when it has been so for just `w`. -/
structure Follows [DecidableEq α] (w : Nat) (a : α) (x y : Nat → α) : Prop where
  keeps : ∀ n, y (n + 1) = y n ∨ w ≤ steady a x (n + 1) ∧ y (n + 1) = last a x (n + 1)
  follows : ∀ n, steady a x (n + 1) = w → y (n + 1) = last a x (n + 1)

variable {a v : α} {x y : Nat → α} {m n w : Nat}

theorem Shows.mono {m' n' : Nat} (h : Shows x v m n) (hm : m ≤ m') (hn : n' ≤ n) :
    Shows x v m' n' := fun k hk hk' => h k (by omega) (by omega)

theorem Shows.last_eq (h : Shows x v m n) (hmn : m < n) : last a x n = v := by
  cases n with
  | zero => exact absurd hmn (Nat.not_lt_zero m)
  | succ n => exact h n (by omega) (Nat.lt_succ_self n)

variable [DecidableEq α]

theorem steady_of_eq (h : last a x n = x n) : steady a x (n + 1) = steady a x n + 1 := if_pos h

theorem steady_of_ne (h : last a x n ≠ x n) : steady a x (n + 1) = 0 := if_neg h

theorem shows_last (a : α) (x : Nat → α) (n : Nat) :
    Shows x (last a x n) (n - (steady a x n + 1)) n := by
  induction n with
  | zero => exact fun k _ hk => absurd hk (Nat.not_lt_zero k)
  | succ n ih =>
    intro k hk hkn
    rcases Nat.eq_or_lt_of_le (Nat.le_of_lt_succ hkn) with rfl | hlt
    · rfl
    · by_cases h : last a x n = x n
      · rw [steady_of_eq h] at hk
        rw [ih k (by omega) hlt, h]
        rfl
      · rw [steady_of_ne h] at hk
        omega

theorem Shows.le_steady (a : α) (h : Shows x v m n) : n - (m + 1) ≤ steady a x n := by
  induction n with
  | zero => omega
  | succ n ih =>
    rcases Nat.lt_or_ge m n with hlt | hge
    · have hprev : Shows x v m n := h.mono le_rfl (Nat.le_succ n)
      have hn : x n = v := h n (Nat.le_of_lt hlt) (Nat.lt_succ_self n)
      rw [steady_of_eq ((hprev.last_eq hlt).trans hn.symm)]
      have := ih hprev
      omega
    · omega

namespace Follows

variable (h : Follows w a x y)
include h

theorem eq_last (hw : 0 < w) (hn : w ≤ steady a x n) : y n = last a x n := by
  induction n with
  | zero => exact absurd (Nat.lt_of_lt_of_le hw hn) (Nat.lt_irrefl 0)
  | succ n ih =>
    by_cases hs : last a x n = x n
    · rw [steady_of_eq hs] at hn
      rcases Nat.eq_or_lt_of_le hn with heq | hlt
      · exact h.follows n ((steady_of_eq hs).trans heq.symm)
      · rcases h.keeps n with hk | ⟨-, hf⟩
        · rw [hk, ih (by omega), hs]
          rfl
        · exact hf
    · rw [steady_of_ne hs] at hn
      omega

theorem shows_of_change (hc : y (n + 1) ≠ y n) : Shows x (y (n + 1)) (n - w) (n + 1) := by
  rcases h.keeps n with hk | ⟨hle, hf⟩
  · exact absurd hk hc
  · rw [hf]
    exact (shows_last a x (n + 1)).mono (by omega) le_rfl

theorem eq_of_shows (hw : 0 < w) (hs : Shows x v m n) (hmn : m + w + 1 ≤ n) : y n = v := by
  have hle := hs.le_steady a
  rw [h.eq_last hw (by omega), hs.last_eq (by omega)]

theorem stays (hw : 0 < w) (hs : Shows x v m (m + w + 1)) {n : Nat} (hn : m + w + 1 ≤ n)
    (hno : ∀ k v', v' ≠ v → m + w + 1 ≤ k → k + w + 1 ≤ n → ¬ Shows x v' k (k + w + 1)) :
    y n = v := by
  induction n, hn using Nat.le_induction with
  | base => exact h.eq_of_shows hw hs le_rfl
  | succ n hn ih =>
    have hy : y n = v := ih fun k v' hv hk hkn => hno k v' hv hk (by omega)
    by_contra hne
    have hc := h.shows_of_change (n := n) fun he => hne (he.trans hy)
    -- the other level has been shown since after the sample `m + w`, which showed `v`
    have hstart : m + w + 1 ≤ n - w := by
      by_contra hlt
      have hv : x (m + w) = v := hs (m + w) (by omega) (by omega)
      exact hne ((hc (m + w) (by omega) (by omega)).symm.trans hv)
    have hend : n - w + w + 1 = n + 1 := by omega
    exact hno (n - w) _ hne hstart (by omega) (hend ▸ hc)

end Follows

end Waveform
