import Mathlib.Data.List.Forall2
import Mathlib.Tactic.TypeStar

namespace MoveToFront

variable {α κ : Type*}

/-- The cache after a use of the entry that meets `p`; `new` makes the front entry out of it. -/
def touch (p : α → Bool) (new : Option α → α) (l : List α) : List α :=
  new (l.find? p) :: if l.any p then l.eraseP p else l.dropLast

theorem touch_congr {p : α → Bool} {new new' : Option α → α} {l : List α} :
    touch p new l = touch p new' l ↔ new (l.find? p) = new' (l.find? p) := by
  simp [touch]

def victim (p : α → Bool) (l : List α) : Nat := min (l.findIdx p) (l.length - 1)

theorem touch_eq_eraseIdx {p : α → Bool} {new : Option α → α} {l : List α} :
    touch p new l = new (l.find? p) :: l.eraseIdx (victim p l) := by
  rw [touch, victim]
  congr 1
  split
  · next h =>
    have hex : ∃ x ∈ l, p x := List.any_eq_true.mp h
    have hlt := List.findIdx_lt_length_of_exists hex
    rw [List.eraseP_eq_eraseIdx, List.findIdx?_eq_some_of_exists hex, Nat.min_eq_left (by omega)]
  · next h =>
    have hall : ∀ x ∈ l, p x = false := by simpa using h
    rw [List.findIdx_eq_length_of_false hall, Nat.min_eq_right (by omega)]
    cases l with
    | nil => rfl
    | cons y ys => rw [List.eraseIdx_eq_dropLast (by simp)]

theorem forall₂_eraseIdx {τ : Type*} {R : τ → α → Prop} {ts : List τ} {l : List α}
    (h : List.Forall₂ R ts l) (n : Nat) : List.Forall₂ R (ts.eraseIdx n) (l.eraseIdx n) := by
  induction h generalizing n with
  | nil => exact .nil
  | cons hx hl ih =>
    cases n with
    | zero => exact hl
    | succ n => exact .cons hx (ih n)

theorem forall₂_touch {τ : Type*} {R : τ → α → Prop} {p : α → Bool} {new : Option α → α}
    {ts : List τ} {l : List α} {t : τ} (h : List.Forall₂ R ts l) (ht : R t (new (l.find? p))) :
    List.Forall₂ R (t :: ts.eraseIdx (victim p l)) (touch p new l) := by
  rw [touch_eq_eraseIdx]
  exact .cons ht (forall₂_eraseIdx h _)

theorem find?_zip {τ : Type*} {R : τ → α → Prop} {p : α → Bool} {ts : List τ} {l : List α}
    {x : α} (h : List.Forall₂ R ts l) (hx : l.find? p = some x) :
    ∃ t, (ts.zip l).find? (fun y => p y.2) = some (t, x) ∧ R t x := by
  induction h with
  | nil => simp at hx
  | @cons t y ts l hy _ ih =>
    rw [List.find?_cons] at hx
    cases hp : p y with
    | true =>
      simp only [hp, Option.some.injEq] at hx
      subst hx
      exact ⟨t, by simp [hp], hy⟩
    | false =>
      simp only [hp] at hx
      obtain ⟨u, hu, hR⟩ := ih hx
      exact ⟨u, by simpa [hp] using hu, hR⟩

/-- A key that is in several entries is `z`. -/
def UniqueKeys (key : α → κ) (z : κ) (l : List α) : Prop :=
  l.Pairwise fun a b => key a = key b → key a = z

theorem UniqueKeys.sublist {key : α → κ} {z : κ} {l l' : List α} (h : UniqueKeys key z l)
    (hl : l'.Sublist l) : UniqueKeys key z l' := List.Pairwise.sublist hl h

theorem UniqueKeys.of_perm {key : α → κ} {z : κ} {l l' : List α} (h : UniqueKeys key z l)
    (hp : (l.map key).Perm (l'.map key)) : UniqueKeys key z l' := by
  have hm := List.pairwise_map (f := key) (R := fun a b => a = b → a = z) (l := l)
  have hm' := List.pairwise_map (f := key) (R := fun a b => a = b → a = z) (l := l')
  have hsymm : ∀ {a b : κ}, (a = b → a = z) → b = a → b = z := fun h hba => hba.trans (h hba.symm)
  exact hm'.mp ((hp.pairwise_iff hsymm).mp (hm.mpr h))

theorem UniqueKeys.countP_le_one [DecidableEq κ] {key : α → κ} {z k : κ} {l : List α}
    (h : UniqueKeys key z l) (hk : k ≠ z) : l.countP (fun x => key x = k) ≤ 1 := by
  induction l with
  | nil => simp
  | cons y ys ih =>
    obtain ⟨hy, hys⟩ := List.pairwise_cons.mp h
    by_cases hyk : key y = k
    · have hnone : ys.countP (fun x => key x = k) = 0 := by
        refine List.countP_eq_zero.mpr fun x hx => ?_
        have hne : key x ≠ k := fun hxk => hk (hyk ▸ hy x hx (hyk.trans hxk.symm))
        simpa using hne
      simp [hyk, hnone]
    · simpa [hyk] using ih hys

theorem UniqueKeys.not_mem_eraseP [DecidableEq κ] {key : α → κ} {z k : κ} {l : List α}
    (h : UniqueKeys key z l) (hk : k ≠ z) : ∀ x ∈ l.eraseP (fun x => key x = k), key x ≠ k := by
  induction l with
  | nil => simp
  | cons y ys ih =>
    obtain ⟨hy, hys⟩ := List.pairwise_cons.mp h
    intro x hx
    rw [List.eraseP_cons] at hx
    by_cases hyk : key y = k
    · simp only [hyk, decide_true] at hx
      intro hxk
      exact hk (hyk ▸ hy x hx (hyk.trans hxk.symm))
    · simp only [hyk, decide_false] at hx
      rcases List.mem_cons.mp hx with rfl | hx
      · exact hyk
      · exact ih hys x hx

theorem UniqueKeys.touch [DecidableEq κ] {key : α → κ} {z k : κ} {l : List α} {new : Option α → α}
    (h : UniqueKeys key z l) (hnew : ∀ x, key (new x) = k) :
    UniqueKeys key z (touch (fun x => key x = k) new l) := by
  refine List.pairwise_cons.mpr ⟨fun x hx he => ?_, ?_⟩
  · rw [hnew] at he ⊢
    by_contra hk
    split at hx
    · exact h.not_mem_eraseP hk x hx he.symm
    · next hany =>
      refine hany (List.any_eq_true.mpr ⟨x, (List.dropLast_sublist l).subset hx, ?_⟩)
      simpa using he.symm
  · split
    · exact h.sublist List.eraseP_sublist
    · exact h.sublist (List.dropLast_sublist l)

theorem UniqueKeys.find?_eq [DecidableEq κ] {key : α → κ} {z k : κ} {l : List α} {x : α}
    (h : UniqueKeys key z l) (hx : x ∈ l) (hk : key x = k) (hz : k ≠ z) :
    l.find? (fun y => key y = k) = some x := by
  induction l with
  | nil => simp at hx
  | cons y ys ih =>
    obtain ⟨hy, hys⟩ := List.pairwise_cons.mp h
    rw [List.find?_cons]
    rcases List.mem_cons.mp hx with rfl | hx
    · simp [hk]
    · have hne : key y ≠ k := fun hyk => hz (hyk ▸ hy x hx (hyk.trans hk.symm))
      simp only [hne, decide_false]
      exact ih hys hx

end MoveToFront
