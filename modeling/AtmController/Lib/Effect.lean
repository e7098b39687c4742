import Mathlib.Init

/-! Weakest preconditions for commands that change a state and may fail in the middle: `Q` is asked
of a normal end and `E` of a failure, whose changes to the state stay. -/

namespace Effect

variable {ε σ α β : Type} {f : EStateM ε σ α} {Q R : α → σ → Prop} {E F : ε → σ → Prop} {s : σ}

def wp (f : EStateM ε σ α) (Q : α → σ → Prop) (E : ε → σ → Prop) (s : σ) : Prop :=
  match f s with
  | .ok a t => Q a t
  | .error e t => E e t

@[simp] theorem wp_pure (a : α) : wp (pure a : EStateM ε σ α) Q E s ↔ Q a s := Iff.rfl

@[simp] theorem wp_bind (g : α → EStateM ε σ β) {Q : β → σ → Prop} :
    wp (f >>= g) Q E s ↔ wp f (fun a => wp (g a) Q E) E s := by
  simp only [wp, bind, EStateM.bind]
  cases f s <;> rfl

@[simp] theorem wp_get {Q : σ → σ → Prop} : wp (get : EStateM ε σ σ) Q E s ↔ Q s s := Iff.rfl

@[simp] theorem wp_modify (g : σ → σ) {Q : PUnit → σ → Prop} :
    wp (modify g : EStateM ε σ PUnit) Q E s ↔ Q ⟨⟩ (g s) := Iff.rfl

@[simp] theorem wp_modifyGet (g : σ → α × σ) :
    wp (modifyGet g : EStateM ε σ α) Q E s ↔ Q (g s).1 (g s).2 := Iff.rfl

@[simp] theorem wp_throw (e : ε) : wp (throw e : EStateM ε σ α) Q E s ↔ E e s := Iff.rfl

@[simp] theorem wp_ite {p : Prop} [Decidable p] (g : EStateM ε σ α) :
    wp (if p then f else g) Q E s ↔ if p then wp f Q E s else wp g Q E s := by
  split <;> rfl

theorem wp_mono (hQ : ∀ a t, Q a t → R a t) (hE : ∀ e t, E e t → F e t) (h : wp f Q E s) :
    wp f R F s := by
  unfold wp at h ⊢
  cases hf : f s with
  | ok a t =>
    rw [hf] at h
    exact hQ a t h
  | error e t =>
    rw [hf] at h
    exact hE e t h

theorem wp_and (hQ : wp f Q E s) (hR : wp f R F s) :
    wp f (fun a t => Q a t ∧ R a t) (fun e t => E e t ∧ F e t) s := by
  unfold wp at hQ hR ⊢
  cases hf : f s with
  | ok a t =>
    rw [hf] at hQ hR
    exact ⟨hQ, hR⟩
  | error e t =>
    rw [hf] at hQ hR
    exact ⟨hQ, hR⟩

theorem wp_ok {a : α} {t : σ} (h : wp f Q E s) (hf : f s = .ok a t) : Q a t := by
  rw [wp, hf] at h
  exact h

theorem wp_error {e : ε} {t : σ} (h : wp f Q E s) (hf : f s = .error e t) : E e t := by
  rw [wp, hf] at h
  exact h

theorem bind_ok {g : α → EStateM ε σ β} {b : β} {t : σ} (h : (f >>= g) s = .ok b t) :
    ∃ a u, f s = .ok a u ∧ g a u = .ok b t := by
  simp only [bind, EStateM.bind] at h
  cases hf : f s with
  | ok a u =>
    rw [hf] at h
    exact ⟨a, u, rfl, h⟩
  | error e u =>
    rw [hf] at h
    cases h

def succeeds (f : EStateM ε σ α) (s : σ) : Bool :=
  match f s with
  | .ok _ _ => true
  | .error _ _ => false

theorem exists_ok (h : succeeds f s = true) : ∃ a t, f s = .ok a t := by
  unfold succeeds at h
  cases hf : f s with
  | ok a t => exact ⟨a, t, rfl⟩
  | error e t => simp [hf] at h

/-- Every normal end of `f` keeps `I`, and every failure leaves `F`. -/
def Preserves (I F : σ → Prop) (f : EStateM ε σ α) : Prop :=
  ∀ s, I s → wp f (fun _ t => I t) (fun _ t => F t) s

section Preserves

variable {I F : σ → Prop}

theorem Preserves.pure (a : α) : Preserves I F (pure a : EStateM ε σ α) := fun _ h => h

theorem Preserves.get : Preserves I F (get : EStateM ε σ σ) := fun _ h => h

theorem Preserves.throw (hI : ∀ s, I s → F s) (e : ε) :
    Preserves I F (throw e : EStateM ε σ α) := hI

theorem Preserves.bind {g : α → EStateM ε σ β} (hf : Preserves I F f)
    (hg : ∀ a, Preserves I F (g a)) : Preserves I F (f >>= g) := by
  intro s hs
  rw [wp_bind]
  exact wp_mono (fun a t ht => hg a t ht) (fun _ _ he => he) (hf s hs)

theorem Preserves.ite {p : Prop} [Decidable p] {g : EStateM ε σ α} (hf : p → Preserves I F f)
    (hg : ¬ p → Preserves I F g) : Preserves I F (if p then f else g) := by
  split
  · next h => exact hf h
  · next h => exact hg h

end Preserves

end Effect
