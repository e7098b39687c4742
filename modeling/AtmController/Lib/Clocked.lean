import Mathlib.Data.List.Destutter
import Mathlib.Data.List.Infix
import Mathlib.Logic.Function.Iterate
import Mathlib.Order.RelClasses
import Mathlib.Tactic.TypeStar

/-! Clocked machines: a state, one input per clock edge, and the runs they make.
Invariants, invariants under a rule on the steps taken, and reachability are stated
once here and used by every model below. -/

namespace Clocked

variable {S I T : Type*}

def run (step : I → S → S) : S → List I → S
  | s, [] => s
  | s, i :: is => run step (step i s) is

/-- Every step of the run meets `ok`, a rule on the input and the state it meets. -/
def Runs (step : I → S → S) (ok : I → S → Prop) : S → List I → Prop
  | _, [] => True
  | s, i :: is => ok i s ∧ Runs step ok (step i s) is

instance Runs.decidable (step : I → S → S) (ok : I → S → Prop) [∀ i s, Decidable (ok i s)] :
    ∀ s is, Decidable (Runs step ok s is)
  | _, [] => .isTrue trivial
  | s, i :: is =>
    have := decidable step ok (step i s) is
    inferInstanceAs (Decidable (ok i s ∧ Runs step ok (step i s) is))

variable {step : I → S → S} {ok : I → S → Prop} {s t u : S}

@[simp] theorem run_nil : run step s [] = s := rfl

@[simp] theorem run_cons (i : I) (is : List I) :
    run step s (i :: is) = run step (step i s) is := rfl

theorem run_append (is js : List I) : run step s (is ++ js) = run step (run step s is) js := by
  induction is generalizing s with
  | nil => rfl
  | cons i is ih => exact ih

theorem run_concat (is : List I) (i : I) :
    run step s (is ++ [i]) = step i (run step s is) := by
  rw [run_append]; rfl

theorem runs_append (is js : List I) :
    Runs step ok s (is ++ js) ↔ Runs step ok s is ∧ Runs step ok (run step s is) js := by
  induction is generalizing s with
  | nil => simp [Runs]
  | cons i is ih => simp [Runs, ih, and_assoc]

theorem runs_concat (is : List I) (i : I) :
    Runs step ok s (is ++ [i]) ↔ Runs step ok s is ∧ ok i (run step s is) := by
  simp [runs_append, Runs]

theorem Runs.mono {ok' : I → S → Prop} (h : ∀ i s, ok i s → ok' i s) {is : List I}
    (hr : Runs step ok s is) : Runs step ok' s is := by
  induction is generalizing s with
  | nil => trivial
  | cons i is ih => exact ⟨h _ _ hr.1, ih hr.2⟩

theorem Runs.and {ok' : I → S → Prop} {is : List I} (h : Runs step ok s is)
    (h' : Runs step ok' s is) : Runs step (fun i s => ok i s ∧ ok' i s) s is := by
  induction is generalizing s with
  | nil => trivial
  | cons i is ih => exact ⟨⟨h.1, h'.1⟩, ih h.2 h'.2⟩

theorem Runs.invariant {P : S → Prop} (hstep : ∀ i s, ok i s → P s → P (step i s))
    (h : P s) {is : List I} (hr : Runs step ok s is) : P (run step s is) := by
  induction is generalizing s with
  | nil => exact h
  | cons i is ih => exact ih (hstep i s hr.1 h) hr.2

theorem Runs.strengthen {ok' : I → S → Prop} {P : S → Prop}
    (hstep : ∀ i s, ok i s → P s → ok' i s ∧ P (step i s)) (h : P s) {is : List I}
    (hr : Runs step ok s is) : Runs step ok' s is := by
  induction is generalizing s with
  | nil => trivial
  | cons i is ih =>
    obtain ⟨hok, hP⟩ := hstep i s hr.1 h
    exact ⟨hok, ih hP hr.2⟩

theorem Runs.progress {P : Nat → S → Prop} {m n : Nat}
    (hstep : ∀ k < m, ∀ i s, ok i s → P k s → P (k + 1) (step i s)) (h : P n s) {is : List I}
    (hn : n + is.length ≤ m) (hr : Runs step ok s is) : P (n + is.length) (run step s is) := by
  induction is generalizing s n with
  | nil => exact h
  | cons i is ih =>
    rw [List.length_cons] at hn ⊢
    rw [show n + (is.length + 1) = n + 1 + is.length by omega]
    exact ih (hstep n (by omega) i s hr.1 h) (by omega) hr.2

theorem run_invariant {P : S → Prop} (hstep : ∀ i s, P s → P (step i s)) (h : P s)
    (is : List I) : P (run step s is) := by
  induction is generalizing s with
  | nil => exact h
  | cons i is ih => exact ih (hstep i s h)

theorem runs_of_forall {is : List I} (h : ∀ i ∈ is, ∀ s, ok i s) : Runs step ok s is := by
  induction is generalizing s with
  | nil => trivial
  | cons i is ih =>
    exact ⟨h i (List.mem_cons_self ..) s, ih fun j hj => h j (List.mem_cons_of_mem _ hj)⟩

theorem Runs.forall_mem {p : I → Prop} {is : List I} (h : Runs step (fun i _ => p i) s is) :
    ∀ i ∈ is, p i := by
  induction is generalizing s with
  | nil => exact fun i hi => absurd hi List.not_mem_nil
  | cons i is ih => exact List.forall_mem_cons.mpr ⟨h.1, ih h.2⟩

/-- When, under a rule `env` on the environment, the steps that break `ok` break `P`, and no others
do, `P` holds all along a run exactly when every step meets `ok`. -/
theorem Runs.forall_prefix_iff {env : I → S → Prop} {P Q : S → Prop} (hP : ∀ s, Q s → P s)
    (hstep : ∀ i s, env i s → Q s → ok i s → Q (step i s))
    (hbreak : ∀ i s, env i s → Q s → ¬ ok i s → ¬ P (step i s)) (h : Q s) {is : List I}
    (henv : Runs step env s is) :
    (∀ js, js <+: is → P (run step s js)) ↔ Runs step ok s is := by
  induction is generalizing s with
  | nil =>
    refine ⟨fun _ => trivial, fun _ js hjs => ?_⟩
    rw [List.prefix_nil.mp hjs]
    exact hP s h
  | cons i is ih =>
    constructor
    · intro hall
      have hok : ok i s := by
        by_contra hn
        exact hbreak i s henv.1 h hn (hall [i] (by simp))
      refine ⟨hok, (ih (hstep i s henv.1 h hok) henv.2).mp fun js hjs => ?_⟩
      exact hall (i :: js) ((List.prefix_cons_inj i).mpr hjs)
    · rintro ⟨hok, hr⟩ js hjs
      rcases List.prefix_cons_iff.mp hjs with rfl | ⟨ks, rfl, hks⟩
      · exact hP s h
      · exact (ih (hstep i s henv.1 h hok) henv.2).mpr hr ks hks

theorem forall_prefix_iff_runs {P Q : S → Prop} (hP : ∀ s, Q s → P s)
    (hstep : ∀ i s, Q s → ok i s → Q (step i s))
    (hbreak : ∀ i s, Q s → ¬ ok i s → ¬ P (step i s)) (h : Q s) (is : List I) :
    (∀ js, js <+: is → P (run step s js)) ↔ Runs step ok s is :=
  have henv : Runs step (fun _ _ => True) s is := runs_of_forall fun _ _ _ => trivial
  henv.forall_prefix_iff hP (fun i s _ => hstep i s) (fun i s _ => hbreak i s) h

theorem run_replicate (n : Nat) (i : I) : run step s (List.replicate n i) = (step i)^[n] s := by
  induction n generalizing s with
  | zero => rfl
  | succ n ih => exact ih

theorem runs_replicate {n : Nat} {i : I} (h : ∀ k < n, ok i ((step i)^[k] s)) :
    Runs step ok s (List.replicate n i) := by
  induction n generalizing s with
  | zero => trivial
  | succ n ih => exact ⟨h 0 n.succ_pos, ih fun k hk => h (k + 1) (by omega)⟩

theorem exists_iterate_of_measure {f : S → S} {P Q : S → Prop} (μ : S → Nat)
    (hstep : ∀ s, P s → Q (f s) ∨ P (f s) ∧ μ (f s) < μ s) (h : P s) :
    ∃ n, 0 < n ∧ Q (f^[n] s) := by
  induction hn : μ s using Nat.strongRecOn generalizing s with
  | ind n ih =>
    rcases hstep s h with hQ | ⟨hP, hlt⟩
    · exact ⟨1, Nat.one_pos, hQ⟩
    · obtain ⟨m, -, hm⟩ := ih _ (hn ▸ hlt) hP rfl
      exact ⟨m + 1, m.succ_pos, hm⟩

theorem run_filter {p : I → Bool} (hp : ∀ i s, p i = false → step i s = s) (is : List I) :
    run step s (is.filter p) = run step s is := by
  induction is generalizing s with
  | nil => rfl
  | cons i is ih =>
    rw [run_cons]
    cases h : p i with
    | false => rw [List.filter_cons_of_neg (by simp [h]), ih, hp i s h]
    | true => rw [List.filter_cons_of_pos h, run_cons, ih]

theorem Runs.of_filter {p : I → Bool} (hp : ∀ i s, p i = false → step i s = s) {is : List I}
    (h : Runs step ok s (is.filter p)) (hn : Runs step (fun i s => p i = false → ok i s) s is) :
    Runs step ok s is := by
  induction is generalizing s with
  | nil => trivial
  | cons i is ih =>
    cases hi : p i with
    | false =>
      rw [List.filter_cons_of_neg (by simp [hi]), ← hp i s hi] at h
      exact ⟨hn.1 hi, ih h hn.2⟩
    | true =>
      rw [List.filter_cons_of_pos hi] at h
      exact ⟨h.1, ih h.2 hn.2⟩

/-- A machine with a ghost state beside it, which sees the inputs and the states. -/
def ghost {W : Type*} (step : I → S → S) (next : I → S → W → W) (i : I) (x : S × W) : S × W :=
  (step i x.1, next i x.1 x.2)

theorem run_proj {step' : I → T → T} {f : T → S} (h : ∀ i t, f (step' i t) = step i (f t)) (t : T)
    (is : List I) : f (run step' t is) = run step (f t) is := by
  induction is generalizing t with
  | nil => rfl
  | cons i is ih => rw [run_cons, run_cons, ih, h]

theorem runs_proj {step' : I → T → T} {f : T → S} (h : ∀ i t, f (step' i t) = step i (f t)) {t : T}
    {is : List I} : Runs step' (fun i u => ok i (f u)) t is ↔ Runs step ok (f t) is := by
  induction is generalizing t with
  | nil => exact Iff.rfl
  | cons i is ih =>
    rw [Runs, Runs, ← h]
    exact and_congr_right fun _ => ih

theorem run_ghost_fst {W : Type*} {next : I → S → W → W} (x : S × W) (is : List I) :
    (run (ghost step next) x is).1 = run step x.1 is :=
  run_proj (f := Prod.fst) (fun _ _ => rfl) x is

theorem runs_ghost {W : Type*} {next : I → S → W → W} {x : S × W} {is : List I} :
    Runs (ghost step next) (fun i y => ok i y.1) x is ↔ Runs step ok x.1 is :=
  runs_proj (f := Prod.fst) fun _ _ => rfl

/-- A forward simulation: a machine whose steps another one can follow, one by one, on inputs that
match; the relation holds after every step. -/
theorem Runs.simulates {J : Type*} {step' : J → T → T} {ok' : J → T → Prop} {R : S → T → Prop}
    {M : I → J → Prop}
    (hstep : ∀ i s t, ok i s → R s t → ∃ j, M i j ∧ ok' j t ∧ R (step i s) (step' j t)) {t : T}
    (h : R s t) {is : List I} (hr : Runs step ok s is) :
    ∃ js, List.Forall₂ M is js ∧ Runs step' ok' t js ∧
      ∀ n, R (run step s (is.take n)) (run step' t (js.take n)) := by
  induction is generalizing s t with
  | nil => exact ⟨[], .nil, trivial, fun n => by simpa using h⟩
  | cons i is ih =>
    obtain ⟨j, hm, hj, hR⟩ := hstep i s t hr.1 h
    obtain ⟨js, hms, hjs, hall⟩ := ih hR hr.2
    refine ⟨j :: js, .cons hm hms, ⟨hj, hjs⟩, fun n => ?_⟩
    cases n with
    | zero => exact h
    | succ n => exact hall n

def Reaches (step : I → S → S) (ok : I → S → Prop) (s t : S) : Prop :=
  ∃ is, Runs step ok s is ∧ run step s is = t

theorem Reaches.refl : Reaches step ok s s := ⟨[], trivial, rfl⟩

theorem Reaches.trans (h : Reaches step ok s t) (h' : Reaches step ok t u) :
    Reaches step ok s u := by
  obtain ⟨is, hr, rfl⟩ := h
  obtain ⟨js, hr', rfl⟩ := h'
  exact ⟨is ++ js, (runs_append is js).mpr ⟨hr, hr'⟩, run_append is js⟩

theorem Reaches.mono {ok' : I → S → Prop} (h : Reaches step ok s t)
    (hok : ∀ i s, ok i s → ok' i s) : Reaches step ok' s t := by
  obtain ⟨is, hr, ht⟩ := h
  exact ⟨is, hr.mono hok, ht⟩

theorem Reaches.single (i : I) (h : ok i s) : Reaches step ok s (step i s) :=
  ⟨[i], ⟨h, trivial⟩, rfl⟩

theorem exists_reaches {P : Nat → S → Prop} (n : Nat)
    (hstep : ∀ k < n, ∀ s, P k s → ∃ t, Reaches step ok s t ∧ P (k + 1) t) (h : P 0 s) :
    ∃ t, Reaches step ok s t ∧ P n t := by
  induction n with
  | zero => exact ⟨s, .refl, h⟩
  | succ n ih =>
    obtain ⟨t, hst, ht⟩ := ih fun k hk => hstep k (by omega)
    obtain ⟨u, htu, hu⟩ := hstep n (by omega) t ht
    exact ⟨u, hst.trans htu, hu⟩

theorem exists_reaches_of_measure {β : Type*} [LT β] [WellFoundedLT β] {P Q : S → Prop} (μ : S → β)
    (hstep : ∀ s, P s → ∃ t, Reaches step ok s t ∧ (Q t ∨ P t ∧ μ t < μ s)) (h : P s) :
    ∃ t, Reaches step ok s t ∧ Q t := by
  induction hn : μ s using WellFoundedLT.induction generalizing s with
  | _ n ih =>
    obtain ⟨t, hst, hQ | ⟨hP, hlt⟩⟩ := hstep s h
    · exact ⟨t, hst, hQ⟩
    · obtain ⟨u, htu, hu⟩ := ih _ (hn ▸ hlt) hP rfl
      exact ⟨u, hst.trans htu, hu⟩

theorem Runs.exists_prefix_of_measure {P Q : S → Prop} (μ : S → Nat)
    (hstep : ∀ i s, ok i s → P s → Q (step i s) ∨ P (step i s) ∧ μ (step i s) < μ s) (h : P s)
    {is : List I} (hr : Runs step ok s is) (hlt : μ s < is.length) :
    ∃ js, js <+: is ∧ js.length ≤ μ s + 1 ∧ Q (run step s js) := by
  induction is generalizing s with
  | nil => exact absurd hlt (Nat.not_lt_zero _)
  | cons i is ih =>
    rw [List.length_cons] at hlt
    rcases hstep i s hr.1 h with hQ | ⟨hP, hi⟩
    · exact ⟨[i], by simp, by simp, hQ⟩
    · obtain ⟨js, hjs, hle, hQ⟩ := ih hP hr.2 (by omega)
      exact ⟨i :: js, (List.prefix_cons_inj i).mpr hjs, by rw [List.length_cons]; omega, hQ⟩

theorem exists_run_of_measure {P Q : S → Prop} (μ : S → Nat)
    (hstep : ∀ i s, ok i s → P s → Q (step i s) ∨ P (step i s) ∧ μ (step i s) < μ s) (h : P s)
    (f : Nat → I) (hf : ∀ n, ok (f n) (run step s ((List.range n).map f))) :
    ∃ n, Runs step (fun i s => ok i s ∧ P s) s ((List.range n).map f) ∧
      Q (run step s ((List.range n).map f)) := by
  induction hn : μ s using Nat.strongRecOn generalizing s f with
  | ind n ih =>
    have hcons (m : Nat) : (List.range (m + 1)).map f =
        f 0 :: (List.range m).map fun k => f (k + 1) := by
      rw [List.range_succ_eq_map, List.map_cons, List.map_map]
      rfl
    rcases hstep (f 0) s (hf 0) h with hQ | ⟨hP, hlt⟩
    · exact ⟨1, ⟨⟨hf 0, h⟩, trivial⟩, hQ⟩
    · obtain ⟨m, hr, hQ⟩ := ih _ (hn ▸ hlt) hP (fun k => f (k + 1)) (fun k => by
        have hk := hf (k + 1)
        rwa [hcons] at hk) rfl
      refine ⟨m + 1, ?_, ?_⟩
      · rw [hcons]
        exact ⟨⟨hf 0, h⟩, hr⟩
      · rw [hcons]
        exact hQ

section Emitted

variable {O : Type*} {emit : I → S → List O}

def emitted (step : I → S → S) (emit : I → S → List O) : S → List I → List O
  | _, [] => []
  | s, i :: is => emit i s ++ emitted step emit (step i s) is

theorem Runs.emitted_append_owed {P : S → Prop} (owed : S → List I → List O)
    (hstep : ∀ i s is, ok i s → P s →
      owed s (i :: is) = emit i s ++ owed (step i s) is ∧ P (step i s))
    (h : P s) {is : List I} (hr : Runs step ok s is) (js : List I) :
    owed s (is ++ js) = emitted step emit s is ++ owed (run step s is) js := by
  induction is generalizing s with
  | nil => rfl
  | cons i is ih =>
    obtain ⟨howed, hP⟩ := hstep i s (is ++ js) hr.1 h
    rw [List.cons_append, howed, ih hP hr.2, emitted, List.append_assoc, run_cons]

end Emitted

/-- What `f` shows in the states of a run. -/
def observed {O : Type*} (step : I → S → S) (f : S → O) : S → List I → List O
  | s, [] => [f s]
  | s, i :: is => f s :: observed step f (step i s) is

section Observed

variable {O : Type*} [DecidableEq O] {f : S → O} {R : S → List O → Prop} {F : S → Prop}

theorem destutter_observed_cons (i : I) (is : List I) :
    (observed step f s (i :: is)).destutter (· ≠ ·) =
      if f s = f (step i s) then (observed step f (step i s) is).destutter (· ≠ ·)
      else f s :: (observed step f (step i s) is).destutter (· ≠ ·) := by
  obtain ⟨l, hl⟩ : ∃ l, observed step f (step i s) is = f (step i s) :: l := by
    cases is <;> exact ⟨_, rfl⟩
  rw [observed, hl, List.destutter_cons_cons, List.destutter_cons']
  by_cases h : f s = f (step i s)
  · rw [if_neg (not_not.mpr h), if_pos h, h]
  · rw [if_pos h, if_neg h]

/-- What is seen of a run, without repetitions: `R s l` promises `l` from the state `s` on, and each
step shows what was shown before or takes it off the list. -/
theorem Runs.destutter_observed
    (hstep : ∀ i s l, ok i s → R s l →
      ∃ l', R (step i s) l' ∧ l = if f s = f (step i s) then l' else f s :: l')
    (hfin : ∀ s l, R s l → F s → l = [f s]) {l : List O} (h : R s l) {is : List I}
    (hr : Runs step ok s is) (hend : F (run step s is)) :
    (observed step f s is).destutter (· ≠ ·) = l := by
  induction is generalizing s l with
  | nil => exact (hfin s l h hend).symm
  | cons i is ih =>
    obtain ⟨l', hl', hl⟩ := hstep i s l hr.1 h
    rw [destutter_observed_cons, ih hl' hr.2 hend]
    exact hl.symm

end Observed

end Clocked
