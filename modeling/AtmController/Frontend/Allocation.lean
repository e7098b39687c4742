import AtmController.Lib.Change
import AtmController.Lib.Bisection
import AtmController.Frontend.NoteAllocator
import Mathlib.Logic.Function.Iterate

namespace AtmController.Frontend.NoteAllocator

/-! ### A run with held inputs -/

structure At (s : AllocatorState) (a : Nat) (o : Notes) (c : NoteAllocator) : Prop where
  state : c.systemState = s
  search : c.binarysearchStart = false
  amount : c.amountAskedInt = a
  out : c.out = o

structure Searching (d : Denomination) (a : Nat) (o : Notes) (k : Nat) (c : NoteAllocator) :
    Prop where
  state : c.systemState = .allocate d
  search : c.binarysearchStart = true
  amount : c.amountAskedInt = a
  out : c.out = o
  bracket : Bisection.Bracket (fun m => d.value * m ≤ a) c.leftLimit c.rightLimit
  width : c.rightLimit ≤ c.leftLimit + 2 ^ k

def choice (i : AllocatorEdge) (d : Denomination) (a : Nat) : Nat :=
  min (dispensable i d) (a / d.value)

theorem value_pos (d : Denomination) : 0 < d.value := by cases d <;> decide

/-- The clock edges that denomination `d` takes for the amount `a`: one when all its notes go, and
otherwise a search. -/
def searchTime (i : AllocatorEdge) (d : Denomination) (a : Nat) : Nat :=
  if a < d.value * dispensable i d then
    Bisection.halvings (a / d.value) 8 0 (dispensable i d) + 2
  else 1

theorem searchTime_le (i : AllocatorEdge) (d : Denomination) (a : Nat) :
    searchTime i d a ≤ 10 := by
  have := Bisection.halvings_le (a / d.value) 8 0 (dispensable i d)
  rw [searchTime]
  split <;> omega

def Busy (i : AllocatorEdge) (n : Nat) (c : NoteAllocator) : Prop :=
  ∀ j < n, ((clock i)^[j] c).systemState ≠ .finished

theorem Busy.zero {i : AllocatorEdge} {c : NoteAllocator} : Busy i 0 c :=
  fun j hj => absurd hj (Nat.not_lt_zero j)

theorem Busy.succ {i : AllocatorEdge} {n : Nat} {c : NoteAllocator}
    (h : c.systemState ≠ .finished) (hn : Busy i n (clock i c)) : Busy i (n + 1) c := by
  intro j hj
  cases j with
  | zero => exact h
  | succ j => exact hn j (by omega)

/-- `P` holds after `n` edges, and not finished before. -/
def Takes (i : AllocatorEdge) (n : Nat) (P : NoteAllocator → Prop) (c : NoteAllocator) : Prop :=
  Busy i n c ∧ P ((clock i)^[n] c)

theorem Takes.trans {i : AllocatorEdge} {m n : Nat} {P Q : NoteAllocator → Prop}
    {c : NoteAllocator} (hm : Takes i m P c) (hn : ∀ c, P c → Takes i n Q c) :
    Takes i (n + m) Q c := by
  obtain ⟨hb, hQ⟩ := hn _ hm.2
  refine ⟨fun j hj => ?_, by rwa [Function.iterate_add_apply]⟩
  rcases Nat.lt_or_ge j m with hlt | hge
  · exact hm.1 j hlt
  · have := hb (j - m) (by omega)
    rwa [← Function.iterate_add_apply, Nat.sub_add_cancel hge] at this

section Held

variable {i : AllocatorEdge} (hr : i.reset = false) (hs : i.start = true)
include hr hs

theorem clock_allocate {d : Denomination} {c : NoteAllocator}
    (h : c.systemState = .allocate d) : clock i c = allocate d i c := by
  simp [clock, hr, hs, h]

theorem Searching.finish {d : Denomination} {a k : Nat} {o : Notes} {c : NoteAllocator}
    (h : Searching d a o k c) (hn : a < d.value * dispensable i d)
    (hlast : c.rightLimit = c.leftLimit + 1) :
    At d.next (a - d.value * choice i d a)
      (o.set d (BitVec.ofNat 8 (choice i d a))) (clock i c) := by
  have hl : d.value * c.leftLimit ≤ a := h.bracket.left
  have hu : a < d.value * (c.leftLimit + 1) := by
    have := h.bracket.right
    rw [hlast] at this
    omega
  have hx : choice i d a = c.leftLimit := by
    have hdiv : a / d.value = c.leftLimit := by
      rw [Nat.div_eq_iff (value_pos d)]
      rw [Nat.mul_succ] at hu
      rw [Nat.mul_comm c.leftLimit]
      omega
    have : a / d.value < dispensable i d := by
      rw [Nat.div_lt_iff_lt_mul (value_pos d), Nat.mul_comm]; exact hn
    rw [choice, hdiv, min_eq_right (by omega)]
  have hm : (c.leftLimit + c.rightLimit) / 2 = c.leftLimit := h.bracket.mid_eq_left.mpr hlast
  rw [clock_allocate hr hs h.state, hx]
  simp only [allocate, h.amount, h.search, hm]
  rw [if_pos (by exact_mod_cast hn), if_neg (by simp), if_neg (by exact_mod_cast hl.not_gt),
    if_pos trivial]
  exact ⟨rfl, rfl, by push_cast [Nat.cast_sub hl]; rfl, by rw [h.out]⟩

theorem Searching.halve {d : Denomination} {a k : Nat} {o : Notes} {c : NoteAllocator}
    (h : Searching d a o (k + 1) c) (hn : a < d.value * dispensable i d)
    (hlast : c.rightLimit ≠ c.leftLimit + 1) :
    Searching d a o k (clock i c) ∧
      Bisection.halvings (a / d.value) (k + 1) c.leftLimit c.rightLimit =
        Bisection.halvings (a / d.value) k (clock i c).leftLimit (clock i c).rightLimit + 1 := by
  have hm : (c.leftLimit + c.rightLimit) / 2 ≠ c.leftLimit :=
    fun he => hlast (h.bracket.mid_eq_left.mp he)
  have hx (m : Nat) : a / d.value < m ↔ ¬ d.value * m ≤ a := by
    rw [Nat.div_lt_iff_lt_mul (value_pos d), Nat.mul_comm, Nat.not_le]
  rw [clock_allocate hr hs h.state, Bisection.halvings, if_neg hlast]
  simp only [allocate, h.amount, h.search, hx]
  rw [if_pos (by exact_mod_cast hn), if_neg (by simp)]
  by_cases hp : d.value * ((c.leftLimit + c.rightLimit) / 2) ≤ a
  · rw [if_neg (by exact_mod_cast hp.not_gt), if_neg (Ne.symm hm), if_neg (not_not.mpr hp)]
    exact ⟨⟨h.state, rfl, rfl, h.out, h.bracket.upper hp, Bisection.width_upper h.width⟩, rfl⟩
  · rw [if_pos (by exact_mod_cast Nat.lt_of_not_le hp), if_pos hp]
    exact ⟨⟨h.state, rfl, rfl, h.out, h.bracket.lower hp, Bisection.width_lower h.width⟩, rfl⟩

theorem Searching.ends {d : Denomination} {a : Nat} {o : Notes} (k : Nat)
    {c : NoteAllocator} (h : Searching d a o k c) (hn : a < d.value * dispensable i d) :
    Takes i (Bisection.halvings (a / d.value) k c.leftLimit c.rightLimit + 1)
      (At d.next (a - d.value * choice i d a) (o.set d (BitVec.ofNat 8 (choice i d a)))) c := by
  have hbusy : c.systemState ≠ .finished := by simp [h.state]
  induction k generalizing c with
  | zero =>
    have := h.bracket.lt
    have := h.width
    exact ⟨.succ hbusy .zero, h.finish hr hs hn (by omega)⟩
  | succ k ih =>
    by_cases hlast : c.rightLimit = c.leftLimit + 1
    · rw [Bisection.halvings_of_eq hlast]
      exact ⟨.succ hbusy .zero, h.finish hr hs hn hlast⟩
    · obtain ⟨h', hk⟩ := h.halve hr hs hn hlast
      obtain ⟨hb, hAt⟩ := ih h' (by simp [h'.state])
      rw [hk]
      exact ⟨.succ hbusy hb, hAt⟩

theorem At.next {d : Denomination} {a : Nat} {o : Notes} {c : NoteAllocator}
    (h : At (.allocate d) a o c) :
    Takes i (searchTime i d a)
      (At d.next (a - d.value * choice i d a) (o.set d (BitVec.ofNat 8 (choice i d a)))) c := by
  have hbusy : c.systemState ≠ .finished := by simp [h.state]
  rw [searchTime]
  by_cases hn : a < d.value * dispensable i d
  · have hS : Searching d a o 8 (clock i c) ∧ (clock i c).leftLimit = 0 ∧
        (clock i c).rightLimit = dispensable i d := by
      rw [clock_allocate hr hs h.state]
      simp only [allocate, h.amount, h.search]
      rw [if_pos (by exact_mod_cast hn), if_pos trivial]
      have hpos : 0 < dispensable i d := Nat.pos_of_ne_zero fun h0 => by simp [h0] at hn
      have hle := dispensable_le i d
      exact ⟨⟨h.state, rfl, rfl, h.out, ⟨Nat.zero_le _, Nat.not_le_of_lt hn, hpos⟩,
        show dispensable i d ≤ 0 + 2 ^ 8 by omega⟩, rfl, rfl⟩
    obtain ⟨hS, hl, hr'⟩ := hS
    obtain ⟨hb, hAt⟩ := hS.ends hr hs 8 hn
    rw [hl, hr'] at hb hAt
    rw [if_pos hn]
    exact ⟨.succ hbusy hb, hAt⟩
  · have hle : d.value * dispensable i d ≤ a := Nat.le_of_not_lt hn
    have hx : choice i d a = dispensable i d := by
      rw [choice, min_eq_left]
      exact (Nat.le_div_iff_mul_le (value_pos d)).mpr (by rwa [Nat.mul_comm])
    rw [if_neg hn]
    refine ⟨.succ hbusy .zero, ?_⟩
    rw [Function.iterate_one, clock_allocate hr hs h.state, hx]
    simp only [allocate, h.amount]
    rw [if_neg (by exact_mod_cast hn)]
    exact ⟨rfl, h.search, by push_cast [Nat.cast_sub hle]; rfl, by rw [h.out]⟩

theorem At.decides {a : Nat} {o : Notes} {c : NoteAllocator} (h : At .decide a o c) :
    Takes i 1 (fun c => c.systemState = .finished ∧ c.binarysearchStart = false ∧ c.done = true ∧
      c.out = o ∧ (c.allocationPossible = true ↔ i.amountAsked.getLsbD 31 = false ∧
        i.amountAsked ≤ i.limits.totalAmount ∧ a = 0)) c := by
  refine ⟨.succ (by simp [h.state]) .zero, ?_⟩
  simp [clock, hr, hs, h.state, h.search, h.out, h.amount]

theorem clock_finished {c : NoteAllocator} (h : c.systemState = .finished) :
    clock i c = c := by
  simp [clock, hr, hs, h]

end Held

def lowAmount (i : AllocatorEdge) : Nat := (i.amountAsked.extractLsb' 0 31).toNat

theorem lowAmount_of_lt {i : AllocatorEdge} (h : i.amountAsked.toNat < 2 ^ 31) :
    lowAmount i = i.amountAsked.toNat := by
  rw [lowAmount, BitVec.extractLsb'_toNat, Nat.shiftRight_zero, Nat.mod_eq_of_lt h]

theorem getLsbD_31_iff (v : BitVec 32) : v.getLsbD 31 = false ↔ v.toNat < 2 ^ 31 := by
  have := v.isLt
  rw [BitVec.getLsbD, Nat.testBit_eq_decide_div_mod_eq, decide_eq_false_iff_not]
  omega

def till (i : AllocatorEdge) : Change.Till :=
  [(2000, dispensable i .n2000), (1000, dispensable i .n1000), (500, dispensable i .n500),
    (100, dispensable i .n100)]

theorem isChain_till (i : AllocatorEdge) : Change.IsChain (till i) := by
  repeat' first
    | exact .nil
    | refine .cons (by decide) (by simp) ?_

def rest (i : AllocatorEdge) (d : Denomination) (a : Nat) : Nat := a - d.value * choice i d a

def restBefore (i : AllocatorEdge) : Denomination → Nat
  | .n2000 => lowAmount i
  | .n1000 => rest i .n2000 (lowAmount i)
  | .n500 => rest i .n1000 (rest i .n2000 (lowAmount i))
  | .n100 => rest i .n500 (rest i .n1000 (rest i .n2000 (lowAmount i)))

def remainder (i : AllocatorEdge) : Nat := rest i .n100 (restBefore i .n100)

def allotted (i : AllocatorEdge) (d : Denomination) : Nat := choice i d (restBefore i d)

def allotment (i : AllocatorEdge) : Notes :=
  ⟨BitVec.ofNat 8 (allotted i .n2000), BitVec.ofNat 8 (allotted i .n1000),
    BitVec.ofNat 8 (allotted i .n500), BitVec.ofNat 8 (allotted i .n100)⟩

def Granted (i : AllocatorEdge) : Prop :=
  i.amountAsked.getLsbD 31 = false ∧ i.amountAsked ≤ i.limits.totalAmount ∧ remainder i = 0

instance (i : AllocatorEdge) : Decidable (Granted i) := by unfold Granted; infer_instance

/-- A finished allocation: done, with the outputs of the greedy payment. -/
structure Finished (i : AllocatorEdge) (c : NoteAllocator) : Prop where
  state : c.systemState = .finished
  search : c.binarysearchStart = false
  done : c.done = true
  out : c.out = allotment i
  allocationPossible : c.allocationPossible = decide (Granted i)

def allocationTime (i : AllocatorEdge) : Nat :=
  searchTime i .n2000 (restBefore i .n2000) + searchTime i .n1000 (restBefore i .n1000) +
    searchTime i .n500 (restBefore i .n500) + searchTime i .n100 (restBefore i .n100) + 2

theorem allocationTime_le (i : AllocatorEdge) : allocationTime i ≤ 42 := by
  have h₁ := searchTime_le i .n2000 (restBefore i .n2000)
  have h₂ := searchTime_le i .n1000 (restBefore i .n1000)
  have h₃ := searchTime_le i .n500 (restBefore i .n500)
  have h₄ := searchTime_le i .n100 (restBefore i .n100)
  rw [allocationTime]
  omega

theorem finishes {i : AllocatorEdge} (hr : i.reset = false) (hs : i.start = true)
    {c : NoteAllocator} (h : c.systemState = .initial) (hb : c.binarysearchStart = false) :
    Takes i (allocationTime i) (Finished i) c := by
  have h₀ : At (.allocate .n2000) (restBefore i .n2000) c.out (clock i c) := by
    simp only [clock, hr, hs, h]
    exact ⟨rfl, hb, rfl, rfl⟩
  obtain ⟨hbusy, hf, hb', hd, ho, hp⟩ := ((((h₀.next hr hs).trans fun _ h => h.next hr hs).trans
    fun _ h => h.next hr hs).trans fun _ h => h.next hr hs).trans fun _ h => h.decides hr hs
  have htime : allocationTime i = 1 + (searchTime i .n100 (restBefore i .n100) +
      (searchTime i .n500 (restBefore i .n500) + (searchTime i .n1000 (restBefore i .n1000) +
        searchTime i .n2000 (restBefore i .n2000)))) + 1 := by
    rw [allocationTime]
    omega
  rw [htime]
  exact ⟨.succ (by simp [h]) hbusy, hf, hb', hd, ho,
    by rw [Bool.eq_iff_iff]; exact hp.trans decide_eq_true_iff.symm⟩

theorem exists_finished {i : AllocatorEdge} (hr : i.reset = false) (hs : i.start = true)
    {c : NoteAllocator} (h : c.systemState = .initial) (hb : c.binarysearchStart = false) :
    ∃ k ≤ 42, Finished i ((clock i)^[k] c) :=
  ⟨_, allocationTime_le i, (finishes hr hs h hb).2⟩

theorem Finished.iterate {i : AllocatorEdge} (hr : i.reset = false) (hs : i.start = true)
    {c : NoteAllocator} (h : Finished i c) (k : Nat) : Finished i ((clock i)^[k] c) := by
  rw [Function.iterate_fixed (clock_finished hr hs h.state)]
  exact h

theorem finished_iff {i : AllocatorEdge} (hr : i.reset = false) (hs : i.start = true)
    {c : NoteAllocator} (h : c.systemState = .initial) (hb : c.binarysearchStart = false) (n : Nat) :
    Finished i ((clock i)^[n] c) ↔ allocationTime i ≤ n := by
  obtain ⟨hbusy, hfin⟩ := finishes hr hs h hb
  constructor
  · intro hf
    by_contra hlt
    exact hbusy n (by omega) hf.state
  · intro hle
    rw [← Nat.sub_add_cancel hle, Function.iterate_add_apply]
    exact hfin.iterate hr hs _

/-! ### Conservation

Whenever `start` comes and goes: what is allotted so far and what is still to allocate make up
the amount, as long as stock, limits and amount stay the same. -/

def settled : AllocatorState → List Denomination
  | .initial | .allocate .n2000 => []
  | .allocate .n1000 => [.n2000]
  | .allocate .n500 => [.n1000, .n2000]
  | .allocate .n100 => [.n500, .n1000, .n2000]
  | .decide | .finished => [.n100, .n500, .n1000, .n2000]

theorem settled_next (d : Denomination) : settled d.next = d :: settled (.allocate d) := by
  cases d <;> rfl

theorem not_mem_settled (d : Denomination) : d ∉ settled (.allocate d) := by
  cases d <;> decide

def paid (o : Notes) (ds : List Denomination) : Nat :=
  (ds.map fun d => d.value * (o.get d).toNat).sum

theorem paid_set_of_not_mem (o : Notes) {d : Denomination} {ds : List Denomination}
    (b : BitVec 8) (h : d ∉ ds) : paid (o.set d b) ds = paid o ds := by
  unfold paid
  congr 1
  apply List.map_congr_left
  intro e he
  have hne : e ≠ d := fun h' => h (h' ▸ he)
  rw [Notes.get_set, if_neg hne]

theorem toNat_ofNat_of_le {i : AllocatorEdge} {d : Denomination} {x : Nat}
    (hx : x ≤ dispensable i d) : (BitVec.ofNat 8 x).toNat = x := by
  have := dispensable_le i d
  rw [BitVec.toNat_ofNat]
  omega

/-- What is allotted in the run under way and what is still to allocate make up the low 31 bits of
the amount. -/
def Conserves (c : NoteAllocator) (amountAsked : BitVec 32) : Prop :=
  c.systemState ≠ .initial →
    c.amountAskedInt + paid c.out (settled c.systemState) = (amountAsked.extractLsb' 0 31).toNat

theorem Conserves.allocate {i : AllocatorEdge} {c : NoteAllocator} {d : Denomination}
    {a : BitVec 32} (h : Conserves c a) (hd : c.systemState = .allocate d) :
    Conserves (allocate d i c) a := by
  have ha := h (by simp [hd])
  rcases allocate_cases d i c with ⟨x, hx, -, ham, hout, hst⟩ | ⟨ham, hout, hst⟩
  · intro _
    have hpaid : paid (c.out.set d (BitVec.ofNat 8 x)) (settled d.next) =
        d.value * x + paid c.out (settled (.allocate d)) := by
      rw [settled_next, ← paid_set_of_not_mem c.out (BitVec.ofNat 8 x) (not_mem_settled d), paid,
        List.map_cons, List.sum_cons, Notes.get_set, if_pos rfl, toNat_ofNat_of_le hx, paid]
    rw [hst, hout, ham, hpaid, ← ha, hd]
    push_cast
    ring
  · rw [Conserves, hst, hout, ham]
    exact h

structure Allocating (i : AllocatorEdge) (c : NoteAllocator) : Prop where
  within : ∀ d ∈ settled c.systemState, (c.out.get d).toNat ≤ dispensable i d
  nonneg : c.systemState ≠ .initial → 0 ≤ c.amountAskedInt
  amount : c.systemState ≠ .initial →
    c.amountAskedInt + paid c.out (settled c.systemState) = lowAmount i
  granted : c.allocationPossible = true → c.systemState = .finished ∧
    i.amountAsked.getLsbD 31 = false ∧ i.amountAsked ≤ i.limits.totalAmount ∧
    c.amountAskedInt = 0

structure Idle (c : NoteAllocator) : Prop where
  state : c.systemState = .initial
  possible : c.allocationPossible = false

theorem Idle.allocating {i : AllocatorEdge} {c : NoteAllocator} (h : Idle c) :
    Allocating i c where
  within := by simp [h.state, settled]
  nonneg := fun h' => absurd h.state h'
  amount := fun h' => absurd h.state h'
  granted := fun h' => by simp [h.possible] at h'

theorem clock_stop {i : AllocatorEdge} {c : NoteAllocator} (h : i.start = false) :
    Idle (clock i c) := by
  cases hr : i.reset with
  | true => simp only [clock, hr]; exact ⟨rfl, rfl⟩
  | false => simp only [clock, hr, h]; exact ⟨rfl, rfl⟩

theorem Allocating.conserves {i : AllocatorEdge} {c : NoteAllocator} (h : Allocating i c) :
    Conserves c i.amountAsked := h.amount

theorem Allocating.allocate {i : AllocatorEdge} {c : NoteAllocator} {d : Denomination}
    (h : Allocating i c) (hd : c.systemState = .allocate d) :
    Allocating i (allocate d i c) := by
  have hn : c.systemState ≠ .initial := by simp [hd]
  have hp : c.allocationPossible ≠ true := fun h' => by simpa [hd] using (h.granted h').1
  have hamount : Conserves (NoteAllocator.allocate d i c) i.amountAsked := h.conserves.allocate hd
  rcases allocate_cases d i c with ⟨x, hx, hle, ham, hout, hst⟩ | ⟨ham, hout, hst⟩
  · refine ⟨?_, fun _ => by rw [ham]; omega, hamount, fun h' => ?_⟩
    · rw [hst, settled_next, hout]
      intro e he
      rw [Notes.get_set]
      split
      · next he' => rw [toNat_ofNat_of_le hx, he']; exact hx
      · next he' => exact h.within e (by rw [hd]; exact (List.mem_cons.mp he).resolve_left he')
    · rw [allocate_allocationPossible] at h'; exact absurd h' hp
  · refine ⟨?_, ?_, hamount, fun h' => ?_⟩
    · rw [hst, hout]; exact h.within
    · rw [hst, ham]; exact h.nonneg
    · rw [allocate_allocationPossible] at h'; exact absurd h' hp

theorem Allocating.clock {i : AllocatorEdge} {c : NoteAllocator} (h : Allocating i c)
    (hr : i.reset = false) : Allocating i (clock i c) := by
  cases hs : i.start with
  | false => exact (clock_stop hs).allocating
  | true =>
    cases hc : c.systemState with
    | initial =>
      have hp : c.allocationPossible ≠ true := fun h' => by simpa [hc] using (h.granted h').1
      simp only [NoteAllocator.clock, hr, hs, hc]
      exact ⟨by simp [settled], fun _ => Int.natCast_nonneg _,
        fun _ => by simp [settled, paid, lowAmount], fun h' => absurd h' hp⟩
    | allocate d =>
      rw [clock_allocate hr hs hc]
      exact h.allocate hc
    | decide =>
      have hn : c.systemState ≠ .initial := by simp [hc]
      have ha := h.amount hn
      have hw := h.within
      rw [hc] at ha hw
      simp only [NoteAllocator.clock, hr, hs, hc]
      exact ⟨hw, fun _ => h.nonneg hn, fun _ => ha, fun h' => ⟨rfl, by simpa using h'⟩⟩
    | finished => rwa [clock_finished hr hs hc]

theorem Allocating.worth {i : AllocatorEdge} {c : NoteAllocator} (h : Allocating i c)
    (hp : c.allocationPossible = true) :
    c.out.worth = i.amountAsked.toNat ∧ ∀ d, (c.out.get d).toNat ≤ (i.stock.get d).toNat := by
  obtain ⟨hf, h31, -, h0⟩ := h.granted hp
  have ha := h.amount (by simp [hf])
  have hw := h.within
  rw [hf] at ha hw
  constructor
  · rw [h0, lowAmount_of_lt ((getLsbD_31_iff _).mp h31)] at ha
    simp [paid, settled, Denomination.value, Notes.get] at ha
    rw [Notes.worth]
    omega
  · intro d
    have := hw d (by cases d <;> decide)
    rw [dispensable_eq] at this
    omega

/-! ### The greedy payment -/

theorem allotted_le (i : AllocatorEdge) (d : Denomination) :
    allotted i d ≤ dispensable i d := min_le_left _ _

theorem greedy_till (i : AllocatorEdge) :
    Change.greedy (till i) (lowAmount i) =
      [allotted i .n2000, allotted i .n1000, allotted i .n500, allotted i .n100] := rfl

theorem mul_allotted_le (i : AllocatorEdge) (d : Denomination) :
    d.value * allotted i d ≤ restBefore i d :=
  (Nat.mul_le_mul_left _ (min_le_right _ _)).trans (Nat.mul_div_le _ _)

theorem worth_add_remainder (i : AllocatorEdge) :
    2000 * allotted i .n2000 + 1000 * allotted i .n1000 + 500 * allotted i .n500 +
      100 * allotted i .n100 + remainder i = lowAmount i := by
  have h₁ : 2000 * allotted i .n2000 ≤ lowAmount i := mul_allotted_le i .n2000
  have h₂ : 1000 * allotted i .n1000 ≤ lowAmount i - 2000 * allotted i .n2000 :=
    mul_allotted_le i .n1000
  have h₃ : 500 * allotted i .n500 ≤ lowAmount i - 2000 * allotted i .n2000 -
    1000 * allotted i .n1000 := mul_allotted_le i .n500
  have h₄ : 100 * allotted i .n100 ≤ lowAmount i - 2000 * allotted i .n2000 -
    1000 * allotted i .n1000 - 500 * allotted i .n500 := mul_allotted_le i .n100
  have hr : remainder i = lowAmount i - 2000 * allotted i .n2000 - 1000 * allotted i .n1000 -
    500 * allotted i .n500 - 100 * allotted i .n100 := rfl
  omega

theorem toNat_allotment (i : AllocatorEdge) (d : Denomination) :
    ((allotment i).get d).toNat = allotted i d := by
  have := (allotted_le i d).trans (dispensable_le i d)
  have h : (allotment i).get d = BitVec.ofNat 8 (allotted i d) := by cases d <;> rfl
  rw [h, BitVec.toNat_ofNat]
  omega

structure Payment (i : AllocatorEdge) (m a b c d : Nat) : Prop where
  n2000 : a ≤ min i.stock.n2000.toNat i.limits.notes.n2000.toNat
  n1000 : b ≤ min i.stock.n1000.toNat i.limits.notes.n1000.toNat
  n500 : c ≤ min i.stock.n500.toNat i.limits.notes.n500.toNat
  n100 : d ≤ min i.stock.n100.toNat i.limits.notes.n100.toNat
  worth : 2000 * a + 1000 * b + 500 * c + 100 * d = m

theorem payment_iff_pays (i : AllocatorEdge) (m a b c d : Nat) :
    Payment i m a b c d ↔ Change.Pays (till i) [a, b, c, d] m := by
  simp only [till, Change.Pays, dispensable_eq]
  constructor
  · rintro ⟨h₁, h₂, h₃, h₄, hw⟩
    exact ⟨h₁, by omega, h₂, by omega, h₃, by omega, h₄, by omega, by omega⟩
  · rintro ⟨h₁, hv₁, h₂, hv₂, h₃, hv₃, h₄, hv₄, hw⟩
    exact ⟨h₁, h₂, h₃, h₄, by omega⟩

theorem payment_allotted {i : AllocatorEdge} (h : remainder i = 0) :
    Payment i (lowAmount i) (allotted i .n2000) (allotted i .n1000) (allotted i .n500)
      (allotted i .n100) := by
  have hw := worth_add_remainder i
  have hle := fun d => (allotted_le i d).trans_eq (dispensable_eq i d)
  exact ⟨hle .n2000, hle .n1000, hle .n500, hle .n100, by omega⟩

theorem Payment.optimal {i : AllocatorEdge} {a b c d : Nat}
    (h : Payment i (lowAmount i) a b c d) :
    remainder i = 0 ∧ allotted i .n2000 + allotted i .n1000 + allotted i .n500 +
      allotted i .n100 ≤ a + b + c + d := by
  have hg := Change.greedy_pays (isChain_till i) ((payment_iff_pays i _ a b c d).mp h)
  rw [greedy_till] at hg
  have hw := ((payment_iff_pays i _ _ _ _ _).mpr hg.1).worth
  have hr := worth_add_remainder i
  have hs := hg.2
  simp only [List.sum_cons, List.sum_nil] at hs
  omega

theorem granted_iff (i : AllocatorEdge) :
    Granted i ↔ i.amountAsked.toNat < 2 ^ 31 ∧
      i.amountAsked.toNat ≤ i.limits.totalAmount.toNat ∧
        ∃ n₁ n₂ n₃ n₄, Payment i i.amountAsked.toNat n₁ n₂ n₃ n₄ := by
  rw [Granted, getLsbD_31_iff]
  refine and_congr_right fun h31 => and_congr_right fun _ => ?_
  rw [← lowAmount_of_lt h31]
  exact ⟨fun hz => ⟨_, _, _, _, payment_allotted hz⟩, fun ⟨_, _, _, _, hp⟩ => hp.optimal.1⟩

/-- With its inputs held the allocator finishes within 42 clock edges; it grants the amount
exactly when some choice of notes pays it, and then with the fewest notes. -/
theorem note_allocation_complete_optimal (i : AllocatorEdge) (hr : i.reset = false)
    (hs : i.start = true) (c : NoteAllocator) (h : c.systemState = .initial)
    (hb : c.binarysearchStart = false) :
    ∃ k ≤ 42, ((clock i)^[k] c).systemState = .finished ∧ ((clock i)^[k] c).done = true ∧
      (((clock i)^[k] c).allocationPossible = true ↔
        i.amountAsked.toNat < 2 ^ 31 ∧ i.amountAsked.toNat ≤ i.limits.totalAmount.toNat ∧
          ∃ n₁ n₂ n₃ n₄, Payment i i.amountAsked.toNat n₁ n₂ n₃ n₄) ∧
      (((clock i)^[k] c).allocationPossible = true →
        Payment i i.amountAsked.toNat ((clock i)^[k] c).out.n2000.toNat
          ((clock i)^[k] c).out.n1000.toNat ((clock i)^[k] c).out.n500.toNat
          ((clock i)^[k] c).out.n100.toNat ∧
        ∀ n₁ n₂ n₃ n₄, Payment i i.amountAsked.toNat n₁ n₂ n₃ n₄ →
          ((clock i)^[k] c).out.count ≤ n₁ + n₂ + n₃ + n₄) := by
  obtain ⟨k, hk, hf⟩ := exists_finished hr hs h hb
  have ho := toNat_allotment i
  refine ⟨k, hk, hf.state, hf.done, ?_, fun hp => ?_⟩
  · rw [hf.allocationPossible, decide_eq_true_iff]
    exact granted_iff i
  · rw [hf.allocationPossible, decide_eq_true_iff, Granted, getLsbD_31_iff] at hp
    obtain ⟨h31, -, hz⟩ := hp
    rw [hf.out, ← lowAmount_of_lt h31, Notes.count]
    have h₁ := ho .n2000
    have h₂ := ho .n1000
    have h₃ := ho .n500
    have h₄ := ho .n100
    simp only [Notes.get] at h₁ h₂ h₃ h₄
    rw [h₁, h₂, h₃, h₄]
    exact ⟨payment_allotted hz, fun _ _ _ _ hp => hp.optimal.2⟩

theorem note_allocation_of_2600 :
    ∃ k ≤ 42, ((clock ⟨false, true, ⟨1, 1, 1, 1⟩, ⟨5000, ⟨9, 9, 9, 9⟩⟩, 2600⟩)^[k]
      powerUp).allocationPossible = true := by
  obtain ⟨k, hk, -, -, hp, -⟩ := note_allocation_complete_optimal
    ⟨false, true, ⟨1, 1, 1, 1⟩, ⟨5000, ⟨9, 9, 9, 9⟩⟩, 2600⟩ rfl rfl powerUp rfl rfl
  refine ⟨k, hk, hp.mpr ⟨by decide, by decide, 1, 0, 1, 1, ?_⟩⟩
  exact ⟨by decide, by decide, by decide, by decide, by decide⟩

end AtmController.Frontend.NoteAllocator
