import AtmController.Lib.Clocked
import AtmController.Frontend.Allocation

namespace AtmController.Frontend.NoteAllocator

open Clocked

variable {i : AllocatorEdge} {c : NoteAllocator} {d : Denomination} {a : BitVec 32}

/-- The ranges that the variables of the process are declared with. -/
structure InRange (c : NoteAllocator) : Prop where
  nonneg : 0 ≤ c.amountAskedInt
  amount : c.amountAskedInt ≤ 2147483647
  dispensable : c.numberOfNotesDispensableInt ≤ 255
  left : c.leftLimit ≤ 255
  right : c.rightLimit ≤ 255
  middle : c.middleValue ≤ 255

def Assigns (i : AllocatorEdge) (d : Denomination) (c : NoteAllocator) : Prop :=
  i.reset = false ∧ i.start = true ∧ c.systemState = .allocate d ∧
    (clock i c).systemState = d.next

def latch (i : AllocatorEdge) (c : NoteAllocator) (a : BitVec 32) : BitVec 32 :=
  if i.reset = false ∧ i.start = true ∧ c.systemState = .initial then i.amountAsked else a

theorem next_ne (d : Denomination) : d.next ≠ .allocate d := by cases d <;> decide

/-! ### The ranges -/

theorem allocate_numberOfNotesDispensableInt (d : Denomination) (i : AllocatorEdge)
    (c : NoteAllocator) : (allocate d i c).numberOfNotesDispensableInt = dispensable i d := by
  simp only [allocate]
  split_ifs <;> rfl

theorem InRange.search (h : InRange c) (d : Denomination) (i : AllocatorEdge) :
    (allocate d i c).leftLimit ≤ 255 ∧ (allocate d i c).rightLimit ≤ 255 ∧
      (allocate d i c).middleValue ≤ 255 := by
  have hmid : (c.leftLimit + c.rightLimit) / 2 ≤ 255 := by
    have := h.left
    have := h.right
    omega
  simp only [NoteAllocator.allocate]
  split_ifs
  · exact ⟨Nat.zero_le _, dispensable_le i d, h.middle⟩
  · exact ⟨h.left, hmid, hmid⟩
  · exact ⟨h.left, h.right, hmid⟩
  · exact ⟨hmid, h.right, hmid⟩
  · exact ⟨h.left, h.right, h.middle⟩

theorem InRange.allocate (h : InRange c) (d : Denomination) (i : AllocatorEdge) :
    InRange (allocate d i c) := by
  obtain ⟨hleft, hright, hmiddle⟩ := h.search d i
  have hdisp : (NoteAllocator.allocate d i c).numberOfNotesDispensableInt ≤ 255 := by
    rw [allocate_numberOfNotesDispensableInt]
    exact dispensable_le i d
  rcases allocate_cases d i c with ⟨x, -, hle, ham, -, -⟩ | ⟨ham, -, -⟩
  · have hx : (0 : Int) ≤ d.value * x :=
      Int.mul_nonneg (Int.natCast_nonneg _) (Int.natCast_nonneg _)
    have := h.amount
    exact ⟨by omega, by omega, hdisp, hleft, hright, hmiddle⟩
  · exact ⟨ham ▸ h.nonneg, ham ▸ h.amount, hdisp, hleft, hright, hmiddle⟩

theorem InRange.clock (h : InRange c) (i : AllocatorEdge) : InRange (clock i c) := by
  have hlow : (i.amountAsked.extractLsb' 0 31).toNat < 2 ^ 31 := BitVec.isLt _
  unfold NoteAllocator.clock
  split
  · exact ⟨le_rfl, Int.zero_le_ofNat _, Nat.zero_le _, h.left, h.right, h.middle⟩
  · split
    · split
      · exact ⟨Int.natCast_nonneg _, show ((_ : Nat) : Int) ≤ _ by omega, h.dispensable, h.left,
          h.right, h.middle⟩
      · exact h.allocate _ i
      · exact ⟨h.nonneg, h.amount, h.dispensable, h.left, h.right, h.middle⟩
      · exact h
    · exact ⟨h.nonneg, h.amount, h.dispensable, h.left, h.right, h.middle⟩

theorem inRange_run (is : List AllocatorEdge) : InRange (run clock powerUp is) :=
  run_invariant (fun i _ h => h.clock i)
    ⟨le_rfl, by decide, Nat.zero_le _, Nat.zero_le _, Nat.zero_le _, Nat.zero_le _⟩ is

/-! ### The outputs -/

theorem Assigns.le (h : Assigns i d c) :
    ((clock i c).out.get d).toNat ≤ min (i.stock.get d).toNat (i.limits.notes.get d).toNat := by
  obtain ⟨hr, hs, hd, hnext⟩ := h
  rw [clock_allocate hr hs hd] at hnext ⊢
  rw [← dispensable_eq]
  rcases allocate_cases d i c with ⟨x, hx, -, -, hout, -⟩ | ⟨-, -, hst⟩
  · rw [hout, Notes.get_set, if_pos rfl, toNat_ofNat_of_le hx]
    exact hx
  · exact absurd ((hnext.symm.trans hst).trans hd) (next_ne d)

theorem get_out_of_not_assigns (h : ¬ Assigns i d c) :
    (clock i c).out.get d = c.out.get d := by
  cases hr : i.reset with
  | true => simp [clock, hr]
  | false =>
    cases hs : i.start with
    | false => simp [clock, hr, hs]
    | true =>
      cases hc : c.systemState with
      | initial => simp [clock, hr, hs, hc]
      | decide => simp [clock, hr, hs, hc]
      | finished => simp [clock, hr, hs, hc]
      | allocate e =>
        rw [clock_allocate hr hs hc]
        rcases allocate_cases e i c with ⟨x, -, -, -, hout, hst⟩ | ⟨-, hout, -⟩
        · have hne : d ≠ e := by
            rintro rfl
            exact h ⟨hr, hs, hc, by rw [clock_allocate hr hs hc, hst]⟩
          rw [hout, Notes.get_set, if_neg hne]
        · rw [hout]

/-! ### Conservation -/

theorem Conserves.clock (h : Conserves c a) (i : AllocatorEdge) :
    Conserves (clock i c) (latch i c a) := by
  cases hr : i.reset with
  | true => exact fun hn => absurd (by simp [NoteAllocator.clock, hr]) hn
  | false =>
    cases hs : i.start with
    | false => exact fun hn => absurd (clock_stop hs).state hn
    | true =>
      cases hc : c.systemState with
      | initial =>
        rw [latch, if_pos ⟨hr, hs, hc⟩]
        simp [Conserves, NoteAllocator.clock, hr, hs, hc, settled, paid]
      | allocate d =>
        rw [latch, if_neg (by simp [hc]), clock_allocate hr hs hc]
        exact h.allocate hc
      | decide =>
        have ha := h (by simp [hc])
        rw [latch, if_neg (by simp [hc])]
        simpa [Conserves, NoteAllocator.clock, hr, hs, hc, settled] using ha
      | finished =>
        rw [latch, if_neg (by simp [hc]), clock_finished hr hs hc]
        exact h

/-- The amount that was latched at the last state-000 edge of a run; `a` before there was one. -/
def latched (a : BitVec 32) (is : List AllocatorEdge) : BitVec 32 :=
  (run (ghost clock latch) (powerUp, a) is).2

theorem conserves_run (a : BitVec 32) (is : List AllocatorEdge) :
    Conserves (run clock powerUp is) (latched a is) := by
  have h : Conserves (run (ghost clock latch) (powerUp, a) is).1 (latched a is) :=
    run_invariant (P := fun x : NoteAllocator × BitVec 32 => Conserves x.1 x.2)
      (fun i _ hx => hx.clock i) (fun hn => absurd rfl hn) is
  rwa [run_ghost_fst] at h

/-- Whatever the inputs do at each edge, with resets and runs given up in mid-search: the variables
stay in their ranges, an edge that assigns an output assigns at most what its own stock and limit
allow, no other edge changes an output, and a finished run has split the amount it latched. -/
theorem allocator_never_overallocates (is : List AllocatorEdge) (a : BitVec 32) :
    InRange (run clock powerUp is) ∧
    (∀ i d, Assigns i d (run clock powerUp is) →
      ((clock i (run clock powerUp is)).out.get d).toNat ≤
        min (i.stock.get d).toNat (i.limits.notes.get d).toNat) ∧
    (∀ i d, ¬ Assigns i d (run clock powerUp is) →
      (clock i (run clock powerUp is)).out.get d = (run clock powerUp is).out.get d) ∧
    ((run clock powerUp is).systemState = .finished →
      2000 * (run clock powerUp is).out.n2000.toNat +
        1000 * (run clock powerUp is).out.n1000.toNat +
        500 * (run clock powerUp is).out.n500.toNat + 100 * (run clock powerUp is).out.n100.toNat +
        (run clock powerUp is).amountAskedInt = ((latched a is).extractLsb' 0 31).toNat) := by
  refine ⟨inRange_run is, fun i d h => h.le, fun i d h => get_out_of_not_assigns h, fun hf => ?_⟩
  have h := conserves_run a is (by simp [hf])
  rw [hf] at h
  simp only [settled, paid, List.map_cons, List.map_nil, List.sum_cons, List.sum_nil, Notes.get,
    Denomination.value] at h
  push_cast at h
  omega

end AtmController.Frontend.NoteAllocator
