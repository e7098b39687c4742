import Mathlib.Data.BitVec
import Mathlib.Algebra.Order.Ring.Int

/-! The note allocator: a greedy choice of notes, each denomination by a binary search spread
over clock edges. -/

namespace AtmController.Frontend

inductive Denomination
  | n2000 | n1000 | n500 | n100
  deriving DecidableEq

def Denomination.value : Denomination → Nat
  | .n2000 => 2000
  | .n1000 => 1000
  | .n500 => 500
  | .n100 => 100

@[ext] structure Notes where
  n2000 : BitVec 8
  n1000 : BitVec 8
  n500 : BitVec 8
  n100 : BitVec 8
  deriving DecidableEq

namespace Notes

def get (n : Notes) : Denomination → BitVec 8
  | .n2000 => n.n2000
  | .n1000 => n.n1000
  | .n500 => n.n500
  | .n100 => n.n100

def set (n : Notes) (d : Denomination) (b : BitVec 8) : Notes :=
  match d with
  | .n2000 => { n with n2000 := b }
  | .n1000 => { n with n1000 := b }
  | .n500 => { n with n500 := b }
  | .n100 => { n with n100 := b }

def worth (n : Notes) : Nat :=
  2000 * n.n2000.toNat + 1000 * n.n1000.toNat + 500 * n.n500.toNat + 100 * n.n100.toNat

def count (n : Notes) : Nat :=
  n.n2000.toNat + n.n1000.toNat + n.n500.toNat + n.n100.toNat

theorem get_set (n : Notes) (d e : Denomination) (b : BitVec 8) :
    (n.set d b).get e = if e = d then b else n.get e := by
  cases d <;> cases e <;> rfl

end Notes

structure Limits where
  totalAmount : BitVec 32
  notes : Notes
  deriving DecidableEq

structure AllocatorEdge where
  reset : Bool
  start : Bool
  stock : Notes
  limits : Limits
  amountAsked : BitVec 32

/-- The states `"000"` to `"110"`. -/
inductive AllocatorState
  | initial | allocate (d : Denomination) | decide | finished
  deriving DecidableEq

def AllocatorState.code : AllocatorState → BitVec 3
  | .initial => 0b000
  | .allocate .n2000 => 0b001
  | .allocate .n1000 => 0b010
  | .allocate .n500 => 0b011
  | .allocate .n100 => 0b100
  | .decide => 0b101
  | .finished => 0b110

def Denomination.next : Denomination → AllocatorState
  | .n2000 => .allocate .n1000
  | .n1000 => .allocate .n500
  | .n500 => .allocate .n100
  | .n100 => .decide

structure NoteAllocator where
  systemState : AllocatorState := .initial
  binarysearchStart : Bool := false
  amountAskedInt : Int := 0
  numberOfNotesDispensableInt : Nat := 0
  leftLimit : Nat := 0
  rightLimit : Nat := 0
  middleValue : Nat := 0
  allocationPossible : Bool := false
  done : Bool := false
  out : Notes := ⟨0, 0, 0, 0⟩

namespace NoteAllocator

/-- The notes of a denomination that stock and limit allow. -/
def dispensable (i : AllocatorEdge) (d : Denomination) : Nat :=
  if i.stock.get d < i.limits.notes.get d then (i.stock.get d).toNat
  else (i.limits.notes.get d).toNat

def allocate (d : Denomination) (i : AllocatorEdge) (c : NoteAllocator) : NoteAllocator :=
  let c : NoteAllocator := { c with numberOfNotesDispensableInt := dispensable i d }
  if c.amountAskedInt < d.value * c.numberOfNotesDispensableInt then
    if c.binarysearchStart = false then
      { c with
        binarysearchStart := true
        leftLimit := 0
        rightLimit := c.numberOfNotesDispensableInt }
    else
      let c : NoteAllocator := { c with middleValue := (c.leftLimit + c.rightLimit) / 2 }
      if c.amountAskedInt < d.value * c.middleValue then
        { c with rightLimit := c.middleValue }
      else if c.leftLimit = c.middleValue then
        { c with
          amountAskedInt := c.amountAskedInt - d.value * c.leftLimit
          out := c.out.set d (BitVec.ofNat 8 c.leftLimit)
          systemState := d.next
          binarysearchStart := false }
      else { c with leftLimit := c.middleValue }
  else
    { c with
      amountAskedInt := c.amountAskedInt - d.value * c.numberOfNotesDispensableInt
      out := c.out.set d (BitVec.ofNat 8 c.numberOfNotesDispensableInt)
      systemState := d.next }

def clock (i : AllocatorEdge) (c : NoteAllocator) : NoteAllocator :=
  if i.reset then
    { c with
      systemState := .initial
      allocationPossible := false
      done := false
      amountAskedInt := 0
      numberOfNotesDispensableInt := 0
      binarysearchStart := false }
  else if i.start then
    match c.systemState with
    | .initial =>
      { c with
        done := false
        amountAskedInt := (i.amountAsked.extractLsb' 0 31).toNat
        systemState := .allocate .n2000 }
    | .allocate d => allocate d i c
    | .decide =>
      { c with
        allocationPossible := i.amountAsked.getLsbD 31 = false ∧
          i.amountAsked ≤ i.limits.totalAmount ∧ c.amountAskedInt = 0
        done := true
        systemState := .finished }
    | .finished => c
  else { c with done := false, allocationPossible := false, systemState := .initial }

def powerUp : NoteAllocator := {}

theorem dispensable_eq (i : AllocatorEdge) (d : Denomination) :
    dispensable i d = min (i.stock.get d).toNat (i.limits.notes.get d).toNat := by
  unfold dispensable
  split
  · next h => exact (min_eq_left (Nat.le_of_lt h)).symm
  · next h => exact (min_eq_right (Nat.le_of_not_lt h)).symm

theorem dispensable_le (i : AllocatorEdge) (d : Denomination) : dispensable i d ≤ 255 := by
  rw [dispensable_eq]
  have := (i.stock.get d).isLt
  omega

/-! ### One clock edge -/

/-- An edge that allocates a denomination either settles on a number of notes that stock,
limit and amount allow, or goes on searching. -/
theorem allocate_cases (d : Denomination) (i : AllocatorEdge) (c : NoteAllocator) :
    (∃ x : Nat, x ≤ dispensable i d ∧ (d.value * x : Int) ≤ c.amountAskedInt ∧
      (allocate d i c).amountAskedInt = c.amountAskedInt - d.value * x ∧
      (allocate d i c).out = c.out.set d (BitVec.ofNat 8 x) ∧
      (allocate d i c).systemState = d.next) ∨
    ((allocate d i c).amountAskedInt = c.amountAskedInt ∧ (allocate d i c).out = c.out ∧
      (allocate d i c).systemState = c.systemState) := by
  simp only [allocate]
  split
  · next hlt =>
    split
    · exact .inr ⟨rfl, rfl, rfl⟩
    · split
      · exact .inr ⟨rfl, rfl, rfl⟩
      · next hmid =>
        split
        · next hl =>
          refine .inl ⟨c.leftLimit, ?_, ?_, rfl, rfl, rfl⟩
          · rw [← hl] at hmid
            have h : d.value * c.leftLimit < d.value * dispensable i d := by omega
            exact Nat.le_of_lt (Nat.lt_of_mul_lt_mul_left h)
          · rw [← hl] at hmid; omega
        · exact .inr ⟨rfl, rfl, rfl⟩
  · next hge => exact .inl ⟨dispensable i d, le_rfl, by omega, rfl, rfl, rfl⟩

@[simp] theorem allocate_allocationPossible (d : Denomination) (i : AllocatorEdge)
    (c : NoteAllocator) : (allocate d i c).allocationPossible = c.allocationPossible := by
  simp only [allocate]
  split_ifs <;> rfl

end NoteAllocator

end AtmController.Frontend
