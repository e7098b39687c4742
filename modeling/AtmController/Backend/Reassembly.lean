import AtmController.Backend.Host

/-! The arithmetic of the loops that read channels 1 to 8: the words are unsigned, but what is added
to them is computed in `int`. -/

namespace AtmController.Backend

def temp1 (i : Nat) : BitVec 32 := 8 * (.ofNat 32 i - 1)

/-- `uint32_t temp2 = 8 * (i - 5)`, which wraps for the channels up to 4. -/
def temp2 (i : Nat) : BitVec 32 := 8 * (.ofNat 32 i - 5)

/-- The value of the shift that the turn for channel `i` evaluates, `1 << temp1` or `1 << temp2`. -/
def shifted (i : Nat) : Int := 2 ^ (if i ≤ 4 then temp1 i else temp2 i).toNat

def product (i : Nat) (readFromChannel : BitVec 8) : Int := readFromChannel.toNat * shifted i

def IsInt (z : Int) : Prop := -2 ^ 31 ≤ z ∧ z < 2 ^ 31

instance (z : Int) : Decidable (IsInt z) := inferInstanceAs (Decidable (_ ∧ _))

structure Reassembles (bytes : Nat → BitVec 8) : Prop where
  shifts : ∀ i, 1 ≤ i → i ≤ 8 → IsInt (shifted i)
  products : ∀ i, 1 ≤ i → i ≤ 8 → IsInt (product i (bytes i))
  low : (inpFromFrontEnd bytes).v0.toNat =
    ((List.range' 1 4).map fun i => (bytes i).toNat * 2 ^ (8 * (i - 1))).sum
  high : (inpFromFrontEnd bytes).v1.toNat =
    ((List.range' 5 4).map fun i => (bytes i).toNat * 2 ^ (8 * (i - 5))).sum

variable {bytes : Nat → BitVec 8} {i : Nat}

theorem shifted_eq (h1 : 1 ≤ i) (h8 : i ≤ 8) : shifted i = 256 ^ ((i - 1) % 4) := by
  have hcases : i = 1 ∨ i = 2 ∨ i = 3 ∨ i = 4 ∨ i = 5 ∨ i = 6 ∨ i = 7 ∨ i = 8 := by omega
  rcases hcases with rfl | rfl | rfl | rfl | rfl | rfl | rfl | rfl <;> rfl

theorem readByte_eq (h1 : 1 ≤ i) (h8 : i ≤ 8) (inp : Block) (b : BitVec 8) :
    readByte inp i b =
      if i ≤ 4 then { inp with v0 := inp.v0 + .ofInt 32 (product i b) }
      else { inp with v1 := inp.v1 + .ofInt 32 (product i b) } := by
  have hp (k : Nat) (hk : k < 4) (hi : (i - 1) % 4 = k) :
      BitVec.ofInt 32 (product i b) = b.setWidth 32 * 1#32 <<< (8 * k) := by
    apply BitVec.eq_of_toNat_eq
    have hcast : product i b = ((b.toNat * 256 ^ k : Nat) : Int) := by
      rw [product, shifted_eq h1 h8, hi]
      push_cast
      rfl
    rw [hcast, BitVec.ofInt_natCast, BitVec.toNat_ofNat, ← toNat_setWidth_mul b hk]
    exact Nat.mod_eq_of_lt (BitVec.isLt _)
  unfold readByte
  split
  · next h4 => rw [hp (i - 1) (by omega) (by omega)]
  · next h4 => rw [hp (i - 5) (by omega) (by omega)]

theorem isInt_shifted (h1 : 1 ≤ i) (h8 : i ≤ 8) : IsInt (shifted i) := by
  have hcases : (i - 1) % 4 = 0 ∨ (i - 1) % 4 = 1 ∨ (i - 1) % 4 = 2 ∨ (i - 1) % 4 = 3 := by omega
  rw [shifted_eq h1 h8]
  rcases hcases with h | h | h | h <;> rw [h] <;> decide

theorem isInt_product_iff (h1 : 1 ≤ i) (h8 : i ≤ 8) (b : BitVec 8) :
    IsInt (product i b) ↔ (i - 1) % 4 = 3 → b.toNat < 128 := by
  have hb := b.isLt
  have hcases : (i - 1) % 4 = 0 ∨ (i - 1) % 4 = 1 ∨ (i - 1) % 4 = 2 ∨ (i - 1) % 4 = 3 := by omega
  rw [product, shifted_eq h1 h8, IsInt]
  rcases hcases with h | h | h | h <;> rw [h] <;> omega

theorem toNat_sum_bytes (b₀ b₁ b₂ b₃ : BitVec 8) :
    (0#32 + b₀.setWidth 32 * 1#32 <<< (8 * 0) + b₁.setWidth 32 * 1#32 <<< (8 * 1) +
      b₂.setWidth 32 * 1#32 <<< (8 * 2) + b₃.setWidth 32 * 1#32 <<< (8 * 3)).toNat =
      b₀.toNat * 2 ^ 0 + (b₁.toNat * 2 ^ 8 + (b₂.toNat * 2 ^ 16 + b₃.toNat * 2 ^ 24)) := by
  have h₀ := b₀.isLt
  have h₁ := b₁.isLt
  have h₂ := b₂.isLt
  have h₃ := b₃.isLt
  rw [BitVec.zero_add, BitVec.toNat_add, BitVec.toNat_add, BitVec.toNat_add,
    toNat_setWidth_mul b₀ (by decide), toNat_setWidth_mul b₁ (by decide),
    toNat_setWidth_mul b₂ (by decide), toNat_setWidth_mul b₃ (by decide)]
  omega

theorem sum_range'_four (f : Nat → Nat) (a : Nat) :
    ((List.range' a 4).map f).sum = f a + (f (a + 1) + (f (a + 2) + f (a + 3))) := by
  simp [List.range'_succ]

theorem toNat_inpFromFrontEnd_v0 (bytes : Nat → BitVec 8) :
    (inpFromFrontEnd bytes).v0.toNat =
      ((List.range' 1 4).map fun i => (bytes i).toNat * 2 ^ (8 * (i - 1))).sum := by
  have h := congrArg Block.v0 (inpFromFrontEnd_eq bytes)
  rw [h, toNat_sum_bytes, sum_range'_four]

theorem toNat_inpFromFrontEnd_v1 (bytes : Nat → BitVec 8) :
    (inpFromFrontEnd bytes).v1.toNat =
      ((List.range' 5 4).map fun i => (bytes i).toNat * 2 ^ (8 * (i - 5))).sum := by
  have h := congrArg Block.v1 (inpFromFrontEnd_eq bytes)
  rw [h, toNat_sum_bytes, sum_range'_four]

theorem complete_bytes (bankID : BitVec 5) (valRead : BitVec 8) (rows csv : List Row)
    (bytes : Nat → BitVec 8) :
    (List.range' 1 8).foldl (fun h i => h.complete bankID (bytes i))
        ⟨.readInput valRead 0 ⟨0, 0⟩, rows, csv⟩ =
      Host.answer bankID valRead (inpFromFrontEnd bytes)
        ⟨.readInput valRead 7
          ((List.range' 1 7).foldl (fun inp i => readByte inp i (bytes i)) ⟨0, 0⟩), rows, csv⟩ :=
  rfl

/-- The bytes are put together without an overflow exactly when those of channels 4 and 8 are below
128: a larger one, times `1 << 24`, is beyond `int`. -/
theorem reassembles_iff (bytes : Nat → BitVec 8) :
    Reassembles bytes ↔ (bytes 4).toNat < 128 ∧ (bytes 8).toNat < 128 := by
  constructor
  · intro h
    have h₄ := h.products 4 (by decide) (by decide)
    have h₈ := h.products 8 (by decide) (by decide)
    exact ⟨(isInt_product_iff (by decide) (by decide) _).mp h₄ rfl,
      (isInt_product_iff (by decide) (by decide) _).mp h₈ rfl⟩
  · rintro ⟨h₄, h₈⟩
    refine ⟨fun _ => isInt_shifted, fun i h1 h8 => (isInt_product_iff h1 h8 _).mpr fun hi => ?_,
      toNat_inpFromFrontEnd_v0 bytes, toNat_inpFromFrontEnd_v1 bytes⟩
    have hcases : i = 4 ∨ i = 8 := by omega
    rcases hcases with rfl | rfl
    · exact h₄
    · exact h₈

theorem not_reassembles_bit_31 : ¬ Reassembles fun i => if i = 4 then 128 else 0 := by
  intro h
  have h₄ := h.products 4 (by decide) (by decide)
  exact absurd h₄ (by decide)

end AtmController.Backend
