import AtmController.Backend.Tea
import AtmController.Lib.Slice

namespace AtmController.Backend

open Slice

/-- `for j: if ((word & (1 << (lo + j))) != 0) field += (1 << j)`, over the bits of `field`. -/
def collectBits (m : Nat) (word : BitVec 32) (lo : Nat) : BitVec m :=
  (List.range m).foldl (fun field j =>
    if word &&& 1#32 <<< (lo + j) ≠ 0 then field + 1#m <<< j else field) 0

def tempSto (word : BitVec 32) (k : Nat) : BitVec 8 := collectBits 8 word (8 * k)

def unhashedPin (word : BitVec 32) : BitVec 16 := collectBits 16 word 0

def userID (word : BitVec 32) : BitVec 16 := collectBits 16 word 16

def num100Admin (word : BitVec 32) : BitVec 8 := collectBits 8 word 0

def num500Admin (word : BitVec 32) : BitVec 8 := collectBits 8 word 8

def num1000Admin (word : BitVec 32) : BitVec 8 := collectBits 8 word 16

def num2000Admin (word : BitVec 32) : BitVec 8 := collectBits 8 word 24

/-- The loop that packs four note counts into a word, for `i = 0, 8, 16, 24`. -/
def packNotes (n2000 n1000 n500 n100 : BitVec 8) : BitVec 32 :=
  1#32 <<< 0 * n100.setWidth 32 + 1#32 <<< 8 * n500.setWidth 32 +
    1#32 <<< 16 * n1000.setWidth 32 + 1#32 <<< 24 * n2000.setWidth 32

def readByte (inp : Block) (i : Nat) (b : BitVec 8) : Block :=
  if i ≤ 4 then { inp with v0 := inp.v0 + b.setWidth 32 * 1#32 <<< (8 * (i - 1)) }
  else { inp with v1 := inp.v1 + b.setWidth 32 * 1#32 <<< (8 * (i - 5)) }

def inpFromFrontEnd (bytes : Nat → BitVec 8) : Block :=
  (List.range' 1 8).foldl (fun inp i => readByte inp i (bytes i)) ⟨0, 0⟩

/-- The byte of a reply for channel `10 + k`, or of the configuration for channel `18 + k`. -/
def replyByte (befEncSen : Block) (k : Nat) : BitVec 8 :=
  if k < 4 then tempSto befEncSen.v0 k else tempSto befEncSen.v1 (k - 4)

theorem collectBits_eq (m : Nat) (word : BitVec 32) (lo : Nat) :
    collectBits m word lo = word.extractLsb' lo m := by
  apply BitVec.eq_of_getLsbD_eq
  intro i hi
  rw [Bool.eq_iff_iff, collectBits, getLsbD_foldl_add (fun _ _ _ _ h => h) hi,
    BitVec.getLsbD_extractLsb', decide_eq_true hi, Bool.true_and, ← and_one_shiftLeft_ne_zero]
  constructor
  · rintro ⟨j, -, hb, rfl⟩
    exact hb
  · exact fun hb => ⟨i, hi, hb, rfl⟩

theorem tempSto_eq (word : BitVec 32) (k : Nat) : tempSto word k = byte word k :=
  collectBits_eq 8 word (8 * k)

theorem byte_join_of_lt (hi lo : BitVec 32) {k : Nat} (h : k < 4) :
    byte (join hi lo) k = byte lo k := by
  apply BitVec.eq_of_getLsbD_eq
  intro i hi'
  simp only [byte, join, BitVec.getLsbD_extractLsb', BitVec.getLsbD_append, hi', decide_true,
    Bool.true_and, show 8 * k + i < 32 by omega, if_true]

theorem byte_join_of_ge (hi lo : BitVec 32) {k : Nat} (h : 4 ≤ k) :
    byte (join hi lo) k = byte hi (k - 4) := by
  apply BitVec.eq_of_getLsbD_eq
  intro i hi'
  simp only [byte, join, BitVec.getLsbD_extractLsb', BitVec.getLsbD_append, hi', decide_true,
    Bool.true_and, show ¬ 8 * k + i < 32 by omega, if_false]
  congr 1
  omega

theorem replyByte_eq (b : Block) (k : Nat) : replyByte b k = byte (join b.v1 b.v0) k := by
  unfold replyByte
  split
  · next h => rw [tempSto_eq, byte_join_of_lt _ _ h]
  · next h => rw [tempSto_eq, byte_join_of_ge _ _ (by omega)]

theorem toNat_setWidth_mul (b : BitVec 8) {k : Nat} (hk : k < 4) :
    (b.setWidth 32 * 1#32 <<< (8 * k)).toNat = b.toNat * 256 ^ k := by
  have hb : (b.setWidth 32).toNat = b.toNat := by
    rw [BitVec.toNat_setWidth]
    exact Nat.mod_eq_of_lt (by omega)
  have hk' : 256 ^ k ≤ 256 ^ 3 := Nat.pow_le_pow_right (by decide) (by omega)
  have hp : (1#32 <<< (8 * k)).toNat = 256 ^ k := by
    rw [BitVec.toNat_shiftLeft, Nat.shiftLeft_eq, Nat.pow_mul]
    exact (congrArg (· % 2 ^ 32) (Nat.one_mul _)).trans
      (Nat.mod_eq_of_lt (show 256 ^ k < 2 ^ 32 by omega))
  have hm : b.toNat * 256 ^ k ≤ 255 * 256 ^ 3 := Nat.mul_le_mul (by omega) hk'
  rw [BitVec.toNat_mul, hb, hp, Nat.mod_eq_of_lt (by omega)]

theorem toNat_shifted_byte (w : BitVec 32) (k : Nat) (hk : k < 4) :
    ((byte w k).setWidth 32 * 1#32 <<< (8 * k)).toNat = w.toNat / 256 ^ k % 256 * 256 ^ k := by
  rw [toNat_setWidth_mul _ hk, byte, BitVec.extractLsb'_toNat, Nat.shiftRight_eq_div_pow,
    Nat.pow_mul]

theorem sum_shifted {x : Nat} (h : x < 2 ^ 32) :
    (((x / 256 ^ 0 % 256 * 256 ^ 0 + x / 256 ^ 1 % 256 * 256 ^ 1) % 2 ^ 32 +
      x / 256 ^ 2 % 256 * 256 ^ 2) % 2 ^ 32 + x / 256 ^ 3 % 256 * 256 ^ 3) % 2 ^ 32 = x := by
  omega

theorem sum_bytes (w : BitVec 32) :
    (byte w 0).setWidth 32 * 1#32 <<< (8 * 0) + (byte w 1).setWidth 32 * 1#32 <<< (8 * 1) +
      (byte w 2).setWidth 32 * 1#32 <<< (8 * 2) + (byte w 3).setWidth 32 * 1#32 <<< (8 * 3) =
      w := by
  apply BitVec.eq_of_toNat_eq
  rw [BitVec.toNat_add, BitVec.toNat_add, BitVec.toNat_add, toNat_shifted_byte w 0 (by decide),
    toNat_shifted_byte w 1 (by decide), toNat_shifted_byte w 2 (by decide),
    toNat_shifted_byte w 3 (by decide)]
  exact sum_shifted w.isLt

theorem inpFromFrontEnd_eq (bytes : Nat → BitVec 8) :
    inpFromFrontEnd bytes =
      ⟨0#32 + (bytes 1).setWidth 32 * 1#32 <<< (8 * 0) +
          (bytes 2).setWidth 32 * 1#32 <<< (8 * 1) + (bytes 3).setWidth 32 * 1#32 <<< (8 * 2) +
          (bytes 4).setWidth 32 * 1#32 <<< (8 * 3),
        0#32 + (bytes 5).setWidth 32 * 1#32 <<< (8 * 0) +
          (bytes 6).setWidth 32 * 1#32 <<< (8 * 1) + (bytes 7).setWidth 32 * 1#32 <<< (8 * 2) +
          (bytes 8).setWidth 32 * 1#32 <<< (8 * 3)⟩ :=
  rfl

theorem inpFromFrontEnd_bytes (v : BitVec 64) {bytes : Nat → BitVec 8}
    (h : ∀ k < 8, bytes (k + 1) = byte v k) : inpFromFrontEnd bytes = ⟨low v, high v⟩ := by
  have hj := join_high_low v
  have hlo : ∀ k < 4, bytes (k + 1) = byte (low v) k := fun k hk => by
    rw [h k (by omega), ← byte_join_of_lt (high v) _ hk, hj]
  have hhi : ∀ k < 4, bytes (k + 5) = byte (high v) k := fun k hk => by
    rw [h (k + 4) (by omega), ← Nat.add_sub_cancel k 4, ← byte_join_of_ge _ (low v) (by omega), hj]
    rfl
  rw [inpFromFrontEnd_eq, hlo 0 (by decide), hlo 1 (by decide), hlo 2 (by decide),
    hlo 3 (by decide), hhi 0 (by decide), hhi 1 (by decide), hhi 2 (by decide), hhi 3 (by decide),
    BitVec.zero_add, BitVec.zero_add, sum_bytes, sum_bytes]

def readUpTo (x : BitVec 64) (i : Nat) : Block :=
  (List.range' 1 i).foldl (fun inp j => readByte inp j (byte x (j - 1))) ⟨0, 0⟩

theorem readUpTo_succ (x : BitVec 64) (i : Nat) :
    readUpTo x (i + 1) = readByte (readUpTo x i) (i + 1) (byte x i) := by
  rw [readUpTo, List.range'_concat, List.foldl_append, Nat.one_mul, Nat.add_comm 1 i]
  rfl

theorem readUpTo_eight (x : BitVec 64) : readUpTo x 8 = ⟨low x, high x⟩ := by
  have hbytes : ∀ k < 8, (fun j => byte x (j - 1)) (k + 1) = byte x k := fun _ _ => rfl
  exact inpFromFrontEnd_bytes x hbytes

theorem packNotes_num (word : BitVec 32) :
    packNotes (num2000Admin word) (num1000Admin word) (num500Admin word) (num100Admin word) =
      word := by
  have hc (k : Nat) : collectBits 8 word (8 * k) = byte word k := collectBits_eq 8 word (8 * k)
  rw [packNotes, num2000Admin, num1000Admin, num500Admin, num100Admin, hc 0, hc 1, hc 2, hc 3,
    BitVec.mul_comm _ ((byte word 0).setWidth 32), BitVec.mul_comm _ ((byte word 1).setWidth 32),
    BitVec.mul_comm _ ((byte word 2).setWidth 32), BitVec.mul_comm _ ((byte word 3).setWidth 32)]
  exact sum_bytes word

theorem byte_packNotes (n2000 n1000 n500 n100 : BitVec 8) :
    byte (packNotes n2000 n1000 n500 n100) 3 = n2000 ∧
      byte (packNotes n2000 n1000 n500 n100) 2 = n1000 ∧
      byte (packNotes n2000 n1000 n500 n100) 1 = n500 ∧
      byte (packNotes n2000 n1000 n500 n100) 0 = n100 := by
  obtain ⟨word, hword⟩ : ∃ word : BitVec 32, word = n2000 ++ n1000 ++ n500 ++ n100 := ⟨_, rfl⟩
  have hbits (i : Nat) : word.getLsbD i =
      if i < 8 then n100.getLsbD i else if i - 8 < 8 then n500.getLsbD (i - 8)
      else if i - 8 - 8 < 8 then n1000.getLsbD (i - 8 - 8) else n2000.getLsbD (i - 8 - 8 - 8) := by
    rw [hword]
    simp only [BitVec.getLsbD_append]
  have hbyte {n : BitVec 8} (k : Nat) (h : ∀ i < 8, word.getLsbD (8 * k + i) = n.getLsbD i) :
      byte word k = n :=
    BitVec.eq_of_getLsbD_eq fun i hi => by simp [byte, hi, h]
  have h₃ : byte word 3 = n2000 := hbyte 3 fun i hi => by
    rw [hbits, if_neg (by omega), if_neg (by omega), if_neg (by omega)]
    congr 1
    omega
  have h₂ : byte word 2 = n1000 := hbyte 2 fun i hi => by
    rw [hbits, if_neg (by omega), if_neg (by omega), if_pos (by omega)]
    congr 1
    omega
  have h₁ : byte word 1 = n500 := hbyte 1 fun i hi => by
    rw [hbits, if_neg (by omega), if_pos (by omega)]
    congr 1
    omega
  have h₀ : byte word 0 = n100 := hbyte 0 fun i hi => by
    rw [hbits, if_pos (by omega)]
    congr 1
    omega
  have hnum := packNotes_num word
  have hc (k : Nat) : collectBits 8 word (8 * k) = byte word k := collectBits_eq 8 word (8 * k)
  rw [num2000Admin, num1000Admin, num500Admin, num100Admin, hc 3, hc 2, hc 1, hc 0, h₃, h₂, h₁,
    h₀] at hnum
  rw [hnum]
  exact ⟨h₃, h₂, h₁, h₀⟩

theorem userID_high (v : BitVec 64) : userID (high v) = v.extractLsb' 48 16 := by
  rw [userID, collectBits_eq, extractLsb'_high v (by decide)]

theorem unhashedPin_high (v : BitVec 64) : unhashedPin (high v) = v.extractLsb' 32 16 := by
  rw [unhashedPin, collectBits_eq, extractLsb'_high v (by decide)]

end AtmController.Backend
