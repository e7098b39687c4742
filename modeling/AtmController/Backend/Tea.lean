import Mathlib.Data.BitVec
import Mathlib.Logic.Function.Iterate

namespace AtmController.Backend

/-- The array `v`: two 32-bit words, `v[0]` and `v[1]`. -/
structure Block where
  v0 : BitVec 32
  v1 : BitVec 32
  deriving DecidableEq, Repr

structure Key where
  k0 : BitVec 32
  k1 : BitVec 32
  k2 : BitVec 32
  k3 : BitVec 32

structure TeaState where
  v0 : BitVec 32
  v1 : BitVec 32
  sum : BitVec 32
  deriving DecidableEq

def delta : BitVec 32 := 0x9e3779b9

def encryptRound (k : Key) (s : TeaState) : TeaState :=
  let sum := s.sum + delta
  let v0 := s.v0 + (((s.v1 <<< 4) + k.k0) ^^^ (s.v1 + sum) ^^^ ((s.v1 >>> 5) + k.k1))
  let v1 := s.v1 + (((v0 <<< 4) + k.k2) ^^^ (v0 + sum) ^^^ ((v0 >>> 5) + k.k3))
  ⟨v0, v1, sum⟩

def decryptRound (k : Key) (s : TeaState) : TeaState :=
  let v1 := s.v1 - (((s.v0 <<< 4) + k.k2) ^^^ (s.v0 + s.sum) ^^^ ((s.v0 >>> 5) + k.k3))
  let v0 := s.v0 - (((v1 <<< 4) + k.k0) ^^^ (v1 + s.sum) ^^^ ((v1 >>> 5) + k.k1))
  ⟨v0, v1, s.sum - delta⟩

def encrypt (v : Block) (k : Key) : Block :=
  let s := (encryptRound k)^[32] ⟨v.v0, v.v1, 0⟩
  ⟨s.v0, s.v1⟩

def decrypt (v : Block) (k : Key) : Block :=
  let s := (decryptRound k)^[32] ⟨v.v0, v.v1, 0xC6EF3720⟩
  ⟨s.v0, s.v1⟩

def key : Key := ⟨0x2927c18c, 0x75f8c48f, 0x43fd99f7, 0xff0f7457⟩

def encrypt64 (inpData : Block) : Block := encrypt inpData key

def decrypt64 (inpData : Block) : Block := decrypt inpData key

theorem decryptRound_encryptRound (k : Key) :
    Function.LeftInverse (decryptRound k) (encryptRound k) := by
  intro s
  simp [decryptRound, encryptRound]

theorem encryptRound_decryptRound (k : Key) :
    Function.LeftInverse (encryptRound k) (decryptRound k) := by
  intro s
  simp [decryptRound, encryptRound]

theorem sum_encryptRound (k : Key) (n : Nat) (s : TeaState) :
    ((encryptRound k)^[n] s).sum = s.sum + BitVec.ofNat 32 n * delta := by
  induction n with
  | zero => simp
  | succ n ih =>
    rw [Function.iterate_succ_apply', BitVec.ofNat_add, BitVec.add_mul, ← BitVec.add_assoc, ← ih]
    simp [encryptRound]

theorem sum_decryptRound (k : Key) (n : Nat) (s : TeaState) :
    ((decryptRound k)^[n] s).sum = s.sum - BitVec.ofNat 32 n * delta := by
  induction n with
  | zero => simp
  | succ n ih =>
    rw [Function.iterate_succ_apply', BitVec.ofNat_add, BitVec.add_mul, ← BitVec.sub_sub, ← ih]
    simp [decryptRound]

theorem sum_end : (0xC6EF3720 : BitVec 32) = BitVec.ofNat 32 32 * delta := by decide

@[simp] theorem decrypt_encrypt (v : Block) (k : Key) : decrypt (encrypt v k) k = v := by
  have hs : ((encryptRound k)^[32] ⟨v.v0, v.v1, 0⟩).sum = 0xC6EF3720 := by
    rw [sum_encryptRound, sum_end]
    exact BitVec.zero_add _
  have he : (⟨(encrypt v k).v0, (encrypt v k).v1, 0xC6EF3720⟩ : TeaState) =
      (encryptRound k)^[32] ⟨v.v0, v.v1, 0⟩ := by
    rw [← hs]; rfl
  simp only [decrypt, he, (decryptRound_encryptRound k).iterate 32 _]

@[simp] theorem encrypt_decrypt (v : Block) (k : Key) : encrypt (decrypt v k) k = v := by
  have hs : ((decryptRound k)^[32] ⟨v.v0, v.v1, 0xC6EF3720⟩).sum = 0 := by
    rw [sum_decryptRound, sum_end]
    exact BitVec.sub_self _
  have he : (⟨(decrypt v k).v0, (decrypt v k).v1, 0⟩ : TeaState) =
      (decryptRound k)^[32] ⟨v.v0, v.v1, 0xC6EF3720⟩ := by
    rw [← hs]; rfl
  simp only [encrypt, he, (encryptRound_decryptRound k).iterate 32 _]

theorem tea_inverses (v : Block) (k : Key) :
    decrypt (encrypt v k) k = v ∧ encrypt (decrypt v k) k = v :=
  ⟨decrypt_encrypt v k, encrypt_decrypt v k⟩

@[simp] theorem decrypt64_encrypt64 (v : Block) : decrypt64 (encrypt64 v) = v :=
  decrypt_encrypt v key

@[simp] theorem encrypt64_decrypt64 (v : Block) : encrypt64 (decrypt64 v) = v :=
  encrypt_decrypt v key

end AtmController.Backend
