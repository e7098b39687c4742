import AtmController.Lib.Clocked
import AtmController.Lib.Slice
import AtmController.Backend.Tea

namespace AtmController.Frontend

open Clocked Slice Backend

/-- What a cipher samples at a clock edge; `data` is its `plaintext` or `ciphertext` input. -/
structure CipherEdge where
  reset : Bool
  start : Bool
  data : BitVec 64

def cipherDelta : BitVec 32 := 0x9e3779b9

def cipherKey : BitVec 128 := 0xff0f745743fd99f775f8c48f2927c18c

/-- `v(27 downto 0) & "0000"`. -/
def shiftLeft4 (v : BitVec 32) : BitVec 32 := v.extractLsb' 0 28 ++ (0 : BitVec 4)

/-- `"00000" & v(31 downto 5)`. -/
def shiftRight5 (v : BitVec 32) : BitVec 32 := (0 : BitVec 5) ++ v.extractLsb' 5 27

/-- The registers of a cipher; `output` is its `ciphertext` or `plaintext` output. -/
structure Cipher where
  round : Nat := 0
  tea : TeaState
  output : BitVec 64 := 0
  done : Bool := false

namespace Cipher

/-- One clock edge. `sum₀` is the sum a burst starts from and `cycle` the round. -/
def clock (sum₀ : BitVec 32) (cycle : TeaState → TeaState) (i : CipherEdge) (c : Cipher) :
    Cipher :=
  if i.reset then
    { c with round := 0, tea := { c.tea with sum := sum₀ }, output := 0, done := false }
  else if i.start then
    let c₀ := if c.round = 0 then
      { c with done := false, tea := ⟨low i.data, high i.data, sum₀⟩ } else c
    if c.round < 32 then { c₀ with tea := cycle c₀.tea, round := c.round + 1 }
    else if c.round = 32 then
      { c₀ with output := join c₀.tea.v1 c₀.tea.v0, round := 33, done := true }
    else c₀
  else { c with done := false, round := 0 }

end Cipher

def encryptCycle (s : TeaState) : TeaState :=
  let sum := s.sum + cipherDelta
  let v0 := s.v0 + ((shiftLeft4 s.v1 + cipherKey.extractLsb' 0 32) ^^^ (s.v1 + sum) ^^^
    (shiftRight5 s.v1 + cipherKey.extractLsb' 32 32))
  let v1 := s.v1 + ((shiftLeft4 v0 + cipherKey.extractLsb' 64 32) ^^^ (v0 + sum) ^^^
    (shiftRight5 v0 + cipherKey.extractLsb' 96 32))
  ⟨v0, v1, sum⟩

def decryptCycle (s : TeaState) : TeaState :=
  let v1 := s.v1 - ((shiftLeft4 s.v0 + cipherKey.extractLsb' 64 32) ^^^ (s.v0 + s.sum) ^^^
    (shiftRight5 s.v0 + cipherKey.extractLsb' 96 32))
  let v0 := s.v0 - ((shiftLeft4 v1 + cipherKey.extractLsb' 0 32) ^^^ (v1 + s.sum) ^^^
    (shiftRight5 v1 + cipherKey.extractLsb' 32 32))
  ⟨v0, v1, s.sum - cipherDelta⟩

def Encrypter.clock : CipherEdge → Cipher → Cipher := Cipher.clock 0 encryptCycle

def Decrypter.clock : CipherEdge → Cipher → Cipher := Cipher.clock 0xC6EF3720 decryptCycle

def Encrypter.powerUp : Cipher := { tea := ⟨0, 0, 0⟩ }

def Decrypter.powerUp : Cipher := { tea := ⟨0, 0, 0xC6EF3720⟩ }

/-! ### One burst of `start` -/

namespace Cipher

def result (sum₀ : BitVec 32) (cycle : TeaState → TeaState) (p : BitVec 64) : BitVec 64 :=
  join (cycle^[32] ⟨low p, high p, sum₀⟩).v1 (cycle^[32] ⟨low p, high p, sum₀⟩).v0

def After (sum₀ : BitVec 32) (cycle : TeaState → TeaState) (p : BitVec 64) (n : Nat)
    (c : Cipher) : Prop :=
  c.round = min n 33 ∧ c.done = decide (33 ≤ n) ∧
    (0 < n → n ≤ 32 → c.tea = cycle^[n] ⟨low p, high p, sum₀⟩) ∧
    (33 ≤ n → c.output = result sum₀ cycle p)

abbrev Idle (c : Cipher) : Prop := c.round = 0 ∧ c.done = false

variable {sum₀ : BitVec 32} {cycle : TeaState → TeaState} {i : CipherEdge} {c : Cipher}
  {p : BitVec 64} {n : Nat}

theorem after_zero : After sum₀ cycle p 0 c ↔ c.Idle := by
  simp [After, Idle]

theorem clock_reset (hr : i.reset = true) : (clock sum₀ cycle i c).Idle := by
  simp [clock, hr, Idle]

theorem clock_stop (hr : i.reset = false) (hs : i.start = false) :
    (clock sum₀ cycle i c).Idle := by
  simp [clock, hr, hs, Idle]

theorem Idle.first (h : c.Idle) (hr : i.reset = false) (hs : i.start = true) :
    After sum₀ cycle i.data 1 (clock sum₀ cycle i c) := by
  simp [clock, hr, hs, h.1, After]

theorem After.next (h : After sum₀ cycle p n c) (hn : 0 < n) (hr : i.reset = false)
    (hs : i.start = true) : After sum₀ cycle p (n + 1) (clock sum₀ cycle i c) := by
  obtain ⟨h1, h2, h3, h4⟩ := h
  have h0 : c.round ≠ 0 := by omega
  rcases (by omega : n < 32 ∨ n = 32 ∨ 33 ≤ n) with hlt | rfl | hge
  · have hc : c.round < 32 := by omega
    simp only [clock, hr, hs, h0, hc, if_true, if_false, Bool.false_eq_true, After]
    refine ⟨by omega, by simp [h2]; omega, fun _ _ => ?_, by omega⟩
    rw [h3 hn (by omega), Function.iterate_succ_apply']
  · have hc : c.round = 32 := by omega
    simp [clock, hr, hs, hc, After, h3 hn (by omega), result]
  · have hc : c.round = 33 := by omega
    simp only [clock, hr, hs, hc, if_false, Bool.false_eq_true, After]
    exact ⟨by simp [hc]; omega, by simp [h2]; omega, by omega, fun _ => h4 hge⟩

theorem After.output (h : After sum₀ cycle p n c) (hd : c.done = true) :
    c.output = result sum₀ cycle p := by
  obtain ⟨-, h2, -, h4⟩ := h
  exact h4 (by simpa [hd] using h2)

/-- At work on the data `p`, `n` edges into its burst; `start` is what the next edge samples, and
it may be the first. -/
def WorkingAt (sum₀ : BitVec 32) (cycle : TeaState → TeaState) (p : BitVec 64) (start : Bool)
    (n : Nat) (c : Cipher) : Prop :=
  After sum₀ cycle p n c ∧ (start = false → n = 0)

def Working (sum₀ : BitVec 32) (cycle : TeaState → TeaState) (p : BitVec 64) (start : Bool)
    (c : Cipher) : Prop :=
  ∃ n, WorkingAt sum₀ cycle p start n c

def Finished (sum₀ : BitVec 32) (cycle : TeaState → TeaState) (p : BitVec 64) (c : Cipher) :
    Prop :=
  ∃ n, 33 ≤ n ∧ After sum₀ cycle p n c

theorem Idle.workingAt (h : c.Idle) (start : Bool) : WorkingAt sum₀ cycle p start 0 c :=
  ⟨after_zero.mpr h, fun _ => rfl⟩

theorem Idle.working (h : c.Idle) (start : Bool) : Working sum₀ cycle p start c :=
  ⟨0, h.workingAt start⟩

theorem WorkingAt.clock {start : Bool} (h : WorkingAt sum₀ cycle p start n c) :
    WorkingAt sum₀ cycle p true (if start then n + 1 else 0)
      (clock sum₀ cycle ⟨false, start, p⟩ c) := by
  obtain ⟨hn, hs⟩ := h
  cases start with
  | false => exact (clock_stop rfl rfl).workingAt true
  | true =>
    cases n with
    | zero => exact ⟨(after_zero.mp hn).first rfl rfl, by simp⟩
    | succ n => exact ⟨hn.next (by omega) rfl rfl, by simp⟩

theorem Working.clock {start : Bool} (h : Working sum₀ cycle p start c) :
    Working sum₀ cycle p true (clock sum₀ cycle ⟨false, start, p⟩ c) := by
  obtain ⟨n, hn⟩ := h
  exact ⟨_, hn.clock⟩

theorem WorkingAt.finished {start : Bool} (h : WorkingAt sum₀ cycle p start n c)
    (hd : c.done = true) : start = true ∧ 33 ≤ n := by
  obtain ⟨hn, hs⟩ := h
  have h33 : 33 ≤ n := by simpa [hd] using hn.2.1
  cases start with
  | false => exact absurd (hs rfl) (by omega)
  | true => exact ⟨rfl, h33⟩

theorem Working.finished {start : Bool} (h : Working sum₀ cycle p start c)
    (hd : c.done = true) : start = true ∧ Finished sum₀ cycle p c := by
  obtain ⟨n, hn⟩ := h
  obtain ⟨hs, h33⟩ := hn.finished hd
  exact ⟨hs, n, h33, hn.1⟩

theorem Finished.clock (h : Finished sum₀ cycle p c) (hr : i.reset = false)
    (hs : i.start = true) : Finished sum₀ cycle p (clock sum₀ cycle i c) := by
  obtain ⟨n, h33, hn⟩ := h
  exact ⟨n + 1, by omega, hn.next (by omega) hr hs⟩

theorem Finished.output (h : Finished sum₀ cycle p c) : c.output = result sum₀ cycle p := by
  obtain ⟨n, h33, hn⟩ := h
  exact hn.2.2.2 h33

theorem Finished.done (h : Finished sum₀ cycle p c) : c.done = true := by
  obtain ⟨n, h33, hn⟩ := h
  simp [hn.2.1, h33]

theorem clock_output_of_stop (hr : i.reset = false) (hs : i.start = false) :
    (clock sum₀ cycle i c).output = c.output := by
  simp [clock, hr, hs]

/-- The edges of the current burst of `start`: the last edges without a reset or a pause. -/
def burst (h : List CipherEdge) : List CipherEdge :=
  (h.reverse.takeWhile fun i => i.start && !i.reset).reverse

theorem burst_concat (h : List CipherEdge) (i : CipherEdge) :
    burst (h ++ [i]) = if i.start && !i.reset then burst h ++ [i] else [] := by
  simp only [burst, List.reverse_append, List.reverse_singleton, List.singleton_append,
    List.takeWhile_cons]
  split <;> simp

theorem after_run (h : List CipherEdge) {c : Cipher} (hc : c.Idle) (p : BitVec 64) :
    After sum₀ cycle (((burst h).head?.map CipherEdge.data).getD p) (burst h).length
      (run (clock sum₀ cycle) c h) := by
  induction h using List.reverseRecOn with
  | nil => exact after_zero.mpr hc
  | append_singleton h i ih =>
    rw [run_concat, burst_concat]
    by_cases hr : i.reset
    · simpa [hr, after_zero] using clock_reset hr
    by_cases hs : i.start
    · simp only [hr, hs, Bool.not_false, Bool.and_true, if_true, List.length_append,
        List.length_singleton]
      simp only [Bool.not_eq_true] at hr
      cases hb : burst h with
      | nil =>
        rw [hb] at ih
        exact (after_zero.mp ih).first hr hs
      | cons j js =>
        rw [hb] at ih
        exact ih.next (by simp) hr hs
    · simp only [Bool.not_eq_true] at hr hs
      simpa [hr, hs, after_zero] using clock_stop hr hs

theorem length_burst_append (h b : List CipherEdge)
    (hb : ∀ i ∈ b, i.start = true ∧ i.reset = false) :
    b.length ≤ (burst (h ++ b)).length := by
  induction b using List.reverseRecOn with
  | nil => simp
  | append_singleton b i ih =>
    have hi := hb i (by simp)
    have := ih fun j hj => hb j (by simp [hj])
    rw [← List.append_assoc, burst_concat]
    simp [hi]
    omega

theorem output_of_done (h : List CipherEdge) (hc : c.Idle)
    (hd : (run (clock sum₀ cycle) c h).done = true) :
    ∃ i, (burst h).head? = some i ∧
      (run (clock sum₀ cycle) c h).output = result sum₀ cycle i.data := by
  have ha : After sum₀ cycle _ _ (run (clock sum₀ cycle) c h) := after_run h hc 0
  cases hb : burst h with
  | nil => simp [After, hb, hd] at ha
  | cons i is =>
    rw [hb] at ha
    exact ⟨i, rfl, ha.output hd⟩

theorem done_of_burst (h b : List CipherEdge) (hc : c.Idle) (hl : b.length = 33)
    (hb : ∀ i ∈ b, i.start = true ∧ i.reset = false) :
    (run (clock sum₀ cycle) c (h ++ b)).done = true := by
  have hlen := length_burst_append h b hb
  have ha : After sum₀ cycle _ _ (run (clock sum₀ cycle) c (h ++ b)) := after_run (h ++ b) hc 0
  rw [ha.2.1]
  exact decide_eq_true (by omega)

end Cipher

/-! ### The ciphers of the C program -/

theorem shiftLeft4_eq (v : BitVec 32) : shiftLeft4 v = v <<< 4 := by
  apply BitVec.eq_of_getLsbD_eq
  intro i hi
  simp only [shiftLeft4, BitVec.getLsbD_append, BitVec.getLsbD_extractLsb',
    BitVec.getLsbD_shiftLeft]
  by_cases h : i < 4
  · simp [h]
  · simp [h, hi, show i - 4 < 28 by omega]

theorem shiftRight5_eq (v : BitVec 32) : shiftRight5 v = v >>> 5 := by
  apply BitVec.eq_of_getLsbD_eq
  intro i hi
  simp only [shiftRight5, BitVec.getLsbD_append, BitVec.getLsbD_extractLsb',
    BitVec.getLsbD_ushiftRight]
  by_cases h : i < 27
  · simp [h]
  · simp [h, BitVec.getLsbD_of_ge v (5 + i) (by omega)]

theorem cipherKey_words :
    cipherKey.extractLsb' 0 32 = key.k0 ∧ cipherKey.extractLsb' 32 32 = key.k1 ∧
      cipherKey.extractLsb' 64 32 = key.k2 ∧ cipherKey.extractLsb' 96 32 = key.k3 := by
  decide

theorem encryptCycle_eq : encryptCycle = encryptRound key := by
  obtain ⟨h0, h1, h2, h3⟩ := cipherKey_words
  funext s
  simp only [encryptCycle, encryptRound, shiftLeft4_eq, shiftRight5_eq, h0, h1, h2, h3]
  rfl

theorem decryptCycle_eq : decryptCycle = decryptRound key := by
  obtain ⟨h0, h1, h2, h3⟩ := cipherKey_words
  funext s
  simp only [decryptCycle, decryptRound, shiftLeft4_eq, shiftRight5_eq, h0, h1, h2, h3]
  rfl

def words (v : BitVec 64) : Block := ⟨low v, high v⟩

def ofWords (b : Block) : BitVec 64 := join b.v1 b.v0

@[simp] theorem words_ofWords (b : Block) : words (ofWords b) = b := by
  simp [words, ofWords]

@[simp] theorem ofWords_words (v : BitVec 64) : ofWords (words v) = v := by
  simp [words, ofWords]

def encipher (v : BitVec 64) : BitVec 64 := ofWords (encrypt64 (words v))

def decipher (v : BitVec 64) : BitVec 64 := ofWords (decrypt64 (words v))

@[simp] theorem decipher_encipher (v : BitVec 64) : decipher (encipher v) = v := by
  simp [decipher, encipher]

@[simp] theorem encipher_decipher (v : BitVec 64) : encipher (decipher v) = v := by
  simp [decipher, encipher]

theorem result_encrypt (p : BitVec 64) : Cipher.result 0 encryptCycle p = encipher p := by
  rw [encryptCycle_eq]; rfl

theorem result_decrypt (p : BitVec 64) :
    Cipher.result 0xC6EF3720 decryptCycle p = decipher p := by
  rw [decryptCycle_eq]; rfl

/-- Over every history of clock edges the hardware ciphers show what the C functions compute
on the data of the first edge of the current burst, and 33 edges of a burst suffice. -/
theorem ciphers_refine_c (h : List CipherEdge) :
    ((run Encrypter.clock Encrypter.powerUp h).done = true →
      ∃ i, (Cipher.burst h).head? = some i ∧
        words (run Encrypter.clock Encrypter.powerUp h).output = encrypt64 (words i.data)) ∧
    ((run Decrypter.clock Decrypter.powerUp h).done = true →
      ∃ i, (Cipher.burst h).head? = some i ∧
        words (run Decrypter.clock Decrypter.powerUp h).output = decrypt64 (words i.data)) ∧
    (∀ b : List CipherEdge, b.length = 33 → (∀ i ∈ b, i.start = true ∧ i.reset = false) →
      (run Encrypter.clock Encrypter.powerUp (h ++ b)).done = true ∧
      (run Decrypter.clock Decrypter.powerUp (h ++ b)).done = true) := by
  have he : Cipher.Idle Encrypter.powerUp := ⟨rfl, rfl⟩
  have hd : Cipher.Idle Decrypter.powerUp := ⟨rfl, rfl⟩
  refine ⟨fun h1 => ?_, fun h1 => ?_, fun b hl hb => ?_⟩
  · obtain ⟨i, hi, ho⟩ := Cipher.output_of_done h he h1
    exact ⟨i, hi, by rw [Encrypter.clock, ho, result_encrypt, encipher, words_ofWords]⟩
  · obtain ⟨i, hi, ho⟩ := Cipher.output_of_done h hd h1
    exact ⟨i, hi, by rw [Decrypter.clock, ho, result_decrypt, decipher, words_ofWords]⟩
  · exact ⟨Cipher.done_of_burst h b he hl hb, Cipher.done_of_burst h b hd hl hb⟩

end AtmController.Frontend
