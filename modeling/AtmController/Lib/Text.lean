import Mathlib.Data.List.TakeWhile
import Mathlib.Tactic.ByContra
import Mathlib.Tactic.Cases

/-! Text as the C library reads and writes it: `fprintf` and `sscanf` with `%d`, the lines of
`getline`, which may have nulls in them, and the tokens of `strtok`. -/

namespace Text

def printInt (z : Int) : List Char :=
  if z < 0 then '-' :: Nat.toDigits 10 z.natAbs else Nat.toDigits 10 z.natAbs

/-- `isspace` in the C locale. -/
def isSpace (c : Char) : Bool := [' ', '\t', '\n', '\x0b', '\x0c', '\r'].contains c

def scanSign : List Char → Bool × List Char
  | '-' :: cs => (true, cs)
  | '+' :: cs => (false, cs)
  | cs => (false, cs)

/-- A number as a `long` of 64 bits; `strtol` stops at the bounds. -/
def toLong (z : Int) : Int := max (-9223372036854775808) (min z 9223372036854775807)

theorem toLong_eq {z : Int} (h : -9223372036854775808 ≤ z) (h' : z ≤ 9223372036854775807) :
    toLong z = z := by
  unfold toLong
  omega

/-- `%d` of `sscanf` before its result is truncated to `int`: white space is skipped, without a
digit there is no value, and the digits are read as a `long`. -/
def scanInt (cs : List Char) : Option Int :=
  let (neg, cs) := scanSign (cs.dropWhile isSpace)
  let ds := cs.takeWhile Char.isDigit
  if ds = [] then none
  else
    let n : Int := Nat.ofDigitChars 10 ds 0
    some (toLong (if neg then -n else n))

/-- What `getline` returns until the end of the file; `line` is the line begun. -/
def linesFrom (line : List Char) : List Char → List (List Char)
  | [] => if line = [] then [] else [line]
  | c :: cs =>
    if c = '\n' then (line ++ [c]) :: linesFrom [] cs else linesFrom (line ++ [c]) cs

def lines (file : List Char) : List (List Char) := linesFrom [] file

/-- The string in a buffer: it ends before the first null. -/
def cString (cs : List Char) : List Char := cs.takeWhile (· ≠ '\x00')

def tokens (d : Char) (line : List Char) : List (List Char) :=
  (line.splitOn d).filter (· ≠ [])

theorem digit_spec {c : Char} (h : c.isDigit = true) : isSpace c = false ∧ c ≠ '-' ∧ c ≠ '+' := by
  refine ⟨?_, ?_, ?_⟩
  · rw [Bool.eq_false_iff]
    intro hs
    have hmem : c ∈ [' ', '\t', '\n', '\x0b', '\x0c', '\r'] := by simpa [isSpace] using hs
    simp only [List.mem_cons, List.not_mem_nil, or_false] at hmem
    rcases hmem with rfl | rfl | rfl | rfl | rfl | rfl <;> exact absurd h (by decide)
  · rintro rfl
    exact absurd h (by decide)
  · rintro rfl
    exact absurd h (by decide)

theorem isDigit_of_mem {n : Nat} {c : Char} (h : c ∈ Nat.toDigits 10 n) : c.isDigit = true :=
  Nat.isDigit_of_mem_toDigits (by decide) (by decide) h

theorem takeWhile_toDigits (n : Nat) {rest : List Char} (h : ∀ c ∈ rest.head?, c.isDigit = false) :
    (Nat.toDigits 10 n ++ rest).takeWhile Char.isDigit = Nat.toDigits 10 n := by
  rw [List.takeWhile_append_of_pos fun c hc => isDigit_of_mem hc]
  cases rest with
  | nil => simp
  | cons c cs => simp [h c rfl]

theorem scanInt_printInt {z : Int} {rest : List Char} (hlo : -9223372036854775808 ≤ z)
    (hhi : z ≤ 9223372036854775807) (h : ∀ c ∈ rest.head?, c.isDigit = false) :
    scanInt (printInt z ++ rest) = some z := by
  have hz' := toLong_eq hlo hhi
  have hne : Nat.toDigits 10 z.natAbs ≠ [] := Nat.toDigits_ne_nil
  by_cases hz : z < 0
  · have hp : (printInt z ++ rest).dropWhile isSpace =
        '-' :: (Nat.toDigits 10 z.natAbs ++ rest) := by
      simp [printInt, hz, isSpace]
    simp only [scanInt, hp, scanSign, takeWhile_toDigits _ h, if_neg hne, if_true,
      Nat.ofDigitChars_ten_toDigits]
    rw [show -(z.natAbs : Int) = z by omega, hz']
  · obtain ⟨c, cs, hc⟩ := List.exists_cons_of_ne_nil hne
    have hdig : c ∈ Nat.toDigits 10 z.natAbs := by simp [hc]
    obtain ⟨hs, hm, hpl⟩ := digit_spec (isDigit_of_mem hdig)
    have hp : (printInt z ++ rest).dropWhile isSpace = Nat.toDigits 10 z.natAbs ++ rest := by
      simp [printInt, hz, hc, hs]
    have hsign : scanSign (Nat.toDigits 10 z.natAbs ++ rest) =
        (false, Nat.toDigits 10 z.natAbs ++ rest) := by
      rw [hc, List.cons_append, scanSign]
      · exact fun cs h => hm (List.cons.inj h).1
      · exact fun cs h => hpl (List.cons.inj h).1
    simp only [scanInt, hp, hsign, takeWhile_toDigits _ h, if_neg hne, Bool.false_eq_true,
      if_false, Nat.ofDigitChars_ten_toDigits]
    rw [show (z.natAbs : Int) = z by omega, hz']

theorem mem_printInt {z : Int} {c : Char} (h : c ∈ printInt z) : c = '-' ∨ c.isDigit = true := by
  unfold printInt at h
  split at h
  · rcases List.mem_cons.mp h with h | h
    · exact .inl h
    · exact .inr (isDigit_of_mem h)
  · exact .inr (isDigit_of_mem h)

theorem printInt_ne_nil (z : Int) : printInt z ≠ [] := by
  unfold printInt
  split
  · exact List.cons_ne_nil _ _
  · exact Nat.toDigits_ne_nil

theorem not_mem_printInt {z : Int} {c : Char} (hm : c ≠ '-') (hd : c.isDigit = false) :
    c ∉ printInt z := by
  intro h
  rcases mem_printInt h with h | h
  · exact hm h
  · exact absurd (hd.symm.trans h) (by decide)

theorem cString_of_not_mem {cs : List Char} (h : '\x00' ∉ cs) : cString cs = cs := by
  rw [cString, List.takeWhile_eq_self_iff]
  exact fun c hc => decide_eq_true fun he => h (he ▸ hc)

theorem tokens_intercalate {d : Char} {ls : List (List Char)} (hd : ∀ l ∈ ls, d ∉ l)
    (hne : ∀ l ∈ ls, l ≠ []) (hls : ls ≠ []) : tokens d ([d].intercalate ls) = ls := by
  rw [tokens, List.splitOn_intercalate d hd hls, List.filter_eq_self]
  exact fun l hl => by simpa using hne l hl

theorem linesFrom_append {l rest : List Char} (line : List Char) (h : '\n' ∉ l) :
    linesFrom line (l ++ '\n' :: rest) = (line ++ l ++ ['\n']) :: lines rest := by
  induction l generalizing line with
  | nil => simp [linesFrom, lines]
  | cons c l ih =>
    have hc : c ≠ '\n' := fun hc => h (hc ▸ List.mem_cons_self ..)
    rw [List.cons_append, linesFrom, if_neg hc, ih _ fun hl => h (List.mem_cons_of_mem _ hl)]
    simp

theorem lines_append {l rest : List Char} (h : '\n' ∉ l) :
    lines (l ++ '\n' :: rest) = (l ++ ['\n']) :: lines rest := linesFrom_append [] h

theorem linesFrom_last {l : List Char} (line : List Char) (h : '\n' ∉ l) (hne : line ++ l ≠ []) :
    linesFrom line l = [line ++ l] := by
  induction l generalizing line with
  | nil =>
    rw [List.append_nil] at hne ⊢
    simp [linesFrom, hne]
  | cons c l ih =>
    have hc : c ≠ '\n' := fun hc => h (hc ▸ List.mem_cons_self ..)
    rw [linesFrom, if_neg hc, ih _ (fun hl => h (List.mem_cons_of_mem _ hl)) (by simp)]
    simp

theorem lines_last {l : List Char} (h : '\n' ∉ l) (hne : l ≠ []) : lines l = [l] :=
  linesFrom_last [] h hne

end Text
