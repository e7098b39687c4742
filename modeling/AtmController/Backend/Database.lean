import AtmController.Backend.Host
import AtmController.Lib.Text

namespace AtmController.Backend

open Text

structure Table where
  numLines : Int := 0
  dataFromCSV : Nat → Nat → BitVec 32 := fun _ _ => 0

def header : List Char :=
  "\"User ID (decimal)\",\"PIN Hash (decimal)\",\"Admin\",\"Balance (decimal)\"".toList

namespace Table

/-- A store in `int dataFromCSV[100005][4]`; outside of the array it has no meaning. -/
def store (i k : Nat) (v : BitVec 32) (t : Table) : Option Table :=
  if i < 100005 ∧ k < 4 then
    some { t with
      dataFromCSV := fun i' k' => if i' = i ∧ k' = k then v else t.dataFromCSV i' k' }
  else none

/-- The loop of `format`, from the word `cnt` on; the `long` of `%d` is truncated to `int`. -/
def formatFrom (cnt : Nat) : List (List Char) → Table → Option Table
  | [], t => some t
  | word :: words, t => do
    let t ← match scanInt word with
      | some v => t.store t.numLines.toNat cnt (.ofInt 32 v)
      | none => some t
    formatFrom (cnt + 1) words t

def format (line : List Char) (t : Table) : Option Table :=
  formatFrom 0 (tokens ',' (cString line)) t

/-- One turn of the loop that reads the file. -/
def readLine (t : Table) (line : List Char) : Option Table := do
  let t ← if t.numLines ≠ 0 then t.format line else some t
  some { t with numLines := t.numLines + 1 }

def read (file : List Char) : Option Table := do
  let t ← (lines file).foldlM readLine {}
  some { t with numLines := t.numLines - 1 }

def cell (t : Table) (i k : Nat) : List Char :=
  printInt (t.dataFromCSV i k).toInt ++
    if k = 3 then if (i : Int) ≠ t.numLines then ['\n'] else [] else [',']

def write (t : Table) : List Char :=
  header ++ '\n' :: (List.range' 1 t.numLines.toNat).flatMap fun i =>
    (List.range 4).flatMap fun k => t.cell i k

/-- The lines 1 to `numLines`. -/
def rows (t : Table) : List Row :=
  (List.range' 1 t.numLines.toNat).map fun i =>
    ⟨t.dataFromCSV i 0, t.dataFromCSV i 1, t.dataFromCSV i 2, t.dataFromCSV i 3⟩

theorem newline_not_mem_header : '\n' ∉ header := by decide

variable {t u : Table} {i k : Nat}

def words (t : Table) (i : Nat) (nl : List Char) : List (List Char) :=
  [printInt (t.dataFromCSV i 0).toInt, printInt (t.dataFromCSV i 1).toInt,
    printInt (t.dataFromCSV i 2).toInt, printInt (t.dataFromCSV i 3).toInt ++ nl]

theorem cells_eq (t : Table) (i : Nat) :
    (List.range 4).flatMap (fun k => t.cell i k) = [','].intercalate (t.words i []) ++
      if (i : Int) ≠ t.numLines then ['\n'] else [] := by
  simp [List.range_succ, cell, words, List.intercalate]

theorem intercalate_words (t : Table) (i : Nat) (nl : List Char) :
    [','].intercalate (t.words i []) ++ nl = [','].intercalate (t.words i nl) := by
  simp [words, List.intercalate]

theorem not_mem_line {c : Char} (hm : c ≠ '-') (hd : c.isDigit = false) (hc : c ≠ ',') :
    c ∉ [','].intercalate (t.words i []) := by
  simp [words, List.intercalate, not_mem_printInt hm hd, hc]

theorem line_ne_nil : [','].intercalate (t.words i []) ≠ [] := by
  simp [words, List.intercalate, printInt_ne_nil]

def withLine (t : Table) (i : Nat) (u : Table) : Table :=
  { u with
    dataFromCSV := fun i' k => if i' = i ∧ k < 4 then t.dataFromCSV i k else u.dataFromCSV i' k }

theorem formatFrom_cons {word : List Char} {ws : List (List Char)} {v : BitVec 32} {n : Int}
    {d : Nat → Nat → BitVec 32} (hv : scanInt word = some v.toInt) (hi : n.toNat < 100005)
    (hk : k < 4) :
    formatFrom k (word :: ws) ⟨n, d⟩ = formatFrom (k + 1) ws
      ⟨n, fun i' k' => if i' = n.toNat ∧ k' = k then v else d i' k'⟩ := by
  simp [formatFrom, hv, store, hi, hk]

theorem format_words {nl : List Char} (hn : u.numLines.toNat = i) (hi : i < 100005)
    (hnl : nl = [] ∨ nl = ['\n']) :
    u.format ([','].intercalate (t.words i nl)) = some (t.withLine i u) := by
  have hcomma : ∀ l ∈ t.words i nl, ',' ∉ l := by
    have hp : ∀ z, ',' ∉ printInt z := fun z => not_mem_printInt (by decide) (by decide)
    rcases hnl with rfl | rfl <;> simp [words, hp]
  have hne : ∀ l ∈ t.words i nl, l ≠ [] := by
    simp [words, printInt_ne_nil]
  have hhead : ∀ c ∈ nl.head?, c.isDigit = false := by
    rcases hnl with rfl | rfl <;> simp
  have hscan {rest : List Char} (h : ∀ c ∈ rest.head?, c.isDigit = false) (k : Nat) :
      scanInt (printInt (t.dataFromCSV i k).toInt ++ rest) = some (t.dataFromCSV i k).toInt := by
    have hlo := BitVec.le_toInt (t.dataFromCSV i k)
    have hhi := BitVec.toInt_le (x := t.dataFromCSV i k)
    exact scanInt_printInt (by omega) (by omega) h
  have hscan₀ (k : Nat) : scanInt (printInt (t.dataFromCSV i k).toInt) =
      some (t.dataFromCSV i k).toInt := by
    simpa using @hscan [] (by simp) k
  have hnull : '\x00' ∉ [','].intercalate (t.words i nl) := by
    rw [← intercalate_words, List.mem_append, not_or]
    refine ⟨not_mem_line (by decide) (by decide) (by decide), ?_⟩
    rcases hnl with rfl | rfl <;> decide
  obtain ⟨n, d⟩ := u
  subst hn
  rw [format, cString_of_not_mem hnull, tokens_intercalate hcomma hne (List.cons_ne_nil _ _), words,
    formatFrom_cons (hscan₀ 0) hi (by decide), formatFrom_cons (hscan₀ 1) hi (by decide),
    formatFrom_cons (hscan₀ 2) hi (by decide), formatFrom_cons (hscan hhead 3) hi (by decide),
    formatFrom]
  refine congrArg some (congrArg (Table.mk _) ?_)
  funext i' k
  by_cases hi' : i' = n.toNat
  · rcases k with - | - | - | - | k <;> simp [hi']
  · simp [hi']

theorem readLine_words {nl : List Char} (hn : u.numLines = i) (hi : 0 < i) (hi' : i < 100005)
    (hnl : nl = [] ∨ nl = ['\n']) :
    u.readLine ([','].intercalate (t.words i nl)) =
      some { t.withLine i u with numLines := u.numLines + 1 } := by
  have hne : u.numLines ≠ 0 := by omega
  have hn' : u.numLines.toNat = i := by omega
  simp [readLine, hne, format_words hn' hi' hnl, withLine]

def writeFrom (t : Table) (i m : Nat) : List Char :=
  (List.range' i m).flatMap fun i => (List.range 4).flatMap fun k => t.cell i k

theorem lines_writeFrom {m : Nat} (hm : (i + (m + 1) : Int) = t.numLines + 1) :
    ∃ nl, (nl = [] ∨ nl = ['\n']) ∧ lines (t.writeFrom i (m + 1)) =
      [','].intercalate (t.words i nl) :: lines (t.writeFrom (i + 1) m) := by
  have hno : '\n' ∉ [','].intercalate (t.words i []) :=
    not_mem_line (by decide) (by decide) (by decide)
  rw [writeFrom, List.range'_succ, List.flatMap_cons, cells_eq]
  cases m with
  | zero =>
    refine ⟨[], .inl rfl, ?_⟩
    rw [if_neg (by omega)]
    simpa [writeFrom, lines, linesFrom] using lines_last hno line_ne_nil
  | succ m =>
    refine ⟨['\n'], .inr rfl, ?_⟩
    rw [if_pos (by omega), List.append_assoc, List.singleton_append, lines_append hno,
      intercalate_words]
    rfl

theorem foldlM_writeFrom (ht : t.numLines ≤ 100004) {m : Nat} (hi : 0 < i) (hn : u.numLines = i)
    (hm : (i + m : Int) = t.numLines + 1) :
    ∃ u', (lines (t.writeFrom i m)).foldlM readLine u = some u' ∧ u'.numLines = i + m ∧
      (∀ i' < i, ∀ k, u'.dataFromCSV i' k = u.dataFromCSV i' k) ∧
      ∀ i', i ≤ i' → i' < i + m → ∀ k < 4, u'.dataFromCSV i' k = t.dataFromCSV i' k := by
  induction m generalizing i u with
  | zero =>
    refine ⟨u, by simp [writeFrom, lines, linesFrom], by simp [hn], fun _ _ _ => rfl, ?_⟩
    omega
  | succ m ih =>
    obtain ⟨nl, hnl, hlines⟩ := lines_writeFrom (t := t) (i := i) (m := m) (by omega)
    obtain ⟨u', hrun, hnum, hlow, hrows⟩ :=
      ih (u := { t.withLine i u with numLines := u.numLines + 1 }) (Nat.succ_pos i)
        (by simp [hn]) (by omega)
    refine ⟨u', ?_, by omega, ?_, ?_⟩
    · rw [hlines, List.foldlM_cons, readLine_words hn hi (by omega) hnl]
      exact hrun
    · intro i' hi' k
      rw [hlow i' (by omega)]
      simp [withLine, hi'.ne]
    · intro i' hle hlt k hk
      rcases Nat.eq_or_lt_of_le hle with rfl | hlt'
      · rw [hlow _ (by omega)]
        simp [withLine, hk]
      · exact hrows i' hlt' (by omega) k hk

structure Agrees (t u : Table) : Prop where
  numLines : u.numLines = t.numLines
  cells : ∀ i : Nat, 1 ≤ i → i ≤ t.numLines → ∀ k < 4, u.dataFromCSV i k = t.dataFromCSV i k

theorem read_write (h0 : 0 ≤ t.numLines) (hN : t.numLines ≤ 100004) :
    ∃ u, read t.write = some u ∧ t.Agrees u := by
  have hhead : readLine {} (header ++ ['\n']) = some { numLines := 1 } := rfl
  obtain ⟨u, hrun, hnum, -, hrows⟩ := foldlM_writeFrom (t := t) (u := { numLines := 1 }) (i := 1)
    (m := t.numLines.toNat) hN Nat.one_pos rfl (by omega)
  refine ⟨{ u with numLines := u.numLines - 1 }, ?_, ?_, fun i h1 hi k hk => ?_⟩
  · have hw : t.write = header ++ '\n' :: t.writeFrom 1 t.numLines.toNat := rfl
    rw [read, hw, lines_append newline_not_mem_header, List.foldlM_cons, hhead, Option.bind_eq_bind,
      Option.bind_some, hrun]
    rfl
  · change u.numLines - 1 = _
    omega
  · exact hrows i h1 (by omega) k hk

theorem Agrees.rows_eq (h : t.Agrees u) : u.rows = t.rows := by
  rw [rows, rows, h.numLines]
  refine List.map_congr_left fun i hi => ?_
  obtain ⟨h1, hlt⟩ := List.mem_range'_1.mp hi
  have hc := h.cells i h1 (by omega)
  simp [hc]

def setBal (t : Table) (inLineNum : Nat) (bal : BitVec 32) : Table :=
  { t with
    dataFromCSV := fun i k => if i = inLineNum ∧ k = 3 then bal else t.dataFromCSV i k }

theorem rows_setBal (t : Table) (n : Nat) (bal : BitVec 32) :
    (t.setBal (n + 1) bal).rows = setBalance t.rows n bal := by
  refine List.ext_getElem (by simp [rows, setBal, setBalance]) fun j h1 h2 => ?_
  by_cases hj : n = j
  · simp [rows, setBal, setBalance, hj, Nat.add_comm]
  · have hne : 1 + j ≠ n + 1 := by omega
    simp [rows, setBal, setBalance, hj, hne]

/-- The file that a debit writes holds the table: a fresh process that reads it has as many lines
and the same cells in each. -/
theorem reload_after_debit (t : Table) (inLineNum : Nat) (bal : BitVec 32) (h0 : 0 ≤ t.numLines)
    (hN : t.numLines ≤ 100004) :
    ∃ u, read (t.setBal inLineNum bal).write = some u ∧ u.numLines = t.numLines ∧
      ∀ i : Nat, 1 ≤ i → i ≤ t.numLines → ∀ k < 4,
        u.dataFromCSV i k = (t.setBal inLineNum bal).dataFromCSV i k := by
  obtain ⟨u, hu, hag⟩ := read_write (t := t.setBal inLineNum bal) h0 hN
  exact ⟨u, hu, hag.numLines, hag.cells⟩

theorem reload_after_debit_two :
    ∃ u, read ((⟨2, fun i k => .ofNat 32 (10 * i + k)⟩ : Table).setBal 2 7).write = some u ∧
      u.numLines = 2 ∧ ∀ i : Nat, 1 ≤ i → (i : Int) ≤ 2 → ∀ k < 4, u.dataFromCSV i k =
        ((⟨2, fun i k => .ofNat 32 (10 * i + k)⟩ : Table).setBal 2 7).dataFromCSV i k :=
  reload_after_debit ⟨2, fun i k => .ofNat 32 (10 * i + k)⟩ 2 7 (by decide) (by decide)

end Table

end AtmController.Backend
