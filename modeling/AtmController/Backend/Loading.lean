import AtmController.Backend.Authentication

/-! What the loop that reads the file does on any text: which cells it stores into, which lines the
search can match afterwards, and for which files malformed lines do no harm. The words of a line are
what `strtok` finds in it; a number beyond `long` counts as its bound, and the `long` is truncated to
`int`. -/

namespace AtmController.Backend

open Text

def lineWords (line : List Char) : List (List Char) := tokens ',' (cString line)

def field (words : List (List Char)) (k : Nat) : Option Int := words[k]?.bind scanInt

structure Store where
  row : Nat
  col : Nat
  value : BitVec 32
  deriving DecidableEq

def storesFrom (row cnt : Nat) : List (List Char) → List Store
  | [] => []
  | word :: words =>
    match scanInt word with
    | some v => ⟨row, cnt, .ofInt 32 v⟩ :: storesFrom row (cnt + 1) words
    | none => storesFrom row (cnt + 1) words

def stores (row : Nat) (line : List Char) : List Store := storesFrom row 0 (lineWords line)

def dataLines (file : List Char) : List (List Char) := (lines file).tail

def Complete (line : List Char) : Prop :=
  (lineWords line).length = 4 ∧ ∀ word ∈ lineWords line, (scanInt word).isSome = true

instance (line : List Char) : Decidable (Complete line) := inferInstanceAs (Decidable (_ ∧ _))

/-- The cell that a line leaves behind; without a number the zero of a fresh process stays. -/
def lineCell (line : List Char) (k : Nat) : BitVec 32 :=
  ((field (lineWords line) k).map (BitVec.ofInt 32)).getD 0

def lineKey (line : List Char) : BitVec 16 × BitVec 16 :=
  ((lineCell line 0).setWidth 16, (lineCell line 1).setWidth 16)

variable {words : List (List Char)} {line file : List Char} {row cnt i k : Nat} {s : Store}

theorem mem_storesFrom : s ∈ storesFrom row cnt words ↔
    ∃ k v, field words k = some v ∧ s = ⟨row, cnt + k, .ofInt 32 v⟩ := by
  induction words generalizing cnt with
  | nil => simp [storesFrom, field]
  | cons word words ih =>
    have hsplit : (∃ k v, field (word :: words) k = some v ∧ s = ⟨row, cnt + k, .ofInt 32 v⟩) ↔
        (∃ v, scanInt word = some v ∧ s = ⟨row, cnt, .ofInt 32 v⟩) ∨
          ∃ k v, field words k = some v ∧ s = ⟨row, cnt + 1 + k, .ofInt 32 v⟩ := by
      constructor
      · rintro ⟨k, v, hv, rfl⟩
        cases k with
        | zero => exact .inl ⟨v, hv, rfl⟩
        | succ k => exact .inr ⟨k, v, hv, by rw [Nat.add_assoc, Nat.add_comm 1]⟩
      · rintro (⟨v, hv, rfl⟩ | ⟨k, v, hv, rfl⟩)
        · exact ⟨0, v, hv, rfl⟩
        · exact ⟨k + 1, v, hv, by rw [Nat.add_assoc, Nat.add_comm 1]⟩
    rw [hsplit, ← ih, storesFrom]
    cases hw : scanInt word with
    | none => simp
    | some v => simp

theorem mem_stores : s ∈ stores row line ↔
    ∃ k v, field (lineWords line) k = some v ∧ s = ⟨row, k, .ofInt 32 v⟩ := by
  simp [stores, mem_storesFrom]

theorem Complete.field_isSome (h : Complete line) (hk : k < 4) :
    ∃ v, field (lineWords line) k = some v := by
  have hlt : k < (lineWords line).length := h.1 ▸ hk
  have hw := h.2 _ (List.getElem_mem hlt)
  rw [field, List.getElem?_eq_getElem hlt, Option.bind_some]
  exact Option.isSome_iff_exists.mp hw

namespace Table

variable {t u : Table} {word : List Char} {v : Int} {n : Nat}

theorem numLines_of_store {b : BitVec 32} (h : t.store i k b = some u) :
    u.numLines = t.numLines := by
  unfold store at h
  split at h
  · rw [← Option.some.inj h]
  · exact absurd h (by simp)

theorem formatFrom_eq_foldlM (words : List (List Char)) (cnt : Nat) (t : Table) :
    formatFrom cnt words t =
      (storesFrom t.numLines.toNat cnt words).foldlM
        (fun t s => t.store s.row s.col s.value) t := by
  induction words generalizing cnt t with
  | nil => rfl
  | cons word words ih =>
    rw [formatFrom, storesFrom]
    cases hw : scanInt word with
    | none => exact ih (cnt + 1) t
    | some v =>
      rw [List.foldlM_cons]
      refine Option.bind_congr fun u hu => ?_
      rw [← numLines_of_store hu]
      exact ih (cnt + 1) u

theorem format_eq_foldlM (line : List Char) (t : Table) :
    t.format line =
      (stores t.numLines.toNat line).foldlM (fun t s => t.store s.row s.col s.value) t :=
  formatFrom_eq_foldlM _ 0 t

def stored (words : List (List Char)) (cnt : Nat) (t : Table) : Table :=
  { t with
    dataFromCSV := fun i k =>
      if i = t.numLines.toNat ∧ cnt ≤ k then
        ((field words (k - cnt)).map (BitVec.ofInt 32)).getD (t.dataFromCSV i k)
      else t.dataFromCSV i k }

theorem stored_cons (word : List Char) (words : List (List Char)) (cnt : Nat) (t : Table) :
    t.stored (word :: words) cnt = stored words (cnt + 1) { t with
      dataFromCSV := fun i k =>
        if i = t.numLines.toNat ∧ k = cnt then
          ((scanInt word).map (BitVec.ofInt 32)).getD (t.dataFromCSV i k)
        else t.dataFromCSV i k } := by
  refine congrArg (Table.mk _) ?_
  funext i k
  by_cases hi : i = t.numLines.toNat
  · rcases Nat.lt_trichotomy k cnt with hlt | rfl | hlt
    · simp [hi, hlt.ne, show ¬ cnt ≤ k by omega, show ¬ cnt + 1 ≤ k by omega]
    · simp [hi, field]
    · obtain ⟨m, rfl⟩ : ∃ m, k = cnt + 1 + m := ⟨k - (cnt + 1), by omega⟩
      have hm : cnt + 1 + m - cnt = m + 1 := by omega
      simp [hi, field, hm, show cnt ≤ cnt + 1 + m by omega, show cnt + 1 + m ≠ cnt by omega]
  · simp [hi]

theorem formatFrom_eq_stored (words : List (List Char)) (cnt : Nat) (t : Table)
    (h : ∀ k v, field words k = some v → t.numLines.toNat < 100005 ∧ cnt + k < 4) :
    formatFrom cnt words t = some (t.stored words cnt) := by
  induction words generalizing cnt t with
  | nil =>
    refine congrArg some (congrArg (Table.mk _) ?_)
    funext i k
    simp [field]
  | cons word words ih =>
    have hrest : ∀ k v, field words k = some v →
        t.numLines.toNat < 100005 ∧ cnt + 1 + k < 4 := by
      intro k v hv
      have := h (k + 1) v hv
      omega
    rw [formatFrom, stored_cons]
    cases hw : scanInt word with
    | none => simpa using ih (cnt + 1) t hrest
    | some v =>
      have hb := h 0 v hw
      have hs : t.store t.numLines.toNat cnt (.ofInt 32 v) = some { t with
          dataFromCSV := fun i k =>
            if i = t.numLines.toNat ∧ k = cnt then .ofInt 32 v else t.dataFromCSV i k } :=
        if_pos hb
      simp only [hs, Option.bind_eq_bind, Option.bind_some]
      exact ih (cnt + 1) _ hrest

theorem readLine_eq_stored (line : List Char) (hn : u.numLines ≠ 0)
    (h : ∀ k v, field (lineWords line) k = some v → u.numLines.toNat < 100005 ∧ k < 4) :
    u.readLine line = some { u.stored (lineWords line) 0 with numLines := u.numLines + 1 } := by
  have hf : u.format line = some (u.stored (lineWords line) 0) :=
    formatFrom_eq_stored _ 0 u fun k v hv => by simpa using h k v hv
  simp only [readLine, ne_eq, hn, not_false_eq_true, if_true, hf, Option.bind_eq_bind,
    Option.bind_some]
  rfl

theorem foldlM_readLine (ls : List (List Char)) (hn : u.numLines = n) (hpos : 0 < n)
    (h0 : ∀ i k, n ≤ i → u.dataFromCSV i k = 0)
    (h : ∀ j line, ls[j]? = some line → ∀ k v, field (lineWords line) k = some v →
      n + j < 100005 ∧ k < 4) :
    ∃ t, ls.foldlM readLine u = some t ∧ t.numLines = n + ls.length ∧
      (∀ i k, i < n → t.dataFromCSV i k = u.dataFromCSV i k) ∧
      ∀ j line, ls[j]? = some line → ∀ k, t.dataFromCSV (n + j) k = lineCell line k := by
  induction ls generalizing n u with
  | nil => exact ⟨u, rfl, by simp [hn], fun _ _ _ => rfl, by simp⟩
  | cons line ls ih =>
    have hline := readLine_eq_stored (u := u) line (by omega)
      fun k v hv => by simpa [hn] using h 0 line rfl k v hv
    have hstored (i k : Nat) : (u.stored (lineWords line) 0).dataFromCSV i k =
        if i = n then lineCell line k else u.dataFromCSV i k := by
      by_cases hi : i = n
      · simp [stored, hn, hi, lineCell, h0 n k le_rfl]
      · simp [stored, hn, hi]
    obtain ⟨t, hrun, hnum, hlow, hrows⟩ :=
      ih (u := { u.stored (lineWords line) 0 with numLines := u.numLines + 1 }) (n := n + 1)
        (by simp [hn]) (Nat.succ_pos n)
        (fun i k hi => by
          change (u.stored (lineWords line) 0).dataFromCSV i k = 0
          rw [hstored, if_neg (by omega), h0 i k (by omega)])
        (fun j l hj k v hv => by
          have := h (j + 1) l hj k v hv
          omega)
    refine ⟨t, ?_, by rw [hnum, List.length_cons]; omega, fun i k hi => ?_,
      fun j l hj k => ?_⟩
    · rw [List.foldlM_cons, hline]
      exact hrun
    · rw [hlow i k (by omega)]
      exact (hstored i k).trans (if_neg (by omega))
    · cases j with
      | zero =>
        obtain rfl : line = l := Option.some.inj hj
        rw [Nat.add_zero, hlow n k (by omega)]
        exact (hstored n k).trans (if_pos rfl)
      | succ j =>
        rw [show n + (j + 1) = n + 1 + j by omega]
        exact hrows j l hj k

theorem read_eq_some (h : ∀ j line, (dataLines file)[j]? = some line → ∀ k v,
    field (lineWords line) k = some v → j + 1 < 100005 ∧ k < 4) :
    ∃ t, read file = some t ∧ t.numLines.toNat = (dataLines file).length ∧
      ∀ j line, (dataLines file)[j]? = some line →
        ∀ k, t.dataFromCSV (j + 1) k = lineCell line k := by
  rw [dataLines] at h ⊢
  rw [read]
  cases hf : lines file with
  | nil => exact ⟨{ numLines := -1 }, rfl, rfl, by simp⟩
  | cons first ls =>
    rw [hf, List.tail_cons] at h
    obtain ⟨t, hrun, hnum, -, hrows⟩ := foldlM_readLine ls (u := { numLines := 1 }) (n := 1)
      rfl Nat.one_pos (fun _ _ _ => rfl) fun j line hj k v hv => by
        have := h j line hj k v hv
        omega
    have hfirst : readLine {} first = some { numLines := 1 } := rfl
    refine ⟨{ t with numLines := t.numLines - 1 }, ?_, ?_, fun j line hj k => ?_⟩
    · rw [List.foldlM_cons, hfirst, Option.bind_eq_bind, Option.bind_some, hrun]
      rfl
    · change (t.numLines - 1).toNat = ls.length
      omega
    · rw [Nat.add_comm j]
      exact hrows j line hj k

/-! ### What the search can match -/

/-- A line as `find` reads it: outside of the array it is whatever is in memory. -/
def rowIn (beyond : Nat → Row) (t : Table) (i : Nat) : Row :=
  if i < 100005 then t.row i else beyond i

/-- There are a user and a hash for which `find` returns line `i`. -/
def CanMatch (t : Table) (i : Nat) : Prop :=
  ∃ beyond userID hashedPin a, find userID hashedPin
    ((List.range' 1 t.numLines.toNat).map (t.rowIn beyond)) = some a ∧ a.inLineNum + 1 = i

def key (t : Table) (i : Nat) : BitVec 16 × BitVec 16 :=
  ((t.dataFromCSV i 0).setWidth 16, (t.dataFromCSV i 1).setWidth 16)

theorem matches_rowIn_iff {beyond : Nat → Row} {userID hashedPin : BitVec 16} (hi : i < 100005) :
    (t.rowIn beyond i).Matches userID hashedPin ↔ (userID, hashedPin) = t.key i := by
  rw [rowIn, if_pos hi, Row.Matches, key, Prod.mk.injEq]
  exact Iff.rfl

theorem CanMatch.le (h : t.CanMatch i) : 1 ≤ i ∧ i ≤ t.numLines.toNat := by
  obtain ⟨beyond, userID, hashedPin, a, ha, rfl⟩ := h
  obtain ⟨i, h1, hle, -, -, rfl⟩ := find_eq_some_iff.mp ha
  rw [Nat.sub_add_cancel h1]
  exact ⟨h1, hle⟩

theorem canMatch_iff (hi : i < 100005) : t.CanMatch i ↔
    1 ≤ i ∧ i ≤ t.numLines.toNat ∧ ∀ j, 1 ≤ j → j < i → t.key j ≠ t.key i := by
  constructor
  · rintro ⟨beyond, userID, hashedPin, a, ha, rfl⟩
    obtain ⟨i, h1, hle, hm, hfirst, rfl⟩ := find_eq_some_iff.mp ha
    rw [Nat.sub_add_cancel h1] at hi ⊢
    rw [matches_rowIn_iff hi] at hm
    refine ⟨h1, hle, fun j hj hlt he => hfirst j hj hlt ?_⟩
    rw [matches_rowIn_iff (by omega), he, hm]
  · rintro ⟨h1, hle, hfirst⟩
    refine ⟨t.row, (t.key i).1, (t.key i).2, _, find_eq_some_iff.mpr ⟨i, h1, hle,
      (matches_rowIn_iff hi).mpr rfl, fun j hj hlt hm => ?_, rfl⟩, Nat.sub_add_cancel h1⟩
    exact hfirst j hj hlt ((matches_rowIn_iff (by omega)).mp hm).symm

theorem exists_fresh_key (t : Table) : ∃ q, ∀ i, 1 ≤ i → i < 100005 → t.key i ≠ q := by
  let code (q : BitVec 16 × BitVec 16) : Nat := 65536 * q.1.toNat + q.2.toNat
  obtain ⟨c, hc, hfree⟩ := Finset.exists_mem_notMem_of_card_lt_card
    (s := (Finset.range 100004).image fun i => code (t.key (i + 1))) (t := Finset.range 100005) (by
      rw [Finset.card_range]
      exact Finset.card_image_le.trans_lt (by rw [Finset.card_range]; omega))
  rw [Finset.mem_range] at hc
  refine ⟨(.ofNat 16 (c / 65536), .ofNat 16 c), fun i h1 hi he => hfree ?_⟩
  refine Finset.mem_image.mpr ⟨i - 1, Finset.mem_range.mpr (by omega), ?_⟩
  rw [Nat.sub_add_cancel h1, he]
  simp only [code, BitVec.toNat_ofNat]
  omega

theorem canMatch_beyond (h : 100005 ≤ t.numLines.toNat) : t.CanMatch 100005 := by
  obtain ⟨q, hq⟩ := t.exists_fresh_key
  refine ⟨fun _ => ⟨q.1.setWidth 32, q.2.setWidth 32, 0, 0⟩, q.1, q.2, _,
    find_eq_some_iff.mpr ⟨100005, by decide, h, ?_, fun j hj hlt hm => ?_, rfl⟩, rfl⟩
  · rw [rowIn, if_neg (Nat.lt_irrefl _)]
    simp [Row.Matches]
  · exact hq j hj hlt ((matches_rowIn_iff hlt).mp hm).symm

end Table

/-! ### Malformed lines -/

/-- Each line stores only into the four cells of its own row, and the rows that can be matched are
those of complete lines. -/
structure Harmless (file : List Char) : Prop where
  stores : ∀ i line, (dataLines file)[i]? = some line → ∀ s ∈ stores (i + 1) line,
    s.row = i + 1 ∧ 1 ≤ s.row ∧ s.row < 100005 ∧ s.col ≤ 3
  accounts : ∃ t, Table.read file = some t ∧ ∀ i, t.CanMatch (i + 1) →
    ∃ line, (dataLines file)[i]? = some line ∧ Complete line

/-- There are no more lines than rows, no word after the fourth begins with a number, and a line
that is not complete is the same to the search as one before it. -/
structure Admissible (file : List Char) : Prop where
  count : (dataLines file).length ≤ 100004
  fields : ∀ line ∈ dataLines file, ∀ k, 4 ≤ k → field (lineWords line) k = none
  shadowed : ∀ (i : Nat) line, (dataLines file)[i]? = some line → ¬ Complete line →
    ∃ j line', j < i ∧ (dataLines file)[j]? = some line' ∧ lineKey line' = lineKey line

theorem Admissible.inArray (h : Admissible file) {j : Nat}
    (hline : (dataLines file)[j]? = some line) {v : Int}
    (hv : field (lineWords line) k = some v) : j + 1 < 100005 ∧ k < 4 := by
  have hlt := (List.getElem?_eq_some_iff.mp hline).1
  have hcount := h.count
  refine ⟨by omega, ?_⟩
  by_contra hk
  have hnone := h.fields line (List.mem_of_getElem? hline) k (by omega)
  exact absurd (hnone.symm.trans hv) (by simp)

theorem Harmless.inArray (h : Harmless file) {j : Nat}
    (hline : (dataLines file)[j]? = some line) {v : Int}
    (hv : field (lineWords line) k = some v) : j + 1 < 100005 ∧ k < 4 := by
  obtain ⟨-, -, hrow, hcol⟩ := h.stores j line hline _ (mem_stores.mpr ⟨k, v, hv, rfl⟩)
  exact ⟨hrow, Nat.lt_succ_of_le hcol⟩

theorem Admissible.harmless (h : Admissible file) : Harmless file := by
  obtain ⟨t, ht, hnum, hrows⟩ := Table.read_eq_some fun j line hline k v hv => h.inArray hline hv
  refine ⟨fun i line hline s hs => ?_, t, ht, fun i hi => ?_⟩
  · obtain ⟨k, v, hv, rfl⟩ := mem_stores.mp hs
    obtain ⟨hrow, hcol⟩ := h.inArray hline hv
    exact ⟨rfl, Nat.succ_pos i, hrow, Nat.le_of_lt_succ hcol⟩
  · have hle := hi.le.2
    have hcount := h.count
    have hlt : i < (dataLines file).length := by omega
    have hline := List.getElem?_eq_getElem hlt
    refine ⟨_, hline, ?_⟩
    by_contra hc
    obtain ⟨j, line', hj, hline', hkey⟩ := h.shadowed i _ hline hc
    refine ((Table.canMatch_iff (by omega)).mp hi).2.2 (j + 1) (Nat.succ_pos j) (by omega) ?_
    rw [Table.key, Table.key, hrows j line' hline', hrows j line' hline', hrows i _ hline,
      hrows i _ hline]
    exact hkey

theorem Harmless.admissible (h : Harmless file) : Admissible file := by
  obtain ⟨t, ht, hacc⟩ := h.accounts
  obtain ⟨t', ht', hnum, hrows⟩ := Table.read_eq_some fun j line hline k v hv => h.inArray hline hv
  obtain rfl : t = t' := Option.some.inj (ht.symm.trans ht')
  have hcount : (dataLines file).length ≤ 100004 := by
    by_contra hlt
    obtain ⟨line, hline, hc⟩ := hacc 100004 (Table.canMatch_beyond (by omega))
    obtain ⟨v, hv⟩ := hc.field_isSome (Nat.zero_lt_succ 3)
    have := (h.inArray hline hv).1
    omega
  refine ⟨hcount, fun line hmem k hk => ?_, fun i line hline hc => ?_⟩
  · obtain ⟨j, hline⟩ := List.getElem?_of_mem hmem
    cases hv : field (lineWords line) k with
    | none => rfl
    | some v => exact absurd (h.inArray hline hv).2 (by omega)
  · have hlt := (List.getElem?_eq_some_iff.mp hline).1
    by_contra hno
    -- nothing before the line hides its row
    have hmatch : t.CanMatch (i + 1) := by
      refine (Table.canMatch_iff (by omega)).mpr ⟨Nat.succ_pos i, by omega, fun j h1 hj he => ?_⟩
      have hline' := List.getElem?_eq_getElem (l := dataLines file) (show j - 1 < _ by omega)
      refine hno ⟨j - 1, _, by omega, hline', ?_⟩
      rw [← Nat.sub_add_cancel h1, Table.key, Table.key, hrows _ _ hline', hrows _ _ hline',
        hrows i line hline, hrows i line hline] at he
      exact he
    obtain ⟨line', hline', hc'⟩ := hacc i hmatch
    exact hc (Option.some.inj (hline.symm.trans hline') ▸ hc')

theorem harmless_iff (file : List Char) : Harmless file ↔ Admissible file :=
  ⟨Harmless.admissible, Admissible.harmless⟩

theorem not_harmless_blank_line : ¬ Harmless (header ++ ['\n', '\n']) := by
  intro h
  obtain ⟨j, -, hj, -⟩ := h.admissible.shadowed 0 ['\n'] (by decide) (by decide)
  exact absurd hj (Nat.not_lt_zero j)

end AtmController.Backend
