import AtmController.Frontend.OfflineWithdrawals
import AtmController.Frontend.Ranges

/-! The notes on the upper leds: what they show from the entry into state 00110 to the end of it.
The time counter runs on across the entry, so that the first blink may find it anywhere in its
period. -/

namespace AtmController.Frontend

open Clocked Slice

def NoteCounters.patterns (n : NoteCounters) : List (BitVec 4) :=
  List.replicate n.n2000 0b0001 ++ (List.replicate n.n1000 0b0010 ++
    (List.replicate n.n500 0b0100 ++ List.replicate n.n100 0b1000))

/-- Every pattern is lit once, and is dark after it. -/
def pulses (patterns : List (BitVec 4)) : List (BitVec 4) := patterns.flatMap fun on => [on, 0]

theorem length_pulses (l : List (BitVec 4)) : (pulses l).length = 2 * l.length := by
  simp [pulses, Nat.mul_comm]

def Notes.counters (n : Notes) : NoteCounters :=
  ⟨n.n2000.toNat, n.n1000.toNat, n.n500.toNat, n.n100.toNat⟩

theorem Notes.patterns_counters (n : Notes) : n.counters.patterns = [] ↔ n.count = 0 := by
  simp [NoteCounters.patterns, Notes.counters, Notes.count]
  omega

namespace SystemState

def Between (q : SystemState) : Prop :=
  q = .noteAllocation ∨ q = .encrypt ∨ q = .communicating ∨ q = .decrypt ∨ q = .communicationLost

theorem dispensingCash_mem_successors {q : SystemState}
    (h : dispensingCash ∈ q.successors) :
    q = .decrypt ∨ q = .communicationLost ∨ q = .dispensingCash := by
  cases q <;> simp_all [successors]

end SystemState

namespace Main

def upperLeds (m : Main) : BitVec 4 := m.ledOut.extractLsb' 4 4

variable {g : Generics} {i : AtmEdge} {m : Main}

theorem upperLeds_blink {w : Nat} {on : BitVec w} (hw : w ≤ 4) :
    (m.blink g 0 on).upperLeds = m.upperLeds :=
  extractLsb'_assign_of_disjoint _ _ _ _ _ (by omega) (by omega)

theorem upperLeds_countBlinks : (m.countBlinks g).upperLeds = m.upperLeds := by
  simp only [countBlinks]
  split_ifs
  · rfl
  · exact upperLeds_blink le_rfl
  · exact extractLsb'_assign_of_disjoint _ _ _ _ _ (by omega) (by omega)

theorem upperLeds_assign (m : Main) (on : BitVec 4) :
    ({ m with ledOut := assign m.ledOut 4 on } : Main).upperLeds = on :=
  extractLsb'_assign _ _ _ (by omega)

theorem upperLeds_finishBlinks : (m.finishBlinks g).upperLeds = 0 := by
  simp only [finishBlinks]
  split_ifs
  · exact BitVec.extractLsb'_zero
  · exact upperLeds_assign m 0

theorem blinkNotes_cases (g : Generics) (m : Main) :
    m.notesToBeDispensed.patterns = [] ∧ m.blinkNotes g = m.finishBlinks g ∨
      ∃ fewer on, on ≠ 0 ∧ m.notesToBeDispensed.patterns = on :: fewer.patterns ∧
        m.blinkNotes g = m.blinkNote g fewer on := by
  obtain ⟨⟨n2000, n1000, n500, n100⟩, h⟩ : ∃ n, m.notesToBeDispensed = n := ⟨_, rfl⟩
  simp only [blinkNotes, h, NoteCounters.patterns]
  rcases n2000 with - | n2000
  · rcases n1000 with - | n1000
    · rcases n500 with - | n500
      · rcases n100 with - | n100
        · exact .inl ⟨rfl, rfl⟩
        · exact .inr ⟨_, 0b1000, by decide, rfl, rfl⟩
      · exact .inr ⟨_, 0b0100, by decide, rfl, rfl⟩
    · exact .inr ⟨_, 0b0010, by decide, rfl, rfl⟩
  · exact .inr ⟨_, 0b0001, by decide, rfl, rfl⟩

def Unlit (m : Main) : Prop :=
  m.timeGap = false ∧ m.ledBlinkCounter = 0 ∧ m.upperLeds = 0

def UnlitInv (m : Main) : Prop :=
  match m.systemState with
  | .takingInput => m.timeGap = false ∧ m.ledBlinkCounter = 0
  | .noteAllocation | .encrypt | .communicating | .decrypt | .communicationLost => m.Unlit
  | .dispensingCash => m.dispensingDoneAlready = false → m.Unlit
  | _ => True

theorem Unlit.unlitInv (h : m.Unlit) : m.UnlitInv := by
  cases hq : m.systemState <;> simp only [UnlitInv, hq]
  all_goals first
    | exact h
    | exact ⟨h.1, h.2.1⟩
    | exact fun _ => h

end Main

namespace Atm

open Main

variable {g : Generics} {i : AtmEdge} {s : Atm}

theorem upperLeds_takingInput (hs : s.systemState = .takingInput)
    (h : (s.takingInput g i).systemState ≠ .takingInput) :
    (s.takingInput g i).upperLeds = 0 := by
  simp only [takingInput, upperLeds_blink (show 1 ≤ 4 by decide)] at h ⊢
  split_ifs at h ⊢
  · exact BitVec.extractLsb'_zero
  · exact absurd hs h
  · exact absurd hs h
  · exact absurd hs h
  · exact absurd hs h

theorem upperLeds_communicating : (s.communicating g i).upperLeds = s.upperLeds := by
  obtain ⟨a, u, hst⟩ := exists_status i s.toMain
  obtain ⟨r, c, hc⟩ := exists_collect 10 i (status i s.toMain)
  have hl : ((status i s.toMain).collect 10 i).ledOut = s.ledOut := by rw [hc, hst]
  simp only [communicating]
  split_ifs <;> exact (upperLeds_blink (show 2 ≤ 4 by decide)).trans (by simp only [upperLeds, hl])

theorem upperLeds_branch (hs : s.systemState.Between) (h : s.upperLeds = 0) :
    (s.branch g i).upperLeds = 0 := by
  rcases hs with hs | hs | hs | hs | hs
  · simp only [branch, hs, noteAllocation, upperLeds_blink (show 2 ≤ 4 by decide)]
    split_ifs <;> exact h
  · simp only [branch, hs, encrypt, upperLeds_blink (show 2 ≤ 4 by decide)]
    split_ifs <;> exact h
  · simp only [branch, hs, upperLeds_communicating, h]
  · simp only [branch, hs, decrypt, upperLeds_blink (show 2 ≤ 4 by decide)]
    split_ifs
    · exact BitVec.extractLsb'_zero
    · exact BitVec.extractLsb'_zero
    · exact h
  · simp only [branch, hs, communicationLost]
    split_ifs <;> exact h

theorem unlitInv_clock (h : s.UnlitInv) : (s.clock g i).UnlitInv := by
  have he := clock_cases g i s
  have htake (hr : i.debouncedReset = false) (hs : s.systemState = .takingInput)
      (hq : (s.clock g i).systemState ≠ .takingInput) : (s.clock g i).upperLeds = 0 := by
    have hm := clock_of_not_ready (g := g) hr (s := s) (by simp [hs])
    simp only [branch, hs] at hm
    rw [hm] at hq ⊢
    exact upperLeds_takingInput hs hq
  have hbetween (hr : i.debouncedReset = false) (hs : s.systemState.Between)
      (hu : s.upperLeds = 0) : (s.clock g i).upperLeds = 0 := by
    have hm := clock_of_not_ready (g := g) hr (s := s)
      (by rcases hs with hs | hs | hs | hs | hs <;> simp [hs])
    rw [hm]
    exact upperLeds_branch hs hu
  change (s.clock g i).toMain.UnlitInv
  generalize (s.clock g i).toMain = m at he htake hbetween
  cases he with
  | reset hr => trivial
  | reconnect hr hc => trivial
  | branch m hr hc hb =>
    specialize htake hr
    specialize hbetween hr
    change m.UnlitInv
    cases hb with
    | ready b l hs =>
      simp only [UnlitInv]
      cases i.debouncedStart
      · trivial
      · exact ⟨rfl, rfl⟩
    | loadingCash l n q h hq => rcases hq with rfl | rfl <;> trivial
    | dispense l n k b q h hq =>
      rcases hq with rfl | rfl
      · exact fun hd => Bool.noConfusion hd
      · trivial
    | refuse l n k q h hq =>
      rcases hq with rfl | rfl
      · exact fun hd => Bool.noConfusion hd
      · trivial
    | dispensed l n k b j q h hq hf =>
      rcases hq with rfl | rfl
      · exact fun hd => Bool.noConfusion (hd.symm.trans hf)
      · trivial
    | userNotInCache l n q h hq => rcases hq with rfl | rfl <;> trivial
    | lastKey l hs =>
      simp only [UnlitInv, hs] at h
      exact ⟨h.1, h.2, htake hs fun hq => SystemState.noConfusion hq⟩
    | noteAllocation l hs =>
      simp only [UnlitInv, hs] at h
      exact ⟨h.1, h.2.1, hbetween (.inl hs) h.2.2⟩
    | encrypt l hs =>
      simp only [UnlitInv, hs] at h
      exact Unlit.unlitInv ⟨h.1, h.2.1, hbetween (.inr (.inl hs)) h.2.2⟩
    | communicating l a u r c t hs =>
      simp only [UnlitInv, hs] at h
      exact Unlit.unlitInv ⟨h.1, h.2.1, hbetween (.inr (.inr (.inl hs))) h.2.2⟩
    | decrypt l hs =>
      simp only [UnlitInv, hs] at h
      exact Unlit.unlitInv ⟨h.1, h.2.1, hbetween (.inr (.inr (.inr (.inl hs)))) h.2.2⟩
    | serveFromCache entry hs =>
      simp only [UnlitInv, hs] at h
      exact fun _ => h
    | _ =>
      simp only [UnlitInv, *] at h ⊢
      try split_ifs
      all_goals exact h

/-- The registers when the blinks of a cycle begin; the first cycle counts the notes out. -/
def loaded (s : Atm) : Main :=
  if s.dispensingDoneAlready = false then
    { s.toMain with
      stock := s.removeNotes
      notesToBeDispensed := s.allocated.counters
      dispensingDoneAlready := true
      cache := s.dispenseCache }
  else s.toMain

theorem dispense_eq (g : Generics) (s : Atm) : s.dispense g = s.loaded.blinkNotes g := rfl

theorem exists_loaded (s : Atm) : ∃ st ca n, s.loaded = { s.toMain with
    stock := st, cache := ca, notesToBeDispensed := n, dispensingDoneAlready := true } := by
  cases hd : s.dispensingDoneAlready
  · exact ⟨s.removeNotes, s.dispenseCache, s.allocated.counters, by simp only [loaded, hd, if_true]⟩
  · refine ⟨s.stock, s.cache, s.notesToBeDispensed, ?_⟩
    simp only [loaded, hd, Bool.true_eq_false, if_false]
    rw [← hd]

theorem loaded_of_done (hd : s.dispensingDoneAlready = true) : s.loaded = s.toMain := by
  rw [loaded, if_neg (by simp [hd])]

/-- The patterns that are still to blink. -/
def owed (s : Atm) : List (BitVec 4) := s.loaded.notesToBeDispensed.patterns

structure Paying (g : Generics) (s : Atm) : Prop where
  state : s.systemState = .dispensingCash
  account : s.adequateCashInAccount = true
  atm : s.adequateCashInAtm = true
  startNoteAllocation : s.startNoteAllocation = true
  allocator : s.noteAllocator.systemState = .finished
  timeCounter : s.timeCounter ≤ g.N
  ledBlinkCounter : s.ledBlinkCounter ≤ g.maxNoOfBlinks

/-- What a cycle of the payment leaves, in terms of what its blinks make of the registers. -/
structure Turn (g : Generics) (s s' : Atm) : Prop where
  state : s'.systemState = (s.loaded.blinkNotes g).systemState
  upperLeds : s'.upperLeds = (s.loaded.blinkNotes g).upperLeds
  timeGap : s'.timeGap = (s.loaded.blinkNotes g).timeGap
  timeCounter : s'.timeCounter = if s.timeCounter = g.N then 0 else s.timeCounter + 1
  owed : s'.owed = (s.loaded.blinkNotes g).notesToBeDispensed.patterns
  paying : s'.systemState = .dispensingCash → Paying g s'
  cyclesLeft : s'.systemState = .dispensingCash → s'.loaded.cyclesLeft g < s.loaded.cyclesLeft g

theorem blinkNotes_progress {m : Main} (hs : (m.blinkNotes g).systemState = .dispensingCash)
    (hb : m.ledBlinkCounter ≤ g.maxNoOfBlinks) (ht : m.timeCounter ≤ g.N) :
    (tick g i ((m.blinkNotes g).countBlinks g)).cyclesLeft g < m.cyclesLeft g := by
  obtain ⟨l, n, b, q, hbn, -⟩ := exists_blinkNotes g m
  have hbc : (m.blinkNotes g).ledBlinkCounter = m.ledBlinkCounter := by rw [hbn]
  have htc : (m.blinkNotes g).timeCounter = m.timeCounter := by rw [hbn]
  rcases blinkNotes_spec g m with hfin | ⟨-, hN, hn⟩
  · obtain ⟨l', q', hf, hq⟩ := finishBlinks_spec g m
    have hlt : m.ledBlinkCounter < g.maxNoOfBlinks := by
      rcases hq with rfl | ⟨-, hne⟩
      · rw [hfin, hf] at hs
        exact SystemState.noConfusion hs
      · omega
    have hleft : (m.blinkNotes g).blinksLeft = m.blinksLeft := by
      rw [hfin, hf]
      rfl
    exact countBlinks_progress hb ht hbc htc (fun _ => .inr ⟨hleft, hlt⟩) fun _ => hleft
  · exact countBlinks_progress hb ht hbc htc (fun h => .inl (hN (htc.symm.trans h)))
      fun h => hn fun h' => h (htc.trans h')

theorem Paying.clock (h : Paying g s) (hr : i.debouncedReset = false) :
    Turn g s (s.clock g i) := by
  have hm := clock_of_not_ready (g := g) hr (s := s) (by simp [h.state])
  simp only [branch, h.state, dispensingCash] at hm
  rw [if_pos ⟨h.account, h.atm⟩, dispense_eq] at hm
  obtain ⟨st, ca, n₀, hl⟩ := s.exists_loaded
  obtain ⟨l, n, b, q, hb, hq⟩ := exists_blinkNotes g s.loaded
  obtain ⟨l', hc⟩ := countBlinks_spec g (s.loaded.blinkNotes g)
  have hmain := hm
  rw [hc, hb, hl] at hmain
  have hdone : (s.clock g i).dispensingDoneAlready = true := by rw [hmain]; rfl
  have hallocator : (s.clock g i).noteAllocator = s.noteAllocator :=
    NoteAllocator.clock_finished hr h.startNoteAllocation h.allocator
  have hstate : (s.clock g i).systemState = (s.loaded.blinkNotes g).systemState := by
    rw [hmain, hb]
    rfl
  have hbc : s.loaded.ledBlinkCounter = s.ledBlinkCounter := by rw [hl]
  have htc : s.loaded.timeCounter = s.timeCounter := by rw [hl]
  exact {
    state := hstate
    upperLeds := by
      rw [hm]
      exact upperLeds_countBlinks
    timeGap := by rw [hmain, hb]; rfl
    timeCounter := by rw [hmain]; rfl
    owed := by
      rw [Atm.owed, loaded_of_done hdone, hmain, hb]
      rfl
    paying := fun hs => {
      state := hs
      account := by rw [hmain]; exact h.account
      atm := by rw [adequateCashInAtm, hallocator]; exact h.atm
      startNoteAllocation := by rw [hmain]; exact h.startNoteAllocation
      allocator := by rw [hallocator]; exact h.allocator
      timeCounter := timeCounter_clock h.timeCounter
      ledBlinkCounter := by
        rw [hm]
        refine countBlinks_ledBlinkCounter_le ?_
        rw [hb, hl]
        exact h.ledBlinkCounter }
    cyclesLeft := fun hs => by
      rw [loaded_of_done hdone, hm]
      exact blinkNotes_progress (hstate ▸ hs) (hbc ▸ h.ledBlinkCounter) (htc ▸ h.timeCounter) }

/-- What a cycle of the payment does to the notes that are left, to the gap and to the leds. -/
inductive Blinks (g : Generics) (s s' : Atm) : Prop
  /-- All notes are out. -/
  | finished : s.owed = [] → s'.owed = [] → s'.upperLeds = 0 → Blinks g s s'
  /-- A note is counted off, lit or not. -/
  | count (on fewer) : s.timeCounter = g.N → s.timeGap = false → s.owed = on :: fewer →
      Paying g s' → s'.owed = fewer → s'.timeGap = true → s'.upperLeds = s.upperLeds →
      Blinks g s s'
  | gapOver : s.timeCounter = g.N → s.timeGap = true → Paying g s' → s'.owed = s.owed →
      s'.timeGap = false → s'.upperLeds = s.upperLeds → Blinks g s s'
  | light (on fewer) : s.timeCounter ≠ g.N → g.M < s.timeCounter → s.timeGap = false →
      s.owed = on :: fewer → on ≠ 0 → Paying g s' → s'.owed = s.owed → s'.timeGap = false →
      s'.upperLeds = on → Blinks g s s'
  | dark : s.timeCounter ≠ g.N → (s.timeGap = false → s.timeCounter ≤ g.M) → s.owed ≠ [] →
      Paying g s' → s'.owed = s.owed → s'.timeGap = s.timeGap → s'.upperLeds = 0 → Blinks g s s'

theorem Turn.blinks {s' : Atm} (h : Turn g s s') (hs : s.systemState = .dispensingCash) :
    Blinks g s s' := by
  obtain ⟨st, ca, n₀, hl⟩ := s.exists_loaded
  have htc : s.loaded.timeCounter = s.timeCounter := by rw [hl]
  have hgap : s.loaded.timeGap = s.timeGap := by rw [hl]
  have hup : s.loaded.upperLeds = s.upperLeds := by rw [hl]; rfl
  have hst : s.loaded.systemState = .dispensingCash := by rw [hl]; exact hs
  obtain ⟨hq, hu, hg, -, ho, hp, -⟩ := h
  rcases blinkNotes_cases g s.loaded with ⟨hno, hb⟩ | ⟨fewer, on, hon, hno, hb⟩
  · rw [hb] at ho hu
    obtain ⟨l, q, hf, -⟩ := finishBlinks_spec g s.loaded
    refine .finished hno (ho.trans ?_) (hu.trans upperLeds_finishBlinks)
    rw [hf]
    exact hno
  · obtain ⟨l, n, b, hbn⟩ := exists_blinkNote g fewer on s.loaded
    have hpay : Paying g s' := hp (hq.trans (by rw [hb, hbn]; exact hst))
    rw [hb] at ho hu hg
    have hlight := upperLeds_assign s.loaded on
    have hdark := upperLeds_assign s.loaded 0
    simp only [blinkNote, htc, hgap] at ho hu hg
    by_cases hN : s.timeCounter = g.N
    · cases hG : s.timeGap
      · simp only [hN, hG, true_and, if_true] at ho hu hg
        exact .count on _ hN hG hno hpay ho hg (hu.trans hup)
      · simp only [hN, hG, true_and, if_true, Bool.true_eq_false, if_false] at ho hu hg
        exact .gapOver hN hG hpay ho hg (hu.trans hup)
    · by_cases hM : g.M < s.timeCounter ∧ s.timeGap = false
      · simp only [hN, hM, false_and, and_self, if_true, if_false] at ho hu hg
        exact .light on _ hN hM.1 hM.2 hno hon hpay ho hg (hu.trans hlight)
      · simp only [hN, hM, false_and, if_false] at ho hu hg
        refine .dark hN (fun hG => ?_) (fun h => ?_) hpay ho hg (hu.trans hdark)
        · exact Nat.le_of_not_lt fun h => hM ⟨h, hG⟩
        · exact List.cons_ne_nil _ _ (hno.symm.trans h)

/-- The patterns that are still to be seen. Where the period ends in the dark without a gap, the
note that is counted off is never lit. -/
def toShow (g : Generics) (s : Atm) : List (BitVec 4) :=
  if s.timeGap = false ∧ s.timeCounter = g.N then s.owed.tail else s.owed

/-- What the upper leds show from a state on until the payment is over, each value once as long as
it stays. -/
inductive Shows (g : Generics) (s : Atm) : List (BitVec 4) → Prop
  | ended : s.systemState ≠ .dispensingCash → s.upperLeds = 0 → Shows g s [0]
  | dark : Paying g s → s.upperLeds = 0 → Shows g s (0 :: pulses (s.toShow g))
  | lit (on fewer) : Paying g s → s.upperLeds = on → on ≠ 0 → s.timeGap = false →
      g.M < s.timeCounter → s.owed = on :: fewer → Shows g s (on :: 0 :: pulses fewer)
  /-- The note is counted off, and the leds are still lit. -/
  | fading (on) : Paying g s → s.upperLeds = on → on ≠ 0 → s.timeGap = true → s.timeCounter = 0 →
      Shows g s (on :: 0 :: pulses s.owed)

theorem toShow_of_gap (h : s.timeGap = true) : s.toShow g = s.owed := by
  simp [toShow, h]

theorem toShow_of_ne (h : s.timeCounter ≠ g.N) : s.toShow g = s.owed := by
  simp [toShow, h]

theorem toShow_of_nil (h : s.owed = []) : s.toShow g = [] := by
  simp [toShow, h]

theorem shows_finished {s' : Atm} (hp : s'.systemState = .dispensingCash → Paying g s')
    (ho : s'.owed = []) (hu : s'.upperLeds = 0) : Shows g s' [0] := by
  by_cases hs : s'.systemState = .dispensingCash
  · have hd := Shows.dark (hp hs) hu
    rwa [toShow_of_nil ho] at hd
  · exact .ended hs hu

theorem Shows.clock {l : List (BitVec 4)} (hMN : g.M + 1 < g.N) (h : Shows g s l)
    (hs : s.systemState = .dispensingCash) (hr : i.debouncedReset = false) :
    ∃ l', Shows g (s.clock g i) l' ∧
      l = if s.upperLeds = (s.clock g i).upperLeds then l' else s.upperLeds :: l' := by
  have hp : Paying g s := by
    cases h with
    | ended hne => exact absurd hs hne
    | dark hp => exact hp
    | lit on fewer hp => exact hp
    | fading on hp => exact hp
  have ht := hp.clock hr
  have hb := ht.blinks hs
  generalize s.clock g i = s' at ht hb
  have htc := ht.timeCounter
  cases h with
  | ended hne => exact absurd hs hne
  | dark _ hu =>
    rw [hu]
    cases hb with
    | finished ho ho' hu' =>
      exact ⟨_, shows_finished ht.paying ho' hu', by rw [if_pos hu'.symm, toShow_of_nil ho]; rfl⟩
    | count on fewer hN hG ho hp' ho' hG' hu' =>
      refine ⟨_, .dark hp' (hu'.trans hu), ?_⟩
      rw [if_pos (hu'.trans hu).symm, toShow_of_gap hG', ho', toShow, if_pos ⟨hG, hN⟩, ho]
      rfl
    | gapOver hN hG hp' ho' hG' hu' =>
      refine ⟨_, .dark hp' (hu'.trans hu), ?_⟩
      rw [if_pos hN] at htc
      rw [if_pos (hu'.trans hu).symm, toShow_of_gap hG, toShow_of_ne (by omega), ho']
    | light on fewer hN hM hG ho hon hp' ho' hG' hu' =>
      rw [if_neg hN] at htc
      refine ⟨_, .lit on fewer hp' hu' hon hG' (by omega) (ho'.trans ho), ?_⟩
      rw [hu', if_neg (Ne.symm hon), toShow_of_ne hN, ho]
      rfl
    | dark hN hM hne hp' ho' hG' hu' =>
      refine ⟨_, .dark hp' hu', ?_⟩
      rw [if_neg hN] at htc
      have hshow : s'.toShow g = s'.owed := by
        cases hG : s.timeGap
        · exact toShow_of_ne (by have := hM hG; omega)
        · exact toShow_of_gap (hG'.trans hG)
      rw [if_pos hu'.symm, hshow, toShow_of_ne hN, ho']
  | lit on fewer _ hu hon hG hM ho =>
    cases hb with
    | finished ho' => exact absurd (ho.symm.trans ho') (List.cons_ne_nil _ _)
    | count on' fewer' hN _ ho₂ hp' ho' hG' hu' =>
      rw [if_pos hN] at htc
      obtain ⟨rfl, rfl⟩ := List.cons.inj (ho.symm.trans ho₂)
      exact ⟨_, .fading on hp' (hu'.trans hu) hon hG' htc, by rw [if_pos hu'.symm, ho']⟩
    | gapOver hN hG₂ => exact absurd (hG.symm.trans hG₂) Bool.noConfusion
    | light on' fewer' hN _ _ ho₂ _ hp' ho' hG' hu' =>
      rw [if_neg hN] at htc
      obtain ⟨rfl, rfl⟩ := List.cons.inj (ho.symm.trans ho₂)
      refine ⟨_, .lit on fewer hp' hu' hon hG' (by omega) (ho'.trans ho), ?_⟩
      rw [if_pos (hu.trans hu'.symm)]
    | dark hN hM' => exact absurd (hM' hG) (by omega)
  | fading on _ hu hon hG h0 =>
    cases hb with
    | finished ho ho' hu' =>
      refine ⟨_, shows_finished ht.paying ho' hu', ?_⟩
      rw [hu, hu', if_neg hon, ho]
      rfl
    | count on' fewer hN hG₂ => exact absurd (hG.symm.trans hG₂) Bool.noConfusion
    | gapOver hN => omega
    | light on' fewer hN hM hG₂ => exact absurd (hG.symm.trans hG₂) Bool.noConfusion
    | dark hN hM hne hp' ho' hG' hu' =>
      refine ⟨_, .dark hp' hu', ?_⟩
      rw [hu, hu', if_neg hon, toShow_of_gap (hG'.trans hG), ho']

theorem fresh_of_entry (hf : s.FreshInv) (hne : s.systemState ≠ .dispensingCash)
    (hs : (s.clock g i).systemState = .dispensingCash) :
    (s.clock g i).dispensingDoneAlready = false := by
  have hmem := mem_successors g i s
  rw [hs] at hmem
  have he := clock_cases g i s
  generalize (s.clock g i).toMain = m at he hs
  cases he with
  | reset hr => exact SystemState.noConfusion hs
  | reconnect hr hc => exact SystemState.noConfusion hs
  | branch m hr hc hb =>
    rcases SystemState.dispensingCash_mem_successors hmem with hq | hq | hq
    · simp only [FreshInv, hq] at hf
      cases hb <;> first | exact hf | simp_all
    · simp only [FreshInv, hq] at hf
      cases hb <;> first | exact hf | simp_all
    · exact absurd hq hne

theorem shows_of_entry (ha : s.AllocatorInv s.noteAllocator) (hu : s.UnlitInv)
    (ht : s.timeCounter ≤ g.N) (hd : s.dispensingDoneAlready = false)
    (hs : s.systemState = .dispensingCash) (hacc : s.adequateCashInAccount = true)
    (hatm : s.adequateCashInAtm = true) :
    Paying g s ∧ s.owed = s.allocated.counters.patterns ∧ s.timeGap = false ∧
      Shows g s (0 :: pulses (s.toShow g)) := by
  simp only [AllocatorInv, hs] at ha
  simp only [UnlitInv, hs] at hu
  obtain ⟨hgap, hblink, hup⟩ := hu hd
  have hp : Paying g s :=
    { state := hs
      account := hacc
      atm := hatm
      startNoteAllocation := ha.1
      allocator := ((ha.2.2 hd).granted hatm).1
      timeCounter := ht
      ledBlinkCounter := hblink ▸ Nat.zero_le _ }
  refine ⟨hp, ?_, hgap, .dark hp hup⟩
  rw [owed, loaded, if_pos hd]

end Atm

namespace TopLevel

open Atm Main

variable {g : Generics} {p : Pins} {ps qs : List Pins} {t : TopLevel}

def shown (g : Generics) : TopLevel → List Pins → List (BitVec 4) :=
  observed (clock g) fun t => t.atm.upperLeds

structure Enters (g : Generics) (ps : List Pins) (p : Pins) : Prop where
  before : (after g ps).atm.systemState ≠ .dispensingCash
  state : (after g (ps ++ [p])).atm.systemState = .dispensingCash
  account : (after g (ps ++ [p])).atm.adequateCashInAccount = true
  atm : (after g (ps ++ [p])).atm.adequateCashInAtm = true

/-- Without a reset the ATM stays in state 00110 until the last edge, which leaves it. -/
def Visit (g : Generics) (t : TopLevel) (qs : List Pins) : Prop :=
  Runs (clock g) (fun p t => NoReset p t ∧ t.atm.systemState = .dispensingCash) t qs ∧
    (run (clock g) t qs).atm.systemState ≠ .dispensingCash

theorem destutter_shown {l : List (BitVec 4)} (hMN : g.M + 1 < g.N) (h : Shows g t.atm l)
    (hv : Visit g t qs) : (shown g t qs).destutter (· ≠ ·) = l := by
  refine hv.1.destutter_observed (R := fun t => Shows g t.atm)
    (F := fun t => t.atm.systemState ≠ .dispensingCash)
    (fun p t l hp hl => hl.clock (i := t.edge p) hMN hp.2 hp.1) (fun t l hl hs => ?_) h hv.2
  cases hl with
  | ended _ hu => rw [hu]
  | dark hp => exact absurd hp.state hs
  | lit on fewer hp => exact absurd hp.state hs
  | fading on hp => exact absurd hp.state hs

theorem exists_visit (h : Paying g t.atm) (f : Nat → Pins)
    (hf : ∀ n, NoReset (f n) (run (clock g) t ((List.range n).map f))) :
    ∃ n, Visit g t ((List.range n).map f) := by
  obtain ⟨n, hr, hleft⟩ := exists_run_of_measure (P := fun t : TopLevel => Paying g t.atm)
    (Q := fun t => t.atm.systemState ≠ .dispensingCash) (fun t => t.atm.loaded.cyclesLeft g)
    (fun p t hr hp => by
      have ht : Turn g t.atm (clock g p t).atm := hp.clock hr
      by_cases hs : (clock g p t).atm.systemState = .dispensingCash
      · exact .inr ⟨ht.paying hs, ht.cyclesLeft hs⟩
      · exact .inl hs) h f hf
  exact ⟨n, hr.mono fun p t h => ⟨h.1, h.2.state⟩, hleft⟩

theorem Enters.shows (h : Enters g ps p) :
    Paying g (after g (ps ++ [p])).atm ∧
      (after g (ps ++ [p])).atm.owed = (after g (ps ++ [p])).atm.allocated.counters.patterns ∧
      (after g (ps ++ [p])).atm.timeGap = false ∧
      Shows g (after g (ps ++ [p])).atm (0 :: pulses ((after g (ps ++ [p])).atm.toShow g)) := by
  have hd : (after g (ps ++ [p])).atm.dispensingDoneAlready = false := by
    have hs := h.state
    rw [after_concat] at hs ⊢
    exact fresh_of_entry (freshInv ps) h.before hs
  have hu : (after g (ps ++ [p])).atm.UnlitInv :=
    atm_invariant (P := fun s => s.UnlitInv) (fun _ _ h => unlitInv_clock h) trivial _
  have ht : (after g (ps ++ [p])).atm.timeCounter ≤ g.N :=
    atm_invariant (P := fun s => s.timeCounter ≤ g.N) (fun _ _ h => timeCounter_clock h)
      (Nat.zero_le _) _
  exact shows_of_entry (allocatorInv _) hu ht hd h.state h.account h.atm

theorem exists_entered {r : Nat} (h36 : 36 ≤ r) (hrN : r ≤ ({} : Generics).N) :
    ∃ ps p, Enters {} ps p ∧ (after {} (ps ++ [p])).Settled {} ∧
      (after {} (ps ++ [p])).atm.allocated = ⟨0, 0, 0, 1⟩ ∧
      (after {} (ps ++ [p])).atm.timeCounter = r := by
  have hN : debounceTime ≤ ({} : Generics).N := by rw [debounceTime_eq]; decide
  obtain ⟨t₁, a, h₁, hs₁, ha, hp₁⟩ := Tracked.exists_stocked
  obtain ⟨t₂, n, w, h₂, hs₂, hn, hw, hp₂⟩ := exists_waiting (v := 0x0020123400000064) hN hs₁ hp₁
    (by decide) (byte (encipher 900))
  have hfin := allocating_finished (d := Tracked.stocked) (v := 0x0020123400000064) ha hn
  obtain ⟨t₃, c₃, h₃, hs₃, hp₃⟩ := exists_replied (b := 1) hs₂ hp₂ hfin.state (.inl rfl) (by omega)
  -- the last byte of the reply is held back
  obtain ⟨t₄, c₄, h₄, hs₄, hp₄⟩ := exists_waited (n := 5 * (({} : Generics).N + 1) + (r - 36)) hs₃
    hp₃ hfin.state (by decide) (by omega) (by omega)
  have hc₄ : t₄.atm.timeCounter = r - 36 := by
    have hle := hp₄.timeCounter
    have hwait := hp₄.waited
    change t₄.atm.timeCounter ≤ 100000000 at hle
    change t₄.atm.timeOutCounter * 100000001 + t₄.atm.timeCounter = 500000005 + (r - 36) at hwait
    change r ≤ 100000000 at hrN
    omega
  obtain ⟨hs₅, hat₅⟩ := hs₄.step (g := {}) (p := writePins 17 (byte (encipher 900) 7)) rfl
  have hd₅ := hp₄.lastByte (i := Buttons.edge {} (writePins 17 (byte (encipher 900) 7))) rfl rfl
    rfl rfl (by omega)
  have hc₅ := timeCounter_clock_eq (g := {}) (s := t₄.atm)
    (i := Buttons.edge {} (writePins 17 (byte (encipher 900) 7))) rfl
  rw [NoteAllocator.clock_finished rfl rfl hfin.state, ← hat₅] at hd₅
  rw [← hat₅, if_neg (by omega), hc₄] at hc₅
  obtain ⟨t₆, c₆, h₆, hs₆, hd₆, hc₆⟩ := exists_deciphered hs₅ hd₅ hfin.state
  rw [hc₅, Nat.mod_eq_of_lt (by omega)] at hc₆
  obtain ⟨hs₇, hat₇⟩ := hs₆.step (g := {}) (p := idlePins 25 {} 0) rfl
  have hset := hd₆.settling (i := Buttons.edge {} (idlePins 25 {} 0)) rfl
  have hc₇ := timeCounter_clock_eq (g := {}) (s := t₆.atm)
    (i := Buttons.edge {} (idlePins 25 {} 0)) rfl
  rw [NoteAllocator.clock_finished rfl rfl hfin.state, ← hat₇] at hset
  rw [← hat₇, if_neg (by omega)] at hc₇
  obtain ⟨ps, -, hps⟩ := ((((h₁.trans h₂).trans h₃).trans h₄).step
    (writePins 17 (byte (encipher 900) 7))).trans h₆
  have hlast : after {} (ps ++ [idlePins 25 {} 0]) = clock {} (idlePins 25 {} 0) t₆ := by
    rw [after_concat, show after {} ps = t₆ from hps]
  refine ⟨ps, idlePins 25 {} 0, ⟨?_, ?_, ?_, ?_⟩, ?_, ?_, ?_⟩
  · rw [show after {} ps = t₆ from hps, hd₆.state]
    decide
  · rw [hlast]
    exact hset.state
  · rw [hlast]
    exact hset.account
  · rw [hlast, adequateCashInAtm, hset.allocator, hfin.allocationPossible]
    decide
  · rw [hlast]
    exact hs₇
  · rw [hlast, allocated, hset.allocator, hfin.out]
    decide
  · rw [hlast, hc₇]
    omega

theorem noReset_of_settled (h : t.Settled {}) (c : BitVec 7) (n : Nat) :
    NoReset (idlePins c {} 0)
      (run (clock g) t ((List.range n).map fun _ => idlePins c {} 0)) := by
  rw [List.map_const', List.length_range, run_replicate, NoReset,
    (h.iterate (g := g) (p := idlePins c {} 0) n).1.edge]
  rfl

/-- From every entry into a payment, the ATM leaves the state in the end, and by then the upper leds
have shown the allocated notes, a pulse for each and dark in between: exactly when the time counter
is not at the end of its period in the first cycle, or there is no note. -/
theorem pulses_iff (g : Generics) (hMN : g.M + 1 < g.N) (ps : List Pins) (p : Pins)
    (h : Enters g ps p) :
    (∀ f : Nat → Pins,
      (∀ n, NoReset (f n) (run (clock g) (after g (ps ++ [p])) ((List.range n).map f))) →
        ∃ n, Visit g (after g (ps ++ [p])) ((List.range n).map f)) ∧
    ∀ qs, Visit g (after g (ps ++ [p])) qs →
      ((shown g (after g (ps ++ [p])) qs).destutter (· ≠ ·) =
          0 :: pulses (after g (ps ++ [p])).atm.allocated.counters.patterns ↔
        ((after g (ps ++ [p])).atm.timeCounter = g.N →
          (after g (ps ++ [p])).atm.allocated.count = 0)) := by
  obtain ⟨hp, ho, hgap, hshow⟩ := h.shows
  refine ⟨exists_visit hp, fun qs hv => ?_⟩
  rw [destutter_shown hMN hshow hv, ← Notes.patterns_counters, ← ho]
  simp only [toShow, hgap, true_and, List.cons.injEq]
  split_ifs with hN
  · refine ⟨fun heq _ => ?_, fun hnil => by rw [hnil hN, List.tail_nil]⟩
    have hlen := congrArg List.length heq
    rw [length_pulses, length_pulses, List.length_tail] at hlen
    exact List.eq_nil_of_length_eq_zero (by omega)
  · exact ⟨fun _ h => absurd h hN, fun _ => rfl⟩

theorem pulses_hundred : ∃ ps p qs, Enters {} ps p ∧ Visit {} (after {} (ps ++ [p])) qs ∧
    (shown {} (after {} (ps ++ [p])) qs).destutter (· ≠ ·) = [0, 0b1000, 0] := by
  obtain ⟨ps, p, he, hs, ha, ht⟩ := exists_entered (r := 36) le_rfl (by decide)
  obtain ⟨hend, hiff⟩ := pulses_iff {} (by decide) ps p he
  obtain ⟨n, hv⟩ := hend (fun _ => idlePins 25 {} 0) (noReset_of_settled hs 25)
  refine ⟨ps, p, _, he, hv, ((hiff _ hv).mpr fun hN => ?_).trans ?_⟩
  · exact absurd (ht.symm.trans hN) (by decide)
  · rw [ha]
    rfl

/-- The note of 100 that is counted off in the first cycle of the state and is never lit. -/
theorem pulse_missing : ¬ ∀ g ps p, g.M + 1 < g.N → Enters g ps p →
    ∀ qs, Visit g (after g (ps ++ [p])) qs →
      (shown g (after g (ps ++ [p])) qs).destutter (· ≠ ·) =
        0 :: pulses (after g (ps ++ [p])).atm.allocated.counters.patterns := by
  intro hall
  have hMN : ({} : Generics).M + 1 < ({} : Generics).N := by decide
  obtain ⟨ps, p, he, hs, ha, ht⟩ := exists_entered (r := ({} : Generics).N) (by decide) le_rfl
  obtain ⟨hp, ho, hgap, hshow⟩ := he.shows
  obtain ⟨n, hv⟩ := exists_visit hp (fun _ => idlePins 25 {} 0) (noReset_of_settled hs 25)
  have heq := (destutter_shown hMN hshow hv).symm.trans (hall {} ps p hMN he _ hv)
  rw [toShow, if_pos ⟨hgap, ht⟩, ho, ha] at heq
  exact absurd heq (by decide)

end TopLevel

end AtmController.Frontend
