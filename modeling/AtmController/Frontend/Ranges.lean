import AtmController.Frontend.Verdict

/-! The integer variables of `main_process` and the ranges that they are declared with. Each of them
but the note counters is assigned once in a cycle at most; what the states know about each counter
keeps it in its range, but for the counter of the upper leds, which no state bounds. -/

namespace AtmController.Frontend

open Clocked Slice

def NoteCounters.Bytes (n : NoteCounters) : Prop :=
  n.n2000 ≤ 255 ∧ n.n1000 ≤ 255 ∧ n.n500 ≤ 255 ∧ n.n100 ≤ 255

namespace Main

structure InRange (g : Generics) (m : Main) : Prop where
  inputByteCount : m.inputByteCount ≤ 8
  notesToBeDispensed : m.notesToBeDispensed.Bytes
  led4to7BlinkCounter : m.led4to7BlinkCounter ≤ 6
  ledBlinkCounter : m.ledBlinkCounter ≤ g.maxNoOfBlinks
  timeCounter : m.timeCounter ≤ g.N
  timeOutCounter : m.timeOutCounter ≤ 31
  cacheUpdateCount : m.cacheUpdateCount ≤ 4

/-- The states that end when `led_blink_counter` is full are entered with room in it. -/
def BlinkInv (g : Generics) (m : Main) : Prop :=
  match m.systemState with
  | .takingInput | .noteAllocation | .encrypt | .communicating | .decrypt | .communicationLost
  | .loadingCash | .userNotInCache => m.ledBlinkCounter < g.maxNoOfBlinks
  | _ => m.ledBlinkCounter ≤ g.maxNoOfBlinks

/-- The resynchronisation counts from 0 to 4; outside of it the cache mode is on only while the
count is 0. -/
def SyncInv (m : Main) : Prop :=
  (m.cacheMode = true → m.cacheUpdateCount = 0) ∧
    match m.systemState with
    | .takingInput | .noteAllocation | .encrypt | .communicating | .decrypt | .communicationLost =>
      m.cacheUpdateCount = 0
    | .communicationRegained => m.cacheMode = false ∧ m.cacheUpdateCount ≤ 4
    | .communicateCache | .updateCache => m.cacheMode = false ∧ m.cacheUpdateCount ≤ 3
    | _ => m.cacheUpdateCount ≤ 4

variable {g : Generics} {m : Main}

theorem BlinkInv.le (h : m.BlinkInv g) : m.ledBlinkCounter ≤ g.maxNoOfBlinks := by
  cases hst : m.systemState <;> simp only [BlinkInv, hst] at h <;> omega

theorem SyncInv.le (h : m.SyncInv) : m.cacheUpdateCount ≤ 4 := by
  have hs := h.2
  cases hst : m.systemState <;> simp only [hst] at hs <;> omega

theorem blinkNote_bytes {fewer : NoteCounters} {on : BitVec 4} (h : m.notesToBeDispensed.Bytes)
    (hf : fewer.Bytes) : (m.blinkNote g fewer on).notesToBeDispensed.Bytes := by
  simp only [blinkNote]
  split_ifs
  · exact hf
  · exact h
  · exact h
  · exact h

theorem blinkNotes_bytes (h : m.notesToBeDispensed.Bytes) :
    (m.blinkNotes g).notesToBeDispensed.Bytes := by
  simp only [blinkNotes]
  split_ifs
  · exact blinkNote_bytes h (by simp only [NoteCounters.Bytes] at h ⊢; omega)
  · exact blinkNote_bytes h (by simp only [NoteCounters.Bytes] at h ⊢; omega)
  · exact blinkNote_bytes h (by simp only [NoteCounters.Bytes] at h ⊢; omega)
  · exact blinkNote_bytes h (by simp only [NoteCounters.Bytes] at h ⊢; omega)
  · obtain ⟨l, q, hf, -⟩ := finishBlinks_spec g m
    rw [hf]
    exact h

end Main

namespace Atm

open Main

variable {g : Generics} {i : AtmEdge} {s : Atm}

theorem syncInv_clock (h : s.SyncInv) : (s.clock g i).SyncInv := by
  have he := clock_cases g i s
  change (s.clock g i).toMain.SyncInv
  generalize (s.clock g i).toMain = m at he
  obtain ⟨hm, hs⟩ := h
  cases he with
  | reset hr =>
    exact ⟨hm, SyncInv.le (m := s.toMain) ⟨hm, hs⟩⟩
  | reconnect hr hc =>
    refine ⟨fun h => Bool.noConfusion h, rfl, ?_⟩
    change s.cacheUpdateCount ≤ 4
    rw [hm hc.1]
    omega
  | branch m hr hc hb =>
    change m.SyncInv
    cases hb with
    | ready b l h =>
      simp only [SyncInv]
      cases i.debouncedStart <;> simp
    | loadingCash l n q h hq => rcases hq with rfl | rfl <;> exact ⟨hm, by simpa [h] using hs⟩
    | dispense l n k b q h hq => rcases hq with rfl | rfl <;> exact ⟨hm, by simpa [h] using hs⟩
    | refuse l n k q h hq => rcases hq with rfl | rfl <;> exact ⟨hm, by simpa [h] using hs⟩
    | dispensed l n k b j q h hq => rcases hq with rfl | rfl <;> exact ⟨hm, by simpa [h] using hs⟩
    | userNotInCache l n q h hq => rcases hq with rfl | rfl <;> exact ⟨hm, by simpa [h] using hs⟩
    | serveFromCache entry h =>
      simp only [h] at hs
      exact ⟨fun _ => hs, by simp [hs]⟩
    | notInCache h =>
      simp only [h] at hs
      exact ⟨hm, by simp [hs]⟩
    | communicationRegained l h =>
      simp only [h] at hs
      simp only [SyncInv, hs.1, ite_self, Bool.false_eq_true, false_implies, true_and]
      split_ifs <;> simp only <;> omega
    | communicateCache l r c h =>
      simp only [h] at hs
      refine ⟨hm, ?_⟩
      simp only
      split_ifs <;> exact hs
    | updateCache l h =>
      simp only [h] at hs
      simp only [SyncInv, hs.1, Bool.false_eq_true, false_implies, true_and]
      split_ifs <;> simp only <;> omega
    | _ =>
      refine ⟨hm, ?_⟩
      simp only [*] at hs ⊢
      try split_ifs
      all_goals omega

theorem userNotInCache_spec (g : Generics) (s : Atm) : ∃ l k q,
    s.userNotInCache g = { s.toMain with ledBlinkCounter := k, ledOut := l, systemState := q } ∧
    (k = if s.timeCounter = g.N then s.ledBlinkCounter + 1 else s.ledBlinkCounter) ∧
    (q = .ready ∧ k = g.maxNoOfBlinks ∨ q = s.systemState ∧ k ≠ g.maxNoOfBlinks) := by
  simp only [userNotInCache, blink]
  split_ifs <;> exact ⟨_, _, _, rfl, rfl, by simp_all⟩

theorem refuse_spec (g : Generics) (blinks : Nat) (s : Atm) : ∃ c l q,
    s.refuse g blinks = { s.toMain with
      dispensingDoneAlready := true
      cache := c
      led4to7BlinkCounter := if s.timeCounter = g.N then s.led4to7BlinkCounter + 1
        else s.led4to7BlinkCounter
      ledOut := l
      systemState := q } ∧
    (q = .dummy ∧ s.ledBlinkCounter = g.maxNoOfBlinks ∨
      q = s.systemState ∧ s.ledBlinkCounter ≠ g.maxNoOfBlinks) := by
  cases hd : s.dispensingDoneAlready
  all_goals
    simp only [refuse, hd, Bool.true_eq_false, if_true, if_false, finishBlinks]
    split_ifs
  all_goals exact ⟨_, _, _, rfl, by simp_all⟩

theorem clock_refusing (hs : s.systemState = .dispensingCash) (hr : i.debouncedReset = false)
    (hn : ¬ (s.adequateCashInAccount = true ∧ s.adequateCashInAtm = true)) : ∃ c l q,
    (s.clock g i).toMain = tick g i { s.toMain with
      dispensingDoneAlready := true
      cache := c
      led4to7BlinkCounter := if s.timeCounter = g.N then s.led4to7BlinkCounter + 1
        else s.led4to7BlinkCounter
      ledBlinkCounter := if s.ledBlinkCounter ≠ g.maxNoOfBlinks ∧ s.timeCounter = g.N
        then s.ledBlinkCounter + 1 else s.ledBlinkCounter
      ledOut := l
      systemState := q } ∧
    (q = .dummy ∧ s.ledBlinkCounter = g.maxNoOfBlinks ∨
      q = .dispensingCash ∧ s.ledBlinkCounter ≠ g.maxNoOfBlinks) := by
  have hm := clock_of_not_ready (g := g) hr (s := s) (by simp [hs])
  simp only [branch, hs, dispensingCash] at hm
  rw [if_neg hn] at hm
  have href : ∃ b, (s.clock g i).toMain = tick g i ((s.refuse g b).countBlinks g) := by
    split_ifs at hm
    · exact ⟨_, hm⟩
    · exact ⟨_, hm⟩
  obtain ⟨b, href⟩ := href
  obtain ⟨c, l, q, hrf, hq⟩ := refuse_spec g b s
  obtain ⟨l', hcb⟩ := countBlinks_spec g (s.refuse g b)
  rw [hcb, hrf] at href
  rw [hs] at hq
  exact ⟨c, l', q, href, hq⟩

theorem clock_paying (hs : s.systemState = .dispensingCash) (hr : i.debouncedReset = false)
    (hp : s.adequateCashInAccount = true ∧ s.adequateCashInAtm = true)
    (hb : s.notesToBeDispensed.Bytes) : ∃ st ca l n b q, n.Bytes ∧
    (s.clock g i).toMain = tick g i { s.toMain with
      stock := st
      cache := ca
      dispensingDoneAlready := true
      notesToBeDispensed := n
      timeGap := b
      ledBlinkCounter := if s.ledBlinkCounter ≠ g.maxNoOfBlinks ∧ s.timeCounter = g.N
        then s.ledBlinkCounter + 1 else s.ledBlinkCounter
      ledOut := l
      systemState := q } ∧ (q = .dummy ∨ q = .dispensingCash) := by
  have hm := clock_of_not_ready (g := g) hr (s := s) (by simp [hs])
  simp only [branch, hs, dispensingCash] at hm
  rw [if_pos hp] at hm
  obtain ⟨l, n, b, q, hd, hq⟩ := exists_dispense g s
  obtain ⟨l', hcb⟩ := countBlinks_spec g (s.dispense g)
  have hn : n.Bytes := by
    have hdn : (s.dispense g).notesToBeDispensed = n := by rw [hd]
    rw [← hdn, dispense]
    refine blinkNotes_bytes ?_
    split_ifs
    · have h₁ := s.allocated.n2000.isLt
      have h₂ := s.allocated.n1000.isLt
      have h₃ := s.allocated.n500.isLt
      have h₄ := s.allocated.n100.isLt
      simp only [NoteCounters.Bytes]
      omega
    · exact hb
  rw [hcb, hd] at hm
  rw [hs] at hq
  exact ⟨_, _, _, _, _, _, hn, hm, hq.symm⟩

theorem blinkInv_dispensing {q : SystemState} {m : Main} (hm : m.systemState = q)
    (hq : q = .dummy ∨ q = .dispensingCash) (h : s.ledBlinkCounter ≤ g.maxNoOfBlinks)
    (hk : m.ledBlinkCounter = if s.ledBlinkCounter ≠ g.maxNoOfBlinks ∧ s.timeCounter = g.N
      then s.ledBlinkCounter + 1 else s.ledBlinkCounter) : m.BlinkInv g := by
  have hle : m.ledBlinkCounter ≤ g.maxNoOfBlinks := by
    split_ifs at hk <;> omega
  rcases hq with rfl | rfl <;> simpa only [BlinkInv, hm] using hle

theorem blinkInv_counting {k : Nat} {q r : SystemState} {m : Main} (hm : m.systemState = q)
    (hb : m.ledBlinkCounter = k) (h : s.ledBlinkCounter < g.maxNoOfBlinks)
    (hk : k = if s.timeCounter = g.N then s.ledBlinkCounter + 1 else s.ledBlinkCounter)
    (hq : q = r ∧ k = g.maxNoOfBlinks ∨ q = s.systemState ∧ k ≠ g.maxNoOfBlinks)
    (hr : r = .dummy ∨ r = .ready) : m.BlinkInv g := by
  have hle : k ≤ g.maxNoOfBlinks := by split_ifs at hk <;> omega
  rcases hq with ⟨rfl, hfull⟩ | ⟨-, hne⟩
  · rcases hr with rfl | rfl <;> simpa only [BlinkInv, hm, hb] using hle
  · cases hst : m.systemState <;> simp only [BlinkInv, hst] <;> omega

theorem blinkInv_clock (hmax : 0 < g.maxNoOfBlinks) (hb : s.notesToBeDispensed.Bytes)
    (h : s.BlinkInv g) : (s.clock g i).BlinkInv g := by
  have he := clock_cases g i s
  by_cases hr : i.debouncedReset = false ∧ (s.systemState = .loadingCash ∨
    s.systemState = .userNotInCache ∨ s.systemState = .dispensingCash)
  · obtain ⟨hr, hs | hs | hs⟩ := hr
    · have hm := clock_of_not_ready (g := g) hr (s := s) (by simp [hs])
      obtain ⟨l, k, q, hl, hk, hq⟩ := loadingCash_spec g s
      simp only [branch, hs, hl] at hm
      simp only [BlinkInv, hs] at h
      exact blinkInv_counting (congrArg Main.systemState hm) (congrArg Main.ledBlinkCounter hm) h hk
        hq (.inl rfl)
    · have hm := clock_of_not_ready (g := g) hr (s := s) (by simp [hs])
      obtain ⟨l, k, q, hl, hk, hq⟩ := userNotInCache_spec g s
      simp only [branch, hs, hl] at hm
      simp only [BlinkInv, hs] at h
      exact blinkInv_counting (congrArg Main.systemState hm) (congrArg Main.ledBlinkCounter hm) h hk
        hq (.inr rfl)
    · simp only [BlinkInv, hs] at h
      by_cases hp : s.adequateCashInAccount = true ∧ s.adequateCashInAtm = true
      · obtain ⟨st, ca, l, n, b, q, -, hm, hq⟩ := clock_paying (g := g) hs hr hp hb
        exact blinkInv_dispensing (congrArg Main.systemState hm) hq h
          (congrArg Main.ledBlinkCounter hm)
      · obtain ⟨c, l, q, hm, hq⟩ := clock_refusing (g := g) hs hr hp
        exact blinkInv_dispensing (congrArg Main.systemState hm)
          (hq.imp (fun h => h.1) fun h => h.1) h (congrArg Main.ledBlinkCounter hm)
  · change (s.clock g i).toMain.BlinkInv g
    generalize (s.clock g i).toMain = m at he
    have hle := BlinkInv.le h
    cases he with
    | reset hr' => exact Nat.zero_le _
    | reconnect hr' hc => exact hle
    | branch m hr' hc hb =>
      change m.BlinkInv g
      cases hb with
      | ready b l hs =>
        simp only [BlinkInv]
        cases i.debouncedStart
        · exact Nat.zero_le _
        · exact hmax
      | loadingCash l n q hs hq => exact absurd ⟨hr', .inl hs⟩ hr
      | dispense l n k b q hs hq => exact absurd ⟨hr', .inr (.inr hs)⟩ hr
      | refuse l n k q hs hq => exact absurd ⟨hr', .inr (.inr hs)⟩ hr
      | dispensed l n k b j q hs hq => exact absurd ⟨hr', .inr (.inr hs)⟩ hr
      | userNotInCache l n q hs hq => exact absurd ⟨hr', .inr (.inl hs)⟩ hr
      | _ =>
        simp only [BlinkInv, *] at h ⊢
        try split_ifs
        all_goals first
          | exact h
          | trivial

def OverBlinks (g : Generics) (i : AtmEdge) (s : Atm) : Prop :=
  i.debouncedReset = false ∧ s.systemState = .dispensingCash ∧
    ¬ (s.adequateCashInAccount = true ∧ s.adequateCashInAtm = true) ∧ s.timeCounter = g.N ∧
    s.led4to7BlinkCounter = 6

structure Counted (g : Generics) (s : Atm) : Prop extends InRange g s.toMain where
  fresh : s.FreshInv
  wait : s.WaitInv
  blink : s.BlinkInv g
  sync : s.SyncInv

theorem counters_clock (h : s.Counted g) (ho : ¬ s.OverBlinks g i) :
    (s.clock g i).inputByteCount ≤ 8 ∧ (s.clock g i).notesToBeDispensed.Bytes ∧
      (s.clock g i).led4to7BlinkCounter ≤ 6 ∧ (s.clock g i).timeOutCounter ≤ 31 := by
  have hi := h.toInRange
  by_cases hd : i.debouncedReset = false ∧ s.systemState = .dispensingCash
  · obtain ⟨hr, hs⟩ := hd
    by_cases hp : s.adequateCashInAccount = true ∧ s.adequateCashInAtm = true
    · obtain ⟨st, ca, l, n, b, q, hn, hm, -⟩ :=
        clock_paying (g := g) hs hr hp hi.notesToBeDispensed
      rw [hm]
      exact ⟨hi.inputByteCount, hn, hi.led4to7BlinkCounter, hi.timeOutCounter⟩
    · obtain ⟨c, l, q, hm, -⟩ := clock_refusing (g := g) hs hr hp
      rw [hm]
      refine ⟨hi.inputByteCount, hi.notesToBeDispensed, ?_, hi.timeOutCounter⟩
      have hle := hi.led4to7BlinkCounter
      simp only [tick]
      split_ifs with hN
      · have hne : s.led4to7BlinkCounter ≠ 6 := fun h6 => ho ⟨hr, hs, hp, hN, h6⟩
        omega
      · exact hle
  · have he := clock_cases g i s
    generalize (s.clock g i).toMain = m at he
    have hzero : (⟨0, 0, 0, 0⟩ : NoteCounters).Bytes := by simp [NoteCounters.Bytes]
    cases he with
    | reset hr => exact ⟨Nat.zero_le _, hzero, Nat.zero_le _, Nat.zero_le _⟩
    | reconnect hr hc =>
      exact ⟨hi.inputByteCount, hi.notesToBeDispensed, hi.led4to7BlinkCounter, hi.timeOutCounter⟩
    | branch m hr hc hb =>
      cases hb with
      | ready b l hs => exact ⟨Nat.zero_le _, hzero, Nat.zero_le _, Nat.zero_le _⟩
      | key l hs hn ht hlt =>
        exact ⟨by simp only [tick]; omega, hi.notesToBeDispensed, hi.led4to7BlinkCounter,
          hi.timeOutCounter⟩
      | lastKey l hs =>
        exact ⟨le_rfl, hi.notesToBeDispensed, hi.led4to7BlinkCounter, hi.timeOutCounter⟩
      | communicating l a u r c t hs ht hcol =>
        have hlt := (h.wait hs).1
        refine ⟨hi.inputByteCount, hi.notesToBeDispensed, hi.led4to7BlinkCounter, ?_⟩
        change t ≤ 31
        split_ifs at ht <;> omega
      | dispense l n k b q hs => exact absurd ⟨hr, hs⟩ hd
      | refuse l n k q hs => exact absurd ⟨hr, hs⟩ hd
      | dispensed l n k b j q hs => exact absurd ⟨hr, hs⟩ hd
      | _ =>
        exact ⟨hi.inputByteCount, hi.notesToBeDispensed, hi.led4to7BlinkCounter,
          hi.timeOutCounter⟩

theorem timeCounter_clock (h : s.timeCounter ≤ g.N) : (s.clock g i).timeCounter ≤ g.N := by
  have he := clock_cases g i s
  generalize (s.clock g i).toMain = m at he
  cases he with
  | reset hr => exact tick_timeCounter_le (Nat.zero_le _)
  | reconnect hr hc => exact tick_timeCounter_le h
  | branch m hr hc hb => cases hb <;> exact tick_timeCounter_le h

theorem counted_clock (hmax : 0 < g.maxNoOfBlinks) (h : s.Counted g) (ho : ¬ s.OverBlinks g i) :
    (s.clock g i).Counted g := by
  obtain ⟨hk, hn, hl, ht⟩ := counters_clock h ho
  have hb : (s.clock g i).toMain.BlinkInv g := blinkInv_clock hmax h.notesToBeDispensed h.blink
  have hs : (s.clock g i).toMain.SyncInv := syncInv_clock h.sync
  exact {
    inputByteCount := hk
    notesToBeDispensed := hn
    led4to7BlinkCounter := hl
    ledBlinkCounter := BlinkInv.le hb
    timeCounter := timeCounter_clock h.timeCounter
    timeOutCounter := ht
    cacheUpdateCount := SyncInv.le hs
    fresh := freshInv_clock h.fresh
    wait := waitInv_clock h.fresh h.wait
    blink := hb
    sync := hs }

theorem not_inRange_of_overBlinks (h : s.OverBlinks g i) :
    ¬ InRange g (s.clock g i).toMain := by
  obtain ⟨hr, hs, hp, hN, h6⟩ := h
  obtain ⟨c, l, q, hm, -⟩ := clock_refusing (g := g) hs hr hp
  intro hi
  have hle := hi.led4to7BlinkCounter
  rw [hm] at hle
  simp only [tick, if_pos hN, h6] at hle
  omega

theorem counted_powerUp (g : Generics) : Atm.powerUp.Counted g where
  inputByteCount := Nat.zero_le _
  notesToBeDispensed := ⟨Nat.zero_le _, Nat.zero_le _, Nat.zero_le _, Nat.zero_le _⟩
  led4to7BlinkCounter := Nat.zero_le _
  ledBlinkCounter := Nat.zero_le _
  timeCounter := Nat.zero_le _
  timeOutCounter := Nat.zero_le _
  cacheUpdateCount := Nat.zero_le _
  fresh := trivial
  wait := fun h => SystemState.noConfusion h
  blink := Nat.zero_le _
  sync := ⟨fun _ => rfl, Nat.zero_le _⟩

theorem exists_overflow (hs : s.systemState = .dispensingCash)
    (ha : s.adequateCashInAccount = false) (ht : s.timeCounter ≤ g.N)
    (hk : s.ledBlinkCounter ≤ g.maxNoOfBlinks) (hle : s.ledBlinkCounter ≤ s.led4to7BlinkCounter)
    (hr : i.debouncedReset = false) :
    ∃ n, g.maxNoOfBlinks ≤ ((Atm.clock g i)^[n] s).led4to7BlinkCounter := by
  obtain ⟨n, -, hn⟩ := exists_iterate_of_measure (f := Atm.clock g i)
    (P := fun s => s.systemState = .dispensingCash ∧ s.adequateCashInAccount = false ∧
      s.timeCounter ≤ g.N ∧ s.ledBlinkCounter ≤ g.maxNoOfBlinks ∧
      s.ledBlinkCounter ≤ s.led4to7BlinkCounter)
    (Q := fun s => g.maxNoOfBlinks ≤ s.led4to7BlinkCounter)
    (fun s => (g.maxNoOfBlinks - s.ledBlinkCounter) * (g.N + 1) + (g.N - s.timeCounter))
    (fun s ⟨hs, ha, ht, hk, hle⟩ => by
      obtain ⟨c, l, q, hm, hq⟩ := clock_refusing (g := g) hs hr (by simp [ha])
      rw [hm]
      simp only [tick]
      rcases hq with ⟨-, hmax⟩ | ⟨rfl, hne⟩
      · left
        split_ifs <;> omega
      · right
        by_cases hN : s.timeCounter = g.N
        · simp only [hN, hne, ne_eq, not_false_eq_true, and_self, if_true]
          have hmul : (g.maxNoOfBlinks - (s.ledBlinkCounter + 1)) * (g.N + 1) + (g.N + 1) =
              (g.maxNoOfBlinks - s.ledBlinkCounter) * (g.N + 1) := by
            rw [← Nat.succ_mul]
            congr 1
            omega
          exact ⟨⟨trivial, ha, Nat.zero_le _, by omega, by omega⟩, by omega⟩
        · simp only [hN, and_false, if_false]
          exact ⟨⟨trivial, ha, by omega, hk, hle⟩, by omega⟩)
    ⟨hs, ha, ht, hk, hle⟩
  exact ⟨n, hn⟩

end Atm

namespace TopLevel

open Atm Main

variable {g : Generics}

/-- In a run all integer variables stay in their ranges exactly when no refusal counts the seventh
blink of the upper leds. -/
theorem in_range_iff (g : Generics) (hmax : 0 < g.maxNoOfBlinks) (ps : List Pins) :
    (∀ qs, qs <+: ps → InRange g (after g qs).atm.toMain) ↔
      Runs (clock g) (fun p t => ¬ t.atm.OverBlinks g (t.edge p)) powerUp ps :=
  forall_prefix_iff_runs (P := fun t : TopLevel => InRange g t.atm.toMain)
    (Q := fun t : TopLevel => t.atm.Counted g) (fun _ h => h.toInRange)
    (fun _ _ h ho => counted_clock hmax h ho)
    (fun _ _ _ ho => not_inRange_of_overBlinks (not_not.mp ho)) (counted_powerUp g) ps

theorem in_range_of_withdrawal : ∃ ps, (after {} ps).atm.stock = ⟨255, 255, 255, 254⟩ ∧
    ∀ qs, qs <+: ps → InRange {} (after {} qs).atm.toMain := by
  obtain ⟨_, t, _, h₁, h₂, -, -, -, -, hp⟩ := exists_withdrawn
  obtain ⟨ps, hps, hrun⟩ := h₁.trans h₂
  refine ⟨ps, ?_, (in_range_iff {} (by decide) ps).mpr (hps.mono fun _ _ hs ho => ?_)⟩
  · rw [show after {} ps = t from hrun]
    exact congrArg Durable.stock hp.durable
  · exact ho.2.2.1 (hs.meets.paid ho.2.1)

theorem out_of_range : ¬ ∀ ps, InRange {} (after {} ps).atm.toMain := by
  intro hall
  have hN : debounceTime ≤ ({} : Generics).N := by rw [debounceTime_eq]; decide
  obtain ⟨t₁, a, h₁, hs₁, ha, hp₁⟩ := exists_unconfigured {} 25
  obtain ⟨t₂, n, h₂, hs₂, hn, hp₂, hdis, hacc⟩ := exists_served (v := 1) hN hs₁ hp₁ ha
    (show (0 : BitVec 5) = bankBits 1 by decide) (show high 1 = high (0 : BitVec 64) by decide)
  obtain ⟨m, hm⟩ := exists_overflow (i := Buttons.edge {} (idlePins 25 {} 0)) (g := {}) hdis
    (hacc.trans (show decide (low 1 ≤ low (0 : BitVec 64)) = false by decide)) hp₂.timeCounter
    (by rw [hp₂.ledBlinkCounter]; decide) (by rw [hp₂.ledBlinkCounter]; exact Nat.zero_le _) rfl
  have hi := hs₂.iterate (g := {}) (p := idlePins 25 {} 0) m
  obtain ⟨ps, -, hps⟩ := ((leads_of_reaches h₁).trans h₂).trans
    (brings_iterate {} 25 {} 0 m t₂)
  have hle := (hall ps).led4to7BlinkCounter
  rw [show after {} ps = _ from hps, hi.2] at hle
  exact absurd (hm.trans hle) (by decide)

end TopLevel

end AtmController.Frontend
