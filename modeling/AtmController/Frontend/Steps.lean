import AtmController.Frontend.MainProcess

namespace AtmController.Frontend

open Slice

namespace Main

theorem exists_collect (first : Nat) (i : AtmEdge) (m : Main) :
    ∃ r c, m.collect first i =
      { m with responseFromBackend := r, checksumForBackendResponse := c } := by
  simp only [collect]
  split
  · exact ⟨_, _, rfl⟩
  · exact ⟨_, _, rfl⟩

theorem collect_of_not_valid (first : Nat) (i : AtmEdge) (m : Main) (h : i.h2fValid = false) :
    m.collect first i = m := by
  simp [collect, h]

theorem collect_of_lt (first : Nat) (i : AtmEdge) (m : Main) (h : i.chanAddr.toNat < first) :
    m.collect first i = m := by
  simp only [collect]
  rw [if_neg (by omega)]

theorem exists_finishBlinks (g : Generics) (m : Main) :
    ∃ l q, m.finishBlinks g = { m with ledOut := l, systemState := q } ∧
      (q = m.systemState ∨ q = .dummy) := by
  simp only [finishBlinks]
  split
  · exact ⟨_, _, rfl, .inr rfl⟩
  · exact ⟨_, _, rfl, .inl rfl⟩

theorem exists_blinkNote (g : Generics) (n : NoteCounters) (on : BitVec 4) (m : Main) :
    ∃ l n' b, m.blinkNote g n on =
      { m with ledOut := l, notesToBeDispensed := n', timeGap := b } := by
  simp only [blinkNote]
  split_ifs
  · exact ⟨_, _, _, rfl⟩
  · exact ⟨_, _, _, rfl⟩
  · exact ⟨_, _, _, rfl⟩
  · exact ⟨_, _, _, rfl⟩

theorem exists_blinkNotes (g : Generics) (m : Main) :
    ∃ l n b q, m.blinkNotes g =
      { m with ledOut := l, notesToBeDispensed := n, timeGap := b, systemState := q } ∧
      (q = m.systemState ∨ q = .dummy) := by
  have hb (n : NoteCounters) (on : BitVec 4) : ∃ l n' b q, m.blinkNote g n on =
      { m with ledOut := l, notesToBeDispensed := n', timeGap := b, systemState := q } ∧
      (q = m.systemState ∨ q = .dummy) := by
    obtain ⟨l, n', b, h⟩ := exists_blinkNote g n on m
    exact ⟨l, n', b, _, h, .inl rfl⟩
  simp only [blinkNotes]
  split_ifs
  · exact hb _ _
  · exact hb _ _
  · exact hb _ _
  · exact hb _ _
  · obtain ⟨l, q, h, hq⟩ := exists_finishBlinks g m
    exact ⟨l, _, _, q, h, hq⟩

theorem exists_countBlinks (g : Generics) (m : Main) :
    ∃ l k, m.countBlinks g = { m with ledOut := l, ledBlinkCounter := k } := by
  simp only [countBlinks]
  split
  · split
    · exact ⟨_, _, rfl⟩
    · exact ⟨_, _, rfl⟩
  · exact ⟨_, _, rfl⟩

end Main

namespace Atm

open Main

def Invalid (i : AtmEdge) : Prop := i.chanAddr = 9 ∧ i.h2fValid = true ∧ i.h2fData = 4

instance (i : AtmEdge) : Decidable (Invalid i) := by unfold Invalid; infer_instance

theorem exists_status (i : AtmEdge) (m : Main) :
    ∃ a u, status i m = { m with
      adequateCashInAccount := a
      userIsAdmin := u
      systemState := if Invalid i then .ready else m.systemState } := by
  unfold status
  by_cases h₀ : i.chanAddr = 9 ∧ i.h2fValid
  · rw [if_pos h₀]
    by_cases h₄ : i.h2fData = 4
    · rw [if_pos (show Invalid i from ⟨h₀.1, h₀.2, h₄⟩)]
      exact ⟨_, _, by simp only [h₄]; rfl⟩
    · rw [if_neg (show ¬ Invalid i from fun h => h₄ h.2.2)]
      split_ifs
      · exact ⟨_, _, rfl⟩
      · exact ⟨_, _, rfl⟩
      · exact ⟨_, _, rfl⟩
      · exact ⟨_, _, rfl⟩
  · rw [if_neg h₀, if_neg (show ¬ Invalid i from fun h => h₀ ⟨h.1, h.2.1⟩)]
    exact ⟨_, _, rfl⟩

inductive Branch (g : Generics) (i : AtmEdge) (s : Atm) : Main → Prop
  | ready (b l) : s.systemState = .ready → Branch g i s
      { s.initVariables with
        cacheUpdateCount := 0
        bankId := b
        ledOut := l
        systemState := if i.debouncedStart then .takingInput else .ready }
  | key (l) : s.systemState = .takingInput → i.debouncedNextData = true →
      s.inputTakenAlready = false → s.inputByteCount < 7 → Branch g i s
      { s.toMain with
        inputEightBytes := assign s.inputEightBytes (56 - 8 * s.inputByteCount) i.swIn
        inputTakenAlready := true
        inputByteCount := s.inputByteCount + 1
        ledOut := l }
  | lastKey (l) : s.systemState = .takingInput → i.debouncedNextData = true →
      s.inputTakenAlready = false → s.inputByteCount = 7 → Branch g i s
      { s.toMain with
        inputEightBytes := assign s.inputEightBytes 0 i.swIn
        inputTakenAlready := true
        inputByteCount := 8
        enInput := assign s.inputEightBytes 0 i.swIn
        amountToBeAllocated := low (assign s.inputEightBytes 0 i.swIn)
        ledOut := l
        systemState := .noteAllocation }
  | noKey (b l) : s.systemState = .takingInput →
      (i.debouncedNextData = true → s.inputByteCount < 8 → s.inputTakenAlready = true ∧ b = true) →
      (i.debouncedNextData = false → b = false) → Branch g i s
      { s.toMain with inputTakenAlready := b, ledOut := l }
  | noteAllocation (l) : s.systemState = .noteAllocation → Branch g i s
      { s.toMain with startNoteAllocation := true, ledOut := l, systemState := .encrypt }
  | encrypt (l) : s.systemState = .encrypt → Branch g i s
      { s.toMain with
        startEncrypt := true
        ledOut := l
        systemState := if s.encryptionOver then
            if s.bankId = bankBits s.enInput then .communicating else .ethernet
          else .encrypt }
  | communicating (l a u r c t) : s.systemState = .communicating →
      (t = if s.timeCounter = g.N then s.timeOutCounter + 1 else s.timeOutCounter) →
      (status i s.toMain).collect 10 i = { s.toMain with
        adequateCashInAccount := a
        userIsAdmin := u
        responseFromBackend := r
        checksumForBackendResponse := c
        systemState := if Invalid i then .ready else .communicating } → Branch g i s
      { s.toMain with
        adequateCashInAccount := a
        userIsAdmin := u
        responseFromBackend := r
        checksumForBackendResponse := c
        deInput := if c = 0b11111111 then r else s.deInput
        ledOut := l
        timeOutCounter := t
        systemState := if t = 31 then .communicationLost
          else if c = 0b11111111 then .decrypt
          else if Invalid i then .ready
          else .communicating }
  | decrypt (l) : s.systemState = .decrypt → Branch g i s
      { s.toMain with
        startDecrypt := true
        ledOut := l
        systemState := if s.decryptionOver then
            if s.userIsAdmin then .loadingCash else .dispensingCash
          else .decrypt }
  | loadingCash (l n q) : s.systemState = .loadingCash → q = .loadingCash ∨ q = .dummy →
      Branch g i s
      { s.toMain with
        stock := noteBytes s.deOutput
        ledBlinkCounter := n
        ledOut := l
        systemState := q }
  | dispense (l n k b q) : s.systemState = .dispensingCash → q = .dispensingCash ∨ q = .dummy →
      s.dispensingDoneAlready = false → s.adequateCashInAccount = true →
      s.adequateCashInAtm = true → Branch g i s
      { s.toMain with
        stock := s.removeNotes
        cache := s.dispenseCache
        dispensingDoneAlready := true
        notesToBeDispensed := n
        ledBlinkCounter := k
        timeGap := b
        ledOut := l
        systemState := q }
  | refuse (l n k q) : s.systemState = .dispensingCash → q = .dispensingCash ∨ q = .dummy →
      s.dispensingDoneAlready = false →
      ¬ (s.adequateCashInAccount = true ∧ s.adequateCashInAtm = true) → Branch g i s
      { s.toMain with
        cache := s.refuseCache
        dispensingDoneAlready := true
        led4to7BlinkCounter := n
        ledBlinkCounter := k
        ledOut := l
        systemState := q }
  | dispensed (l n k b j q) : s.systemState = .dispensingCash → q = .dispensingCash ∨ q = .dummy →
      s.dispensingDoneAlready = true → Branch g i s
      { s.toMain with
        notesToBeDispensed := n
        led4to7BlinkCounter := j
        ledBlinkCounter := k
        timeGap := b
        ledOut := l
        systemState := q }
  | dummy : s.systemState = .dummy → Branch g i s
      { s.toMain with systemState := if i.debouncedDone then .ready else .dummy }
  | ethernet (l) : s.systemState = .ethernet → Branch g i s
      { s.toMain with ledOut := l, systemState := if i.debouncedDone then .ready else .ethernet }
  | setup (l r c) : s.systemState = .setup →
      s.collect 18 i = { s.toMain with
        responseFromBackend := r, checksumForBackendResponse := c } → Branch g i s
      { s.toMain with
        responseFromBackend := r
        checksumForBackendResponse := c
        deInput := if c = 0b11111111 then r else s.deInput
        ledOut := l
        systemState := if c = 0b11111111 then .decryptSetup else .setup }
  | decryptSetup (l) : s.systemState = .decryptSetup → Branch g i s
      { s.toMain with
        startDecrypt := true
        limits := if s.decryptionOver then ⟨high s.deOutput, noteBytes s.deOutput⟩ else s.limits
        ledOut := l
        systemState := if s.decryptionOver then .ready else .decryptSetup }
  | serveFromCache (entry) : s.systemState = .communicationLost →
      high s.enInput = high entry → Branch g i s
      { s.toMain with
        adequateCashInAccount := low s.enInput ≤ low entry
        cacheMode := true
        systemState := .dispensingCash }
  | notInCache : s.systemState = .communicationLost → Branch g i s
      { s.toMain with systemState := .userNotInCache }
  | userNotInCache (l n q) : s.systemState = .userNotInCache →
      q = .userNotInCache ∨ q = .ready → Branch g i s
      { s.toMain with ledBlinkCounter := n, ledOut := l, systemState := q }
  | communicationRegained (l) : s.systemState = .communicationRegained → Branch g i s
      { s.toMain with
        startDecrypt := if s.startEncrypt then s.startDecrypt else false
        enInput := if s.startEncrypt then s.enInput else s.cache.cache1
        checksumForBackendResponse :=
          if s.startEncrypt then s.checksumForBackendResponse else 0
        startEncrypt := ¬ (s.cacheUpdateCount ≠ 4 ∧ s.encryptionOver = true)
        cacheMode := if s.cacheUpdateCount = 4 then false else s.cacheMode
        ledOut := l
        systemState := if s.cacheUpdateCount = 4 then .ready
          else if s.encryptionOver then .communicateCache
          else .communicationRegained }
  | communicateCache (l r c) : s.systemState = .communicateCache →
      s.collect 10 i = { s.toMain with
        responseFromBackend := r, checksumForBackendResponse := c } → Branch g i s
      { s.toMain with
        responseFromBackend := r
        checksumForBackendResponse := c
        deInput := if c = 0b11111111 then r else s.deInput
        ledOut := l
        systemState := if c = 0b11111111 then .updateCache else .communicateCache }
  | updateCache (l) : s.systemState = .updateCache → Branch g i s
      { s.toMain with
        startDecrypt := true
        cache := if s.decryptionOver then
            ⟨s.cache.cache4, join (high s.cache.cache1) (low s.deOutput), s.cache.cache2,
              s.cache.cache3⟩
          else s.cache
        cacheUpdateCount := if s.decryptionOver then s.cacheUpdateCount + 1
          else s.cacheUpdateCount
        ledOut := l
        systemState := if s.decryptionOver then .communicationRegained else .updateCache }

variable {g : Generics} {i : AtmEdge} {s : Atm}

theorem branch_ready (h : s.systemState = .ready) : Branch g i s (s.ready i) := by
  have hb := fun b l => @Branch.ready g i s b l h
  rw [← h] at hb
  cases hs : i.debouncedStart <;> cases hl : i.debouncedLoadBankId
  all_goals
    simp only [hs, if_true, Bool.false_eq_true, if_false] at hb
    simp only [Atm.ready, hs, hl, if_true, Bool.false_eq_true, if_false]
    exact hb _ _

theorem branch_takingInput (h : s.systemState = .takingInput) :
    Branch g i s (s.takingInput g i) := by
  cases hn : i.debouncedNextData with
  | false =>
    simp only [takingInput, hn, blink, Bool.false_eq_true, false_and, if_false, if_true]
    exact .noKey _ _ h (by simp [hn]) (by simp)
  | true =>
    by_cases hc : s.inputByteCount < 8
    · cases ht : s.inputTakenAlready with
      | false =>
        rcases Nat.lt_or_eq_of_le (Nat.le_of_lt_succ hc) with hc' | hc'
        · simp only [takingInput, hn, ht, blink, hc, show s.inputByteCount + 1 ≠ 8 by omega,
            if_true, if_false, and_self]
          exact .key _ h hn ht hc'
        · simp only [takingInput, hn, ht, blink, hc', Nat.reduceLT, Nat.reduceAdd, if_true,
            and_self]
          exact .lastKey _ h hn ht hc'
      | true =>
        simp only [takingInput, hn, ht, blink, hc, Bool.true_eq_false, if_true, if_false, and_self]
        exact .noKey _ _ h (fun _ _ => ⟨ht, rfl⟩) (by simp [hn])
    · simp only [takingInput, hn, blink, hc, Bool.true_eq_false, and_false, if_false]
      exact .noKey _ _ h (fun _ hc' => absurd hc' hc) (by simp [hn])

theorem branch_noteAllocation (h : s.systemState = .noteAllocation) :
    Branch g i s (s.noteAllocation g) := by
  simp only [noteAllocation, blink, Bool.le_true, if_true]
  exact .noteAllocation _ h

theorem branch_encrypt (h : s.systemState = .encrypt) : Branch g i s (s.encrypt g) := by
  have hb := fun l => @Branch.encrypt g i s l h
  cases ho : s.encryptionOver
  all_goals
    simp only [ho, if_true, Bool.false_eq_true, if_false] at hb
    simp only [encrypt, ho, blink, if_true, Bool.false_eq_true, if_false]
  · rw [← h] at hb; exact hb _
  · exact hb _

theorem branch_communicating (h : s.systemState = .communicating) :
    Branch g i s (s.communicating g i) := by
  obtain ⟨a, u, hs⟩ := exists_status i s.toMain
  obtain ⟨r, c, hc⟩ := exists_collect 10 i (status i s.toMain)
  rw [hs, h] at hc
  have hb := fun l => @Branch.communicating g i s l a u r c _ h rfl (by rw [hs, h]; exact hc)
  simp only [communicating, hs, h, hc, blink]
  by_cases hN : s.timeCounter = g.N <;> by_cases hF : c = 0b11111111 <;>
    simp only [hN, hF, if_true, if_false] at hb ⊢ <;> split_ifs at hb ⊢ <;> exact hb _

theorem branch_decrypt (h : s.systemState = .decrypt) : Branch g i s (s.decrypt g) := by
  have hb := fun l => @Branch.decrypt g i s l h
  cases ho : s.decryptionOver
  all_goals
    simp only [ho, if_true, Bool.false_eq_true, if_false] at hb
    simp only [decrypt, ho, blink, if_true, Bool.false_eq_true, if_false]
  · rw [← h] at hb; exact hb _
  · exact hb _

theorem branch_loadingCash (h : s.systemState = .loadingCash) :
    Branch g i s (s.loadingCash g) := by
  have hb := fun l n q hq => @Branch.loadingCash g i s l n q h hq
  simp only [loadingCash, blink]
  split_ifs
  · exact hb _ _ _ (.inr rfl)
  · exact hb _ _ _ (.inl h)
  · exact hb _ _ _ (.inr rfl)
  · exact hb _ _ _ (.inl h)
  · exact hb _ _ _ (.inr rfl)
  · exact hb _ _ _ (.inl h)

theorem exists_refuse (g : Generics) (blinks : Nat) (s : Atm) : ∃ l n q,
    s.refuse g blinks = { s.toMain with
      dispensingDoneAlready := true
      cache := if s.dispensingDoneAlready then s.cache else s.refuseCache
      led4to7BlinkCounter := n
      ledOut := l
      systemState := q } ∧ (q = s.systemState ∨ q = .dummy) := by
  cases hd : s.dispensingDoneAlready
  all_goals
    simp only [refuse, hd, Bool.false_eq_true, Bool.true_eq_false, if_true, if_false, finishBlinks]
    split_ifs
  all_goals first
    | exact ⟨_, _, _, by rw [← hd], .inl rfl⟩
    | exact ⟨_, _, _, by rw [← hd], .inr rfl⟩
    | exact ⟨_, _, _, rfl, .inl rfl⟩
    | exact ⟨_, _, _, rfl, .inr rfl⟩

theorem exists_dispense (g : Generics) (s : Atm) : ∃ l n b q,
    s.dispense g = { s.toMain with
      stock := if s.dispensingDoneAlready then s.stock else s.removeNotes
      cache := if s.dispensingDoneAlready then s.cache else s.dispenseCache
      dispensingDoneAlready := true
      notesToBeDispensed := n
      timeGap := b
      ledOut := l
      systemState := q } ∧ (q = s.systemState ∨ q = .dummy) := by
  obtain ⟨l, n, b, q, h, hq⟩ := exists_blinkNotes g
    (if s.dispensingDoneAlready = false then
      { s.toMain with
        stock := s.removeNotes
        notesToBeDispensed := ⟨s.allocated.n2000.toNat, s.allocated.n1000.toNat,
          s.allocated.n500.toNat, s.allocated.n100.toNat⟩
        dispensingDoneAlready := true
        cache := s.dispenseCache }
      else s.toMain)
  refine ⟨l, n, b, q, ?_, ?_⟩
  · rw [dispense, h]
    cases hd : s.dispensingDoneAlready
    · rfl
    · simp only [Bool.true_eq_false, if_true, if_false]
      rw [← hd]
  · cases hd : s.dispensingDoneAlready <;> simpa [hd] using hq

theorem branch_dispensingCash (h : s.systemState = .dispensingCash) :
    Branch g i s (s.dispensingCash g) := by
  by_cases ha : s.adequateCashInAccount = true ∧ s.adequateCashInAtm = true
  · obtain ⟨l, n, b, q, hm, hq⟩ := exists_dispense g s
    obtain ⟨l', k, hc⟩ := exists_countBlinks g (s.dispense g)
    rw [dispensingCash, if_pos ha, hc, hm]
    rw [h] at hq
    cases hd : s.dispensingDoneAlready
    · exact .dispense _ _ _ _ _ h hq hd ha.1 ha.2
    · simp only [if_true]
      rw [← hd]
      exact .dispensed _ _ _ _ _ _ h hq hd
  · have hr : ∃ blinks, s.dispensingCash g = (s.refuse g blinks).countBlinks g := by
      rw [dispensingCash, if_neg ha]
      split
      · exact ⟨_, rfl⟩
      · exact ⟨_, rfl⟩
    obtain ⟨blinks, hr⟩ := hr
    obtain ⟨l, n, q, hm, hq⟩ := exists_refuse g blinks s
    obtain ⟨l', k, hc⟩ := exists_countBlinks g (s.refuse g blinks)
    rw [hr, hc, hm]
    rw [h] at hq
    cases hd : s.dispensingDoneAlready
    · exact .refuse _ _ _ _ h hq hd ha
    · simp only [if_true]
      rw [← hd]
      exact .dispensed _ _ _ _ _ _ h hq hd

theorem branch_dummy (h : s.systemState = .dummy) : Branch g i s (s.dummy i) := by
  have hb := @Branch.dummy g i s h
  cases hd : i.debouncedDone
  all_goals
    simp only [hd, if_true, Bool.false_eq_true, if_false] at hb
    simp only [dummy, hd, if_true, Bool.false_eq_true, if_false]
  · rw [← h] at hb; exact hb
  · exact hb

theorem branch_ethernet (h : s.systemState = .ethernet) : Branch g i s (s.ethernet g i) := by
  have hb := fun l => @Branch.ethernet g i s l h
  cases hd : i.debouncedDone
  all_goals
    simp only [hd, if_true, Bool.false_eq_true, if_false] at hb
    simp only [ethernet, blink, hd, if_true, Bool.false_eq_true, if_false]
  · rw [← h] at hb; exact hb _
  · exact hb _

theorem branch_setup (h : s.systemState = .setup) : Branch g i s (s.setup g i) := by
  obtain ⟨r, c, hc⟩ := exists_collect 18 i s.toMain
  have hb := fun l => @Branch.setup g i s l r c h hc
  simp only [setup, hc, blink]
  by_cases hF : c = 0b11111111 <;> simp only [hF, if_true, if_false] at hb ⊢
  · exact hb _
  · rw [← h] at hb; exact hb _

theorem branch_decryptSetup (h : s.systemState = .decryptSetup) :
    Branch g i s (s.decryptSetup g) := by
  have hb := fun l => @Branch.decryptSetup g i s l h
  cases ho : s.decryptionOver
  all_goals
    simp only [ho, if_true, Bool.false_eq_true, if_false] at hb
    simp only [decryptSetup, ho, blink, if_true, Bool.false_eq_true, if_false]
  · rw [← h] at hb; exact hb _
  · exact hb _

theorem branch_communicationLost (h : s.systemState = .communicationLost) :
    Branch g i s s.communicationLost := by
  simp only [communicationLost, serveFromCache]
  split_ifs with h₁ h₂ h₃ h₄
  · exact .serveFromCache _ h h₁
  · exact .serveFromCache _ h h₂
  · exact .serveFromCache _ h h₃
  · exact .serveFromCache _ h h₄
  · exact .notInCache h

theorem branch_userNotInCache (h : s.systemState = .userNotInCache) :
    Branch g i s (s.userNotInCache g) := by
  have hb := fun l n q hq => @Branch.userNotInCache g i s l n q h hq
  simp only [userNotInCache, blink]
  split_ifs
  · exact hb _ _ _ (.inr rfl)
  · exact hb _ _ _ (.inl h)
  · exact hb _ _ _ (.inr rfl)
  · exact hb _ _ _ (.inl h)
  · exact hb _ _ _ (.inr rfl)
  · exact hb _ _ _ (.inl h)

theorem branch_communicationRegained (h : s.systemState = .communicationRegained) :
    Branch g i s (s.communicationRegained g) := by
  have hb := fun l => @Branch.communicationRegained g i s l h
  simp only [communicationRegained, blink]
  cases he : s.startEncrypt <;> cases ho : s.encryptionOver <;>
    by_cases hk : s.cacheUpdateCount = 4 <;>
    simp only [he, ho, hk, if_true, if_false, Bool.false_eq_true, Bool.true_eq_false, ne_eq,
      not_true_eq_false, not_false_eq_true, and_true, and_false, decide_true, decide_false] at hb ⊢
  all_goals first
    | exact hb _
    | (rw [← h] at hb; exact hb _)

theorem branch_communicateCache (h : s.systemState = .communicateCache) :
    Branch g i s (s.communicateCache g i) := by
  obtain ⟨r, c, hc⟩ := exists_collect 10 i s.toMain
  have hb := fun l => @Branch.communicateCache g i s l r c h hc
  simp only [communicateCache, hc, blink]
  by_cases hF : c = 0b11111111 <;> simp only [hF, if_true, if_false] at hb ⊢
  · exact hb _
  · rw [← h] at hb; exact hb _

theorem branch_updateCache (h : s.systemState = .updateCache) :
    Branch g i s (s.updateCache g) := by
  have hb := fun l => @Branch.updateCache g i s l h
  cases ho : s.decryptionOver
  all_goals
    simp only [ho, if_true, Bool.false_eq_true, if_false] at hb
    simp only [updateCache, ho, blink, if_true, Bool.false_eq_true, if_false]
  · rw [← h] at hb; exact hb _
  · exact hb _

theorem branch_cases (g : Generics) (i : AtmEdge) (s : Atm) : Branch g i s (s.branch g i) := by
  simp only [branch]
  split
  · next h => exact branch_ready h
  · next h => exact branch_takingInput h
  · next h => exact branch_noteAllocation h
  · next h => exact branch_encrypt h
  · next h => exact branch_communicating h
  · next h => exact branch_decrypt h
  · next h => exact branch_loadingCash h
  · next h => exact branch_dispensingCash h
  · next h => exact branch_dummy h
  · next h => exact branch_ethernet h
  · next h => exact branch_setup h
  · next h => exact branch_decryptSetup h
  · next h => exact branch_communicationLost h
  · next h => exact branch_userNotInCache h
  · next h => exact branch_communicationRegained h
  · next h => exact branch_communicateCache h
  · next h => exact branch_updateCache h

inductive Edge (g : Generics) (i : AtmEdge) (s : Atm) : Main → Prop
  | reset : i.debouncedReset = true → Edge g i s (tick g i s.reset)
  | reconnect : i.debouncedReset = false → s.Reconnects i → Edge g i s (tick g i s.reconnect)
  | branch (m) : i.debouncedReset = false → ¬ s.Reconnects i → Branch g i s m →
      Edge g i s (tick g i m)

theorem clock_cases (g : Generics) (i : AtmEdge) (s : Atm) :
    Edge g i s (s.clock g i).toMain := by
  simp only [clock, mainProcess]
  split_ifs with hr hc
  · exact .reset hr
  · exact .reconnect (by simpa using hr) hc
  · exact .branch _ (by simpa using hr) hc (branch_cases g i s)

end Atm

/-! The graph of the states. -/

namespace SystemState

def successors : SystemState → List SystemState
  | ready => [ready, takingInput, communicationRegained]
  | takingInput => [takingInput, noteAllocation, ready]
  | noteAllocation => [encrypt, ready]
  | encrypt => [encrypt, communicating, ethernet, ready]
  | communicating => [communicating, communicationLost, decrypt, ready]
  | decrypt => [decrypt, loadingCash, dispensingCash, ready]
  | loadingCash => [loadingCash, dummy, ready]
  | dispensingCash => [dispensingCash, dummy, ready]
  | dummy => [dummy, ready]
  | ethernet => [ethernet, ready]
  | setup => [setup, decryptSetup, ready]
  | decryptSetup => [decryptSetup, ready]
  | communicationLost => [dispensingCash, userNotInCache, ready]
  | userNotInCache => [userNotInCache, ready]
  | communicationRegained => [communicationRegained, communicateCache, ready]
  | communicateCache => [communicateCache, updateCache, ready]
  | updateCache => [updateCache, communicationRegained, ready]

theorem ready_mem_successors (q : SystemState) : ready ∈ q.successors := by
  cases q <;> decide

theorem communicating_mem_successors {q : SystemState} (h : communicating ∈ q.successors) :
    q = encrypt ∨ q = communicating := by
  revert h
  cases q <;> decide

theorem communicationLost_mem_successors {q : SystemState} (h : communicationLost ∈ q.successors) :
    q = communicating := by
  revert h
  cases q <;> decide

end SystemState

namespace Atm

open SystemState

theorem mem_successors (g : Generics) (i : AtmEdge) (s : Atm) :
    (s.clock g i).systemState ∈ s.systemState.successors := by
  have he := clock_cases g i s
  generalize (s.clock g i).toMain = m at he
  cases he with
  | reset hr => exact s.systemState.ready_mem_successors
  | reconnect hr hc =>
    rw [hc.2.2.2]
    change SystemState.communicationRegained ∈ _
    decide
  | branch m hr hc hb =>
    change m.systemState ∈ _
    cases hb with
    | loadingCash l n q hs hq => rw [hs]; rcases hq with rfl | rfl <;> simp [successors]
    | dispense l n k b q hs hq => rw [hs]; rcases hq with rfl | rfl <;> simp [successors]
    | refuse l n k q hs hq => rw [hs]; rcases hq with rfl | rfl <;> simp [successors]
    | dispensed l n k b j q hs hq => rw [hs]; rcases hq with rfl | rfl <;> simp [successors]
    | userNotInCache l n q hs hq => rw [hs]; rcases hq with rfl | rfl <;> simp [successors]
    | _ =>
      simp only [*]
      try split_ifs
      all_goals simp [successors]

theorem clock_of_not_valid (g : Generics) {i : AtmEdge} (hv : i.h2fValid = false) (b : BitVec 8)
    (s : Atm) : s.clock g { i with h2fData := b } = s.clock g i := by
  have hcollect (first : Nat) (m : Main) :
      m.collect first { i with h2fData := b } = m.collect first i := by
    simp [Main.collect, hv]
  have hstatus (m : Main) : status { i with h2fData := b } m = status i m := by
    simp [status, hv]
  have hbranch : s.branch g { i with h2fData := b } = s.branch g i := by
    unfold branch
    cases s.systemState with
    | communicating => simp only [communicating, hcollect, hstatus]
    | setup => simp only [setup, hcollect]
    | communicateCache => simp only [communicateCache, hcollect]
    | _ => rfl
  have hmain : s.mainProcess g { i with h2fData := b } = s.mainProcess g i := by
    simp only [mainProcess, hbranch]
    rfl
  simp only [clock, hmain]

end Atm

end AtmController.Frontend
