import AtmController.Frontend.Ranges

namespace AtmController.Frontend

open Backend Clocked Slice

namespace Cipher

variable {sum₀ : BitVec 32} {cycle : TeaState → TeaState} {i : CipherEdge} {c : Cipher}

/-- The cipher is done in its last round only. -/
structure Rounds (c : Cipher) : Prop where
  le : c.round ≤ 33
  done : c.done = true ↔ c.round = 33

theorem rounds_of_idle (hc : c.Idle) : c.Rounds := by
  refine ⟨by rw [hc.1]; decide, ?_⟩
  rw [hc.1, hc.2]
  decide

theorem Rounds.clock (h : c.Rounds) : (clock sum₀ cycle i c).Rounds := by
  cases hr : i.reset with
  | true => exact rounds_of_idle (clock_reset hr)
  | false =>
    cases hs : i.start with
    | false => exact rounds_of_idle (clock_stop hr hs)
    | true =>
      have hle := h.le
      rcases Nat.lt_trichotomy c.round 32 with hlt | heq | hgt
      · have hne : c.done = false := by
          rw [Bool.eq_false_iff]
          exact fun hd => by have := h.done.mp hd; omega
        simp only [Cipher.clock, hr, hs, hlt, if_true, Bool.false_eq_true, if_false]
        refine ⟨by simp only; omega, ?_⟩
        split_ifs
        · exact iff_of_false (by simp) (by simp only; omega)
        · exact iff_of_false (by simp [hne]) (by simp only; omega)
      · simp only [Cipher.clock, hr, hs, heq, if_true, Bool.false_eq_true, if_false]
        exact ⟨le_rfl, iff_of_true rfl rfl⟩
      · have h33 : c.round = 33 := by omega
        simp only [Cipher.clock, hr, hs, h33, Bool.false_eq_true, if_false, if_true]
        exact ⟨by simp [h33], by simpa [h33] using h.done.mpr h33⟩

def edgesLeft (start : Bool) (c : Cipher) : Nat := if start then 33 - c.round else 34

theorem edgesLeft_le (start : Bool) (c : Cipher) : c.edgesLeft start ≤ 34 := by
  unfold edgesLeft
  split <;> omega

theorem Rounds.edgesLeft (h : c.Rounds) (hr : i.reset = false)
    (hd : i.start = true → c.done = false) :
    (Cipher.clock sum₀ cycle i c).edgesLeft true < c.edgesLeft i.start := by
  cases hs : i.start with
  | false =>
    have hidle : (Cipher.clock sum₀ cycle i c).Idle := clock_stop hr hs
    simp [Cipher.edgesLeft, hidle.1]
  | true =>
    have hne : c.round ≠ 33 := fun h33 => by
      have := h.done.mpr h33
      rw [hd hs] at this
      cases this
    have hle := h.le
    have hround : (Cipher.clock sum₀ cycle i c).round = c.round + 1 := by
      rcases Nat.lt_or_eq_of_le (show c.round ≤ 32 by omega) with hlt | heq
      · simp [Cipher.clock, hr, hs, hlt]
      · simp [Cipher.clock, hr, hs, heq]
    simp only [Cipher.edgesLeft, hround, if_true]
    omega

end Cipher

def SystemState.Waits : SystemState → Prop
  | .ready | .takingInput | .ethernet | .dummy | .setup | .communicateCache => True
  | _ => False

instance (q : SystemState) : Decidable q.Waits := by
  cases q <;> unfold SystemState.Waits <;> infer_instance

/-- For how many more edges a state that waits for nobody can last once it is entered. -/
def SystemState.longest (g : Generics) : SystemState → Nat
  | .encrypt | .decrypt | .decryptSetup | .communicationRegained | .updateCache => 34
  | .communicating => 31 * (g.N + 1) - 1
  | .loadingCash | .userNotInCache => g.maxNoOfBlinks * (g.N + 1) - 1
  -- two periods for each of 1020 notes
  | .dispensingCash => (2042 + g.maxNoOfBlinks) * (g.N + 1)
  | _ => 0

def SystemState.Serves : SystemState → Prop
  | .noteAllocation | .encrypt | .communicating | .decrypt | .loadingCash | .dispensingCash => True
  | _ => False

instance (q : SystemState) : Decidable q.Serves := by
  cases q <;> unfold SystemState.Serves <;> infer_instance

def SystemState.ahead (g : Generics) : SystemState → Nat
  | .decrypt => (2042 + g.maxNoOfBlinks) * (g.N + 1) + 1
  | .communicating => (2042 + g.maxNoOfBlinks) * (g.N + 1) + 36
  | .encrypt => (2073 + g.maxNoOfBlinks) * (g.N + 1) + 36
  | .noteAllocation => (2073 + g.maxNoOfBlinks) * (g.N + 1) + 71
  | _ => 0

def Generics.transactionTime (g : Generics) : Nat := (2073 + g.maxNoOfBlinks) * (g.N + 1) + 71

namespace SystemState

variable {g : Generics} {q q' : SystemState}

theorem Serves.not_waits (h : q.Serves) : ¬ q.Waits := by
  revert h
  cases q <;> decide

theorem periods (g : Generics) : (2073 + g.maxNoOfBlinks) * (g.N + 1) =
    31 * (g.N + 1) + (2042 + g.maxNoOfBlinks) * (g.N + 1) ∧
      g.maxNoOfBlinks * (g.N + 1) ≤ (2042 + g.maxNoOfBlinks) * (g.N + 1) :=
  ⟨by rw [← Nat.add_mul, ← Nat.add_assoc], Nat.mul_le_mul_right _ (Nat.le_add_left ..)⟩

theorem ahead_lt (hq : q.Serves) (hq' : q'.Serves) (hmem : q' ∈ q.successors) (hne : q' ≠ q) :
    q'.longest g + q'.ahead g < q.ahead g := by
  obtain ⟨hsum, hle⟩ := periods g
  cases q <;> simp only [Serves] at hq <;>
    simp only [successors, List.mem_cons, List.not_mem_nil, or_false] at hmem
  case noteAllocation =>
    rcases hmem with rfl | rfl <;> simp only [Serves, longest, ahead] at hq' ⊢
    omega
  case encrypt =>
    rcases hmem with rfl | rfl | rfl | rfl <;> simp only [Serves, longest, ahead] at hq' hne ⊢
    · exact absurd rfl hne
    · omega
  case communicating =>
    rcases hmem with rfl | rfl | rfl | rfl <;> simp only [Serves, longest, ahead] at hq' hne ⊢
    · exact absurd rfl hne
    · omega
  case decrypt =>
    rcases hmem with rfl | rfl | rfl | rfl <;> simp only [Serves, longest, ahead] at hq' hne ⊢
    · exact absurd rfl hne
    · omega
    · omega
  case loadingCash | dispensingCash =>
    rcases hmem with rfl | rfl | rfl <;> simp only [Serves] at hq' hne
    exact absurd rfl hne

theorem longest_add_ahead_le (hq : q.Serves) : q.longest g + q.ahead g ≤ g.transactionTime := by
  obtain ⟨hsum, hle⟩ := periods g
  unfold Generics.transactionTime
  cases q <;> simp only [Serves] at hq <;> simp only [longest, ahead] <;> omega

end SystemState

namespace Main

variable {g : Generics} {m : Main}

def edgesToBlink (g : Generics) (m : Main) : Nat :=
  (g.maxNoOfBlinks - 1 - m.ledBlinkCounter) * (g.N + 1) + (g.N - m.timeCounter)

end Main

namespace Atm

open Main Cipher

/-- For how many more edges the state can last if it waits for nobody, and how much it still waits
for otherwise. -/
def stayLeft (g : Generics) (s : Atm) : Nat :=
  match s.systemState with
  | .encrypt | .communicationRegained => s.encrypter.edgesLeft s.startEncrypt
  | .decrypt | .decryptSetup | .updateCache => s.decrypter.edgesLeft s.startDecrypt
  | .communicating => 31 * (g.N + 1) - 1 - s.waited g
  | .loadingCash | .userNotInCache => s.edgesToBlink g
  | .dispensingCash =>
    if s.dispensingDoneAlready then s.cyclesLeft g else SystemState.longest g .dispensingCash
  | .takingInput => 8 - s.inputByteCount
  | .setup | .communicateCache => 255 - s.checksumForBackendResponse.toNat
  | .ready | .noteAllocation | .communicationLost | .ethernet | .dummy => 0

/-- For how many more edges an online transaction can go on. -/
def timeLeft (g : Generics) (s : Atm) : Nat := s.stayLeft g + s.systemState.ahead g

def rank (s : Atm) : Nat :=
  match s.systemState with
  | .ready => 0
  | .userNotInCache | .decryptSetup | .dummy | .ethernet => 1
  | .setup | .loadingCash | .dispensingCash => 2
  | .decrypt | .communicationLost => 3
  | .communicating => 4
  | .encrypt => 5
  | .noteAllocation => 6
  | .takingInput => 7
  | .updateCache => 3 * (4 - s.cacheUpdateCount)
  | .communicateCache => 3 * (4 - s.cacheUpdateCount) + 1
  | .communicationRegained => 3 * (4 - s.cacheUpdateCount) + 2

structure Paced (g : Generics) (s : Atm) : Prop where
  fresh : s.FreshInv
  wait : s.WaitInv
  blink : s.BlinkInv g
  sync : s.SyncInv
  notes : s.notesToBeDispensed.Bytes
  timeCounter : s.timeCounter ≤ g.N
  keys : s.systemState = .takingInput → s.inputByteCount < 8

structure Live (g : Generics) (s : Atm) : Prop extends s.Paced g where
  encrypter : s.encrypter.Rounds
  decrypter : s.decrypter.Rounds

variable {g : Generics} {i : AtmEdge} {s : Atm}

theorem notes_clock (h : s.notesToBeDispensed.Bytes) :
    (s.clock g i).notesToBeDispensed.Bytes := by
  have hzero : (⟨0, 0, 0, 0⟩ : NoteCounters).Bytes := by simp [NoteCounters.Bytes]
  by_cases hd : i.debouncedReset = false ∧ s.systemState = .dispensingCash
  · obtain ⟨hr, hs⟩ := hd
    by_cases hp : s.adequateCashInAccount = true ∧ s.adequateCashInAtm = true
    · obtain ⟨st, ca, l, n, b, q, hn, hm, -⟩ := clock_paying (g := g) hs hr hp h
      rw [hm]
      exact hn
    · obtain ⟨c, l, q, hm, -⟩ := clock_refusing (g := g) hs hr hp
      rw [hm]
      exact h
  · have he := clock_cases g i s
    generalize (s.clock g i).toMain = m at he
    cases he with
    | reset hr => exact hzero
    | reconnect hr hc => exact h
    | branch m hr hc hb =>
      cases hb with
      | ready b l hs => exact hzero
      | dispense l n k b q hs => exact absurd ⟨hr, hs⟩ hd
      | dispensed l n k b j q hs => exact absurd ⟨hr, hs⟩ hd
      | _ => exact h

theorem keys_clock (h : s.systemState = .takingInput → s.inputByteCount < 8)
    (hs : (s.clock g i).systemState = .takingInput) : (s.clock g i).inputByteCount < 8 := by
  have he := clock_cases g i s
  generalize (s.clock g i).toMain = m at he hs
  cases he with
  | reset hr => cases hs
  | reconnect hr hc => cases hs
  | branch m hr hc hb =>
    change m.systemState = .takingInput at hs
    change m.inputByteCount < 8
    cases hb with
    | ready b l hs' => exact Nat.zero_lt_succ _
    | key l hs' hn ht hlt =>
      change s.inputByteCount + 1 < 8
      omega
    | noKey b l hs' => exact h hs'
    | loadingCash l n q hs' hq => rcases hq with rfl | rfl <;> cases hs
    | dispense l n k b q hs' hq => rcases hq with rfl | rfl <;> cases hs
    | refuse l n k q hs' hq => rcases hq with rfl | rfl <;> cases hs
    | dispensed l n k b j q hs' hq => rcases hq with rfl | rfl <;> cases hs
    | userNotInCache l n q hs' hq => rcases hq with rfl | rfl <;> cases hs
    | _ =>
      simp only at hs
      try split_ifs at hs
      all_goals exact nomatch hs

theorem paced_clock (hmax : 0 < g.maxNoOfBlinks) (h : s.Paced g) : (s.clock g i).Paced g where
  fresh := freshInv_clock h.fresh
  wait := waitInv_clock h.fresh h.wait
  blink := blinkInv_clock hmax h.notes h.blink
  sync := syncInv_clock h.sync
  notes := notes_clock h.notes
  timeCounter := timeCounter_clock h.timeCounter
  keys := keys_clock h.keys

theorem live_clock (hmax : 0 < g.maxNoOfBlinks) (h : s.Live g) : (s.clock g i).Live g :=
  { paced_clock hmax h.toPaced with
    encrypter := h.encrypter.clock
    decrypter := h.decrypter.clock }

theorem live_powerUp (g : Generics) : Atm.powerUp.Live g where
  fresh := trivial
  wait := fun h => SystemState.noConfusion h
  blink := Nat.zero_le _
  sync := ⟨fun _ => rfl, Nat.zero_le _⟩
  notes := ⟨Nat.zero_le _, Nat.zero_le _, Nat.zero_le _, Nat.zero_le _⟩
  timeCounter := Nat.zero_le _
  keys := fun h => SystemState.noConfusion h
  encrypter := ⟨Nat.zero_le _, iff_of_false Bool.false_ne_true (by decide)⟩
  decrypter := ⟨Nat.zero_le _, iff_of_false Bool.false_ne_true (by decide)⟩

structure Stays (g : Generics) (s s' : Atm) : Prop where
  state : s'.systemState = s.systemState
  rank : s'.rank = s.rank
  le : s'.stayLeft g ≤ s.stayLeft g
  lt : ¬ s.systemState.Waits → s'.stayLeft g < s.stayLeft g

theorem Stays.wait {s' : Atm} (hw : s.systemState.Waits) (hs : s'.systemState = s.systemState)
    (hr : s'.rank = s.rank) (hle : s'.stayLeft g ≤ s.stayLeft g) : Stays g s s' :=
  ⟨hs, hr, hle, fun hn => absurd hw hn⟩

theorem Stays.work {s' : Atm} (hs : s'.systemState = s.systemState) (hr : s'.rank = s.rank)
    (hlt : s'.stayLeft g < s.stayLeft g) : Stays g s s' :=
  ⟨hs, hr, hlt.le, fun _ => hlt⟩

def Advances (s s' : Atm) : Prop := s'.systemState ≠ s.systemState ∧ s'.rank < s.rank

theorem encrypter_edgesLeft (h : s.Live g) (hr : i.debouncedReset = false)
    (hd : s.startEncrypt = true → s.encryptionOver = false) :
    (s.clock g i).encrypter.edgesLeft true < s.encrypter.edgesLeft s.startEncrypt :=
  h.encrypter.edgesLeft (i := ⟨i.debouncedReset, s.startEncrypt, s.enInput⟩) hr hd

theorem decrypter_edgesLeft (h : s.Live g) (hr : i.debouncedReset = false)
    (hd : s.startDecrypt = true → s.decryptionOver = false) :
    (s.clock g i).decrypter.edgesLeft true < s.decrypter.edgesLeft s.startDecrypt :=
  h.decrypter.edgesLeft (i := ⟨i.debouncedReset, s.startDecrypt, s.deInput⟩) hr hd

theorem edgesToBlink_lt {m : Main} (hb : s.ledBlinkCounter < g.maxNoOfBlinks)
    (ht : s.timeCounter ≤ g.N) (hk : m.ledBlinkCounter =
      if s.timeCounter = g.N then s.ledBlinkCounter + 1 else s.ledBlinkCounter)
    (hne : m.ledBlinkCounter ≠ g.maxNoOfBlinks)
    (hmt : m.timeCounter = if s.timeCounter = g.N then 0 else s.timeCounter + 1) :
    m.edgesToBlink g < s.edgesToBlink g := by
  rw [edgesToBlink, edgesToBlink, hmt]
  split_ifs at hk ⊢ with hT
  · have hsucc : g.maxNoOfBlinks - 1 - s.ledBlinkCounter =
        g.maxNoOfBlinks - 1 - m.ledBlinkCounter + 1 := by omega
    rw [hsucc, Nat.add_mul _ 1]
    omega
  · rw [hk]
    omega

theorem stays_of_blinking (h : s.Live g)
    (hq : s.systemState = .loadingCash ∨ s.systemState = .userNotInCache)
    (hst : (s.clock g i).systemState = s.systemState)
    (hk : (s.clock g i).ledBlinkCounter =
      if s.timeCounter = g.N then s.ledBlinkCounter + 1 else s.ledBlinkCounter)
    (hne : (s.clock g i).ledBlinkCounter ≠ g.maxNoOfBlinks)
    (ht : (s.clock g i).timeCounter = if s.timeCounter = g.N then 0 else s.timeCounter + 1) :
    Stays g s (s.clock g i) := by
  have hb : s.ledBlinkCounter < g.maxNoOfBlinks := by
    have hb := h.blink
    rcases hq with hq | hq <;> simpa only [BlinkInv, hq] using hb
  have hlt : (s.clock g i).edgesToBlink g < s.edgesToBlink g :=
    edgesToBlink_lt hb h.timeCounter hk hne ht
  refine .work hst ?_ ?_
  · rcases hq with hq | hq <;> simp [rank, hst, hq]
  · rcases hq with hq | hq <;> simpa only [stayLeft, hst, hq] using hlt

theorem progress_loadingCash (h : s.Live g) (hr : i.debouncedReset = false)
    (hs : s.systemState = .loadingCash) : Stays g s (s.clock g i) ∨ Advances s (s.clock g i) := by
  have hm := clock_of_not_ready (g := g) hr (s := s) (by simp [hs])
  obtain ⟨l, k, q, hl, hk, hq⟩ := loadingCash_spec g s
  simp only [branch, hs, hl] at hm
  rcases hq with ⟨rfl, -⟩ | ⟨rfl, hne⟩
  · refine .inr ⟨?_, ?_⟩
    · rw [hm, hs]
      rintro ⟨⟩
    · simp [rank, hm, hs, tick]
  · exact .inl (stays_of_blinking h (.inl hs) (by rw [hm]; rfl) (by rw [hm]; exact hk)
      (by rw [hm]; exact hne) (by rw [hm]; rfl))

theorem progress_userNotInCache (h : s.Live g) (hr : i.debouncedReset = false)
    (hs : s.systemState = .userNotInCache) :
    Stays g s (s.clock g i) ∨ Advances s (s.clock g i) := by
  have hm := clock_of_not_ready (g := g) hr (s := s) (by simp [hs])
  obtain ⟨l, k, q, hl, hk, hq⟩ := userNotInCache_spec g s
  simp only [branch, hs, hl] at hm
  rcases hq with ⟨rfl, -⟩ | ⟨rfl, hne⟩
  · refine .inr ⟨?_, ?_⟩
    · rw [hm, hs]
      rintro ⟨⟩
    · simp [rank, hm, hs, tick]
  · exact .inl (stays_of_blinking h (.inr hs) (by rw [hm]; rfl) (by rw [hm]; exact hk)
      (by rw [hm]; exact hne) (by rw [hm]; rfl))

theorem cyclesLeft_lt_longest {m : Main} (h : m.notesToBeDispensed.Bytes) :
    m.cyclesLeft g < SystemState.longest g .dispensingCash := by
  obtain ⟨h₁, h₂, h₃, h₄⟩ := h
  have hgap := m.timeGap.toNat_le
  have hle : m.blinksLeft + (g.maxNoOfBlinks - m.ledBlinkCounter) ≤ 2041 + g.maxNoOfBlinks := by
    unfold blinksLeft
    omega
  have hmul := Nat.mul_le_mul_right (g.N + 1) hle
  rw [cyclesLeft, SystemState.longest, show 2042 + g.maxNoOfBlinks = 2041 + g.maxNoOfBlinks + 1 by
    omega, Nat.add_mul _ 1]
  omega

theorem dispensingCash_cases (h : s.Live g) (hr : i.debouncedReset = false)
    (hs : s.systemState = .dispensingCash) :
    (s.clock g i).systemState = .dummy ∨
      (s.clock g i).systemState = .dispensingCash ∧ (s.clock g i).dispensingDoneAlready = true ∧
        (s.dispensingDoneAlready = true → (s.clock g i).cyclesLeft g < s.cyclesLeft g) := by
  have hb := h.blink
  simp only [BlinkInv, hs] at hb
  by_cases hp : s.adequateCashInAccount = true ∧ s.adequateCashInAtm = true
  · obtain ⟨st, ca, l, n, b, q, -, hq, hstate⟩ := clock_paying (g := g) hs hr hp h.notes
    have hst : (s.clock g i).systemState = q := by rw [hq]; rfl
    refine hstate.imp (fun hd => hst.trans hd) fun hd => ⟨hst.trans hd, by rw [hq]; rfl, ?_⟩
    intro hdone
    have hm := clock_of_not_ready (g := g) hr (s := s) (by simp [hs])
    have hdm : s.dispense g = s.toMain.blinkNotes g := by
      simp only [dispense, hdone, Bool.true_eq_false, if_false]
    simp only [branch, hs, dispensingCash] at hm
    rw [if_pos hp, hdm] at hm
    rw [hm]
    have hcount : (s.toMain.blinkNotes g).ledBlinkCounter = s.ledBlinkCounter ∧
        (s.toMain.blinkNotes g).timeCounter = s.timeCounter := by
      obtain ⟨l', n', b', q', hbn, -⟩ := exists_blinkNotes g s.toMain
      rw [hbn]
      exact ⟨rfl, rfl⟩
    refine countBlinks_progress hb h.timeCounter hcount.1 hcount.2 ?_ ?_
    · intro hN
      rcases blinkNotes_spec g s.toMain with hbn | ⟨-, hleft, -⟩
      · obtain ⟨l', q', hfb, hq'⟩ := finishBlinks_spec g s.toMain
        have hdis : (s.clock g i).systemState = q' := by
          obtain ⟨l'', hcb⟩ := countBlinks_spec g (s.toMain.blinkNotes g)
          rw [hm, hcb, hbn, hfb]
          rfl
        rcases hq' with rfl | ⟨-, hne⟩
        · rw [hst, hd] at hdis
          cases hdis
        · rw [hbn, hfb]
          exact .inr ⟨rfl, by omega⟩
      · exact .inl (hleft (hcount.2.symm.trans hN))
    · intro hN
      rcases blinkNotes_spec g s.toMain with hbn | ⟨-, -, hsame⟩
      · obtain ⟨l', q', hfb, -⟩ := finishBlinks_spec g s.toMain
        rw [hbn, hfb]
        rfl
      · exact hsame fun hT => hN (hcount.2.trans hT)
  · obtain ⟨c, l, q, hm, hq⟩ := clock_refusing (g := g) hs hr hp
    rcases hq with ⟨rfl, -⟩ | ⟨rfl, hne⟩
    · exact .inl (by rw [hm]; rfl)
    · refine .inr ⟨by rw [hm]; rfl, by rw [hm]; rfl, fun _ => ?_⟩
      have ht := h.timeCounter
      have hcy : (s.clock g i).cyclesLeft g = (s.blinksLeft + (g.maxNoOfBlinks -
          if s.timeCounter = g.N then s.ledBlinkCounter + 1 else s.ledBlinkCounter)) * (g.N + 1) +
          (g.N - if s.timeCounter = g.N then 0 else s.timeCounter + 1) := by
        rw [← if_congr (and_iff_right hne) rfl rfl, hm]
        rfl
      rw [hcy, cyclesLeft]
      split_ifs with hT
      · rw [show s.blinksLeft + (g.maxNoOfBlinks - s.ledBlinkCounter) =
          s.blinksLeft + (g.maxNoOfBlinks - (s.ledBlinkCounter + 1)) + 1 by omega, Nat.add_mul _ 1]
        omega
      · omega

theorem progress_dispensingCash (h : s.Live g) (hr : i.debouncedReset = false)
    (hs : s.systemState = .dispensingCash) : Stays g s (s.clock g i) ∨ Advances s (s.clock g i) := by
  rcases dispensingCash_cases h hr hs with hd | ⟨hst, hdone, hlt⟩
  · exact .inr ⟨by rw [hd, hs]; rintro ⟨⟩, by simp [rank, hd, hs]⟩
  · refine .inl (.work (hst.trans hs.symm) (by simp [rank, hst, hs]) ?_)
    simp only [stayLeft, hst, hs, hdone, if_true]
    split_ifs with hd
    · exact hlt hd
    · exact cyclesLeft_lt_longest (notes_clock h.notes)

theorem waited_lt (ht : s.timeCounter ≤ g.N) {m : Main} {t : Nat} (h31 : t < 31)
    (hmt : t = if s.timeCounter = g.N then s.timeOutCounter + 1 else s.timeOutCounter)
    (htime : m.timeOutCounter = t)
    (hc : m.timeCounter = if s.timeCounter = g.N then 0 else s.timeCounter + 1) :
    31 * (g.N + 1) - 1 - (m.timeOutCounter * (g.N + 1) + m.timeCounter) <
      31 * (g.N + 1) - 1 - s.waited g := by
  have hmul := Nat.mul_le_mul_right (g.N + 1) (Nat.succ_le_of_lt h31)
  rw [Nat.succ_mul] at hmul
  rw [htime, hc, waited]
  split_ifs at hmt ⊢ with hT
  · have hsucc : t * (g.N + 1) = s.timeOutCounter * (g.N + 1) + (g.N + 1) := by
      rw [hmt, Nat.succ_mul]
    omega
  · rw [hmt] at hmul ⊢
    omega

theorem assign_bit (c : BitVec 8) (k : Nat) : assign c k (1 : BitVec 1) = c ||| 1#8 <<< k := by
  ext j hj
  rw [← BitVec.getLsbD_eq_getElem, getLsbD_assign _ _ _ _ hj, ← BitVec.getLsbD_eq_getElem]
  simp only [BitVec.getLsbD_or, BitVec.getLsbD_shiftLeft, BitVec.getLsbD_one, hj]
  split_ifs with h
  · simp [show j = k by omega]
  · rcases Nat.lt_or_ge j k with hlt | hge
    · simp [hlt]
    · simp [show ¬ j < k by omega, show j - k ≠ 0 by omega]

theorem checksum_collect_le (first : Nat) (i : AtmEdge) (m : Main) :
    m.checksumForBackendResponse.toNat ≤ (m.collect first i).checksumForBackendResponse.toNat := by
  unfold collect
  simp only
  split
  · rw [assign_bit, BitVec.toNat_or]
    exact Nat.left_le_or
  · exact le_rfl

theorem stays_of_enciphering (h : s.Live g) (hr : i.debouncedReset = false)
    (hq : s.systemState = .encrypt ∨ s.systemState = .communicationRegained)
    (hst : (s.clock g i).systemState = s.systemState) (hrank : (s.clock g i).rank = s.rank)
    (hse : (s.clock g i).startEncrypt = true) (ho : s.encryptionOver = false) :
    Stays g s (s.clock g i) := by
  refine .work hst hrank ?_
  have hlt := encrypter_edgesLeft h hr fun _ => ho
  rcases hq with hq | hq <;> simpa only [stayLeft, hst, hq, hse] using hlt

theorem stays_of_deciphering (h : s.Live g) (hr : i.debouncedReset = false)
    (hq : s.systemState = .decrypt ∨ s.systemState = .decryptSetup ∨ s.systemState = .updateCache)
    (hst : (s.clock g i).systemState = s.systemState) (hrank : (s.clock g i).rank = s.rank)
    (hsd : (s.clock g i).startDecrypt = true) (ho : s.decryptionOver = false) :
    Stays g s (s.clock g i) := by
  refine .work hst hrank ?_
  have hlt := decrypter_edgesLeft h hr fun _ => ho
  rcases hq with hq | hq | hq <;> simpa only [stayLeft, hst, hq, hsd] using hlt

theorem stays_of_collecting (first : Nat)
    (hq : s.systemState = .setup ∨ s.systemState = .communicateCache)
    (hst : (s.clock g i).systemState = s.systemState) (hrank : (s.clock g i).rank = s.rank)
    (hc : (s.clock g i).checksumForBackendResponse =
      (s.toMain.collect first i).checksumForBackendResponse) : Stays g s (s.clock g i) := by
  have hle := checksum_collect_le first i s.toMain
  rw [← hc] at hle
  refine .wait (by rcases hq with hq | hq <;> rw [hq] <;> trivial) hst hrank ?_
  rcases hq with hq | hq <;> simp only [stayLeft, hst, hq] <;> exact Nat.sub_le_sub_left hle 255

theorem progress_confirming (hq : s.systemState = .dummy ∨ s.systemState = .ethernet)
    (hst : (s.clock g i).systemState = if i.debouncedDone then .ready else s.systemState) :
    Stays g s (s.clock g i) ∨ Advances s (s.clock g i) := by
  split_ifs at hst
  · refine .inr ⟨?_, ?_⟩ <;> rcases hq with hq | hq <;> simp [rank, hst, hq]
  · refine .inl (.wait ?_ hst ?_ ?_) <;> rcases hq with hq | hq
    all_goals simp [SystemState.Waits, rank, stayLeft, hst, hq]

/-- Without a reset an edge leads nearer to Ready or leaves the state, and then there is no more to
wait for than before, and less where nobody has to come. -/
theorem clock_progress (h : s.Live g) (hr : i.debouncedReset = false)
    (hs : s.systemState ≠ .ready) : Stays g s (s.clock g i) ∨ Advances s (s.clock g i) := by
  have he := clock_cases g i s
  generalize hm : (s.clock g i).toMain = m at he
  cases he with
  | reset hr' => exact absurd (hr.symm.trans hr') Bool.false_ne_true
  | reconnect hr' hc => exact absurd hc.2.2.2 hs
  | branch m hr' hc hb =>
    have hsync := h.sync.2
    cases hb with
    | ready b l hq => exact absurd hq hs
    | key l hq hn ht hlt =>
      refine .inl (.wait (by rw [hq]; trivial) (by rw [hm]; rfl) (by simp [rank, hm, hq, tick]) ?_)
      simp only [stayLeft, hm, tick, hq]
      omega
    | lastKey l hq => exact .inr ⟨by rw [hm, hq]; rintro ⟨⟩, by simp [rank, hm, hq, tick]⟩
    | noKey b l hq =>
      refine .inl (.wait (by rw [hq]; trivial) (by rw [hm]; rfl) (by simp [rank, hm, hq, tick]) ?_)
      simp only [stayLeft, hm, tick, hq, le_refl]
    | noteAllocation l hq => exact .inr ⟨by rw [hm, hq]; rintro ⟨⟩, by simp [rank, hm, hq, tick]⟩
    | encrypt l hq =>
      cases ho : s.encryptionOver with
      | true =>
        have hst : (s.clock g i).systemState =
            if s.bankId = bankBits s.enInput then .communicating else .ethernet := by
          rw [hm, ho]
          rfl
        refine .inr ⟨?_, ?_⟩
        · rw [hst, hq]
          split_ifs <;> rintro ⟨⟩
        · simp only [rank, hst, hq]
          split_ifs <;> simp
      | false =>
        have hst : (s.clock g i).systemState = .encrypt := by
          rw [hm, ho]
          rfl
        exact .inl (stays_of_enciphering h hr (.inl hq) (hst.trans hq.symm)
          (by simp [rank, hst, hq]) (by rw [hm]; rfl) ho)
    | communicating l a u r c t hq ht hcol =>
      have hst : (s.clock g i).systemState = if t = 31 then .communicationLost
          else if c = 0b11111111 then .decrypt
          else if Invalid i then .ready else .communicating := by
        rw [hm]
        rfl
      by_cases hstay : (s.clock g i).systemState = .communicating
      · refine .inl (.work (hstay.trans hq.symm) (by simp [rank, hstay, hq]) ?_)
        have hwait := (h.wait hq).1
        have h31 : t ≠ 31 := fun h31 => by
          rw [if_pos h31, hstay] at hst
          cases hst
        simp only [stayLeft, hstay, hq]
        exact waited_lt h.timeCounter (m := (s.clock g i).toMain) (t := t)
          (by split_ifs at ht <;> omega) ht (by rw [hm]; rfl) (by rw [hm]; rfl)
      · refine .inr ⟨fun hn => hstay (hn.trans hq), ?_⟩
        rw [hst] at hstay
        simp only [rank, hst, hq]
        split_ifs at hstay ⊢ <;> simp_all
    | decrypt l hq =>
      cases ho : s.decryptionOver with
      | true =>
        have hst : (s.clock g i).systemState =
            if s.userIsAdmin then .loadingCash else .dispensingCash := by
          rw [hm, ho]
          rfl
        refine .inr ⟨?_, ?_⟩
        · rw [hst, hq]
          split_ifs <;> rintro ⟨⟩
        · simp only [rank, hst, hq]
          split_ifs <;> simp
      | false =>
        have hst : (s.clock g i).systemState = .decrypt := by
          rw [hm, ho]
          rfl
        exact .inl (stays_of_deciphering h hr (.inl hq) (hst.trans hq.symm)
          (by simp [rank, hst, hq]) (by rw [hm]; rfl) ho)
    | loadingCash l n q hq => exact progress_loadingCash h hr hq
    | dispense l n k b q hq => exact progress_dispensingCash h hr hq
    | refuse l n k q hq => exact progress_dispensingCash h hr hq
    | dispensed l n k b j q hq => exact progress_dispensingCash h hr hq
    | dummy hq =>
      exact progress_confirming (.inl hq) (by rw [hm, hq]; cases i.debouncedDone <;> rfl)
    | ethernet l hq =>
      exact progress_confirming (.inr hq) (by rw [hm, hq]; cases i.debouncedDone <;> rfl)
    | serveFromCache entry hq =>
      exact .inr ⟨by rw [hm, hq]; rintro ⟨⟩, by simp [rank, hm, hq, tick]⟩
    | notInCache hq => exact .inr ⟨by rw [hm, hq]; rintro ⟨⟩, by simp [rank, hm, hq, tick]⟩
    | userNotInCache l n q hq => exact progress_userNotInCache h hr hq
    | decryptSetup l hq =>
      cases ho : s.decryptionOver with
      | true =>
        rw [ho] at hm
        exact .inr ⟨by rw [hm, hq]; rintro ⟨⟩, by simp [rank, hm, hq, tick]⟩
      | false =>
        have hst : (s.clock g i).systemState = .decryptSetup := by
          rw [hm, ho]
          rfl
        exact .inl (stays_of_deciphering h hr (.inr (.inl hq)) (hst.trans hq.symm)
          (by simp [rank, hst, hq]) (by rw [hm]; rfl) ho)
    | setup l r c hq hcol =>
      have hst : (s.clock g i).systemState =
          if c = 0b11111111 then .decryptSetup else .setup := by
        rw [hm]
        rfl
      by_cases hF : c = 0b11111111
      · rw [if_pos hF] at hst
        exact .inr ⟨by rw [hst, hq]; rintro ⟨⟩, by simp [rank, hst, hq]⟩
      · rw [if_neg hF] at hst
        exact .inl (stays_of_collecting 18 (.inl hq) (hst.trans hq.symm)
          (by simp [rank, hst, hq]) (by rw [hm, hcol]; rfl))
    | communicateCache l r c hq hcol =>
      have hst : (s.clock g i).systemState =
          if c = 0b11111111 then .updateCache else .communicateCache := by
        rw [hm]
        rfl
      have hcount : (s.clock g i).cacheUpdateCount = s.cacheUpdateCount := by
        rw [hm]
        rfl
      by_cases hF : c = 0b11111111
      · rw [if_pos hF] at hst
        exact .inr ⟨by rw [hst, hq]; rintro ⟨⟩, by simp [rank, hst, hq, hcount]⟩
      · rw [if_neg hF] at hst
        exact .inl (stays_of_collecting 10 (.inr hq) (hst.trans hq.symm)
          (by simp [rank, hst, hq, hcount]) (by rw [hm, hcol]; rfl))
    | communicationRegained l hq =>
      have hst : (s.clock g i).systemState = if s.cacheUpdateCount = 4 then .ready
          else if s.encryptionOver then .communicateCache else .communicationRegained := by
        rw [hm]
        rfl
      have hcount : (s.clock g i).cacheUpdateCount = s.cacheUpdateCount := by
        rw [hm]
        rfl
      by_cases hstay : (s.clock g i).systemState = .communicationRegained
      · rw [hst] at hstay
        have h4 : s.cacheUpdateCount ≠ 4 := fun h4 => by simp [h4] at hstay
        have ho : s.encryptionOver = false := by
          by_contra ho
          simp [h4, ho] at hstay
        rw [← hst] at hstay
        exact .inl (stays_of_enciphering h hr (.inr hq) (hstay.trans hq.symm)
          (by simp [rank, hstay, hq, hcount]) (by rw [hm]; simp [tick, ho]) ho)
      · refine .inr ⟨fun hn => hstay (hn.trans hq), ?_⟩
        rw [hst] at hstay
        simp only [rank, hst, hq, hcount]
        split_ifs at hstay ⊢ <;> simp_all
    | updateCache l hq =>
      rw [hq] at hsync
      have hle : s.cacheUpdateCount ≤ 3 := hsync.2
      cases ho : s.decryptionOver with
      | true =>
        have hst : (s.clock g i).systemState = .communicationRegained := by
          rw [hm, ho]
          rfl
        have hcount : (s.clock g i).cacheUpdateCount = s.cacheUpdateCount + 1 := by
          rw [hm, ho]
          rfl
        refine .inr ⟨by rw [hst, hq]; rintro ⟨⟩, ?_⟩
        simp only [rank, hst, hq, hcount]
        omega
      | false =>
        have hst : (s.clock g i).systemState = .updateCache := by
          rw [hm, ho]
          rfl
        have hcount : (s.clock g i).cacheUpdateCount = s.cacheUpdateCount := by
          rw [hm, ho]
          rfl
        exact .inl (stays_of_deciphering h hr (.inr (.inr hq)) (hst.trans hq.symm)
          (by simp [rank, hst, hq, hcount]) (by rw [hm]; rfl) ho)

theorem stayLeft_le (hmax : 0 < g.maxNoOfBlinks) (h : s.Live g) (hw : ¬ s.systemState.Waits) :
    s.stayLeft g ≤ s.systemState.longest g := by
  have hblink : s.edgesToBlink g ≤ g.maxNoOfBlinks * (g.N + 1) - 1 := by
    have hmul := Nat.mul_le_mul_right (g.N + 1) (show g.maxNoOfBlinks - 1 - s.ledBlinkCounter + 1 ≤
      g.maxNoOfBlinks by omega)
    rw [Nat.succ_mul] at hmul
    rw [edgesToBlink]
    omega
  cases hs : s.systemState <;> rw [hs] at hw <;> simp only [stayLeft, SystemState.longest, hs]
  case dispensingCash =>
    split
    · exact (cyclesLeft_lt_longest h.notes).le
    · exact le_rfl
  case loadingCash | userNotInCache => exact hblink
  case communicating => exact Nat.sub_le ..
  case noteAllocation | communicationLost => exact le_rfl
  case encrypt | communicationRegained | decrypt | decryptSetup | updateCache =>
    exact Cipher.edgesLeft_le ..
  all_goals exact absurd trivial hw

/-! ### An online transaction -/

theorem Paced.begin (hmax : 0 < g.maxNoOfBlinks) (hs : s.systemState = .ready)
    (hm : s.cacheMode = false) (ht : s.timeCounter ≤ g.N) (hr : i.debouncedReset = false)
    (hn : (s.clock g i).systemState = .takingInput) : (s.clock g i).Paced g := by
  suffices hmain : (s.clock g i).BlinkInv g ∧ (s.clock g i).SyncInv ∧
      (s.clock g i).notesToBeDispensed = ⟨0, 0, 0, 0⟩ ∧ (s.clock g i).inputByteCount = 0 from
    { fresh := freshInv_clock (by simp only [FreshInv, hs])
      wait := fun hw => SystemState.noConfusion (hn.symm.trans hw)
      blink := hmain.1
      sync := hmain.2.1
      notes := by
        rw [hmain.2.2.1]
        exact ⟨Nat.zero_le _, Nat.zero_le _, Nat.zero_le _, Nat.zero_le _⟩
      timeCounter := timeCounter_clock ht
      keys := fun _ => by rw [hmain.2.2.2]; decide }
  have he := clock_cases g i s
  generalize (s.clock g i).toMain = m at he hn ⊢
  cases he with
  | reset hr' => exact Bool.noConfusion (hr.symm.trans hr')
  | reconnect _ hc => exact Bool.noConfusion (hm.symm.trans hc.1)
  | branch m _ _ hb =>
    cases hb with
    | ready b l _ =>
      refine ⟨?_, ⟨fun _ => rfl, ?_⟩, rfl, rfl⟩
      · simp only [BlinkInv, hn]
        exact hmax
      · simp only [hn]
        rfl
    | _ => simp_all

theorem Paced.live_clock (hmax : 0 < g.maxNoOfBlinks) (h : s.Paced g)
    (hs : s.systemState = .takingInput) (he : s.EncrypterInv s.encrypter)
    (hd : s.DecrypterInv s.decrypter) (hr : i.debouncedReset = false) : (s.clock g i).Live g := by
  simp only [EncrypterInv, DecrypterInv, hs] at he hd
  exact { paced_clock hmax h with
    encrypter := rounds_of_idle (clock_stop hr he.1)
    decrypter := rounds_of_idle (clock_stop hr hd.1) }

theorem timeLeft_clock (hmax : 0 < g.maxNoOfBlinks) (h : s.Live g) (hr : i.debouncedReset = false)
    (hs : s.systemState.Serves) (hn : (s.clock g i).systemState.Serves) :
    (s.clock g i).timeLeft g < s.timeLeft g := by
  have hw := hs.not_waits
  rcases clock_progress (g := g) h hr (fun hq => hw (hq ▸ trivial)) with hstay | ⟨hne, -⟩
  · have hlt := hstay.lt hw
    rw [timeLeft, timeLeft, hstay.state]
    omega
  · have hle := stayLeft_le hmax (live_clock (i := i) hmax h) hn.not_waits
    have hlt := SystemState.ahead_lt (g := g) hs hn (mem_successors g i s) hne
    rw [timeLeft, timeLeft]
    omega

theorem timeLeft_le (hmax : 0 < g.maxNoOfBlinks) (h : s.Live g) (hs : s.systemState.Serves) :
    s.timeLeft g ≤ g.transactionTime :=
  (Nat.add_le_add_right (stayLeft_le hmax h hs.not_waits) _).trans
    (SystemState.longest_add_ahead_le hs)

end Atm

namespace TopLevel

open Atm

variable {g : Generics} {t : TopLevel}

theorem exists_left (hmax : 0 < g.maxNoOfBlinks) {qs : List Pins} (h : t.atm.Live g)
    (hw : ¬ t.atm.systemState.Waits) (hlt : t.atm.stayLeft g < qs.length) :
    ∃ rs, rs <+: qs ∧ (run (clock g) t rs).atm.systemState ≠ t.atm.systemState := by
  have hruns : Runs (clock g) (fun _ _ => True) t qs := runs_of_forall fun _ _ _ => trivial
  have hstep (q : Pins) (u : TopLevel) (_ : True)
      (hu : u.atm.Live g ∧ u.atm.systemState = t.atm.systemState) :
      (clock g q u).atm.systemState ≠ t.atm.systemState ∨
        ((clock g q u).atm.Live g ∧ (clock g q u).atm.systemState = t.atm.systemState) ∧
          (clock g q u).atm.stayLeft g < u.atm.stayLeft g := by
    obtain ⟨hlive, hst⟩ := hu
    rw [← hst] at hw ⊢
    have hready : u.atm.systemState ≠ .ready := fun hr => hw (hr ▸ trivial)
    by_cases hleft : (clock g q u).atm.systemState = u.atm.systemState
    · have hr : (u.edge q).debouncedReset = false :=
        reset_of_not_ready (g := g) (s := u.atm) (by
          change (clock g q u).atm.systemState ≠ _
          rw [hleft]
          exact hready)
      rcases clock_progress (g := g) hlive hr hready with hstay | hleaves
      · exact .inr ⟨⟨live_clock hmax hlive, hleft⟩, hstay.lt hw⟩
      · exact absurd hleft hleaves.1
    · exact .inl hleft
  obtain ⟨rs, hrs, -, hne⟩ := hruns.exists_prefix_of_measure
    (P := fun u => u.atm.Live g ∧ u.atm.systemState = t.atm.systemState)
    (Q := fun u => u.atm.systemState ≠ t.atm.systemState) (fun u => u.atm.stayLeft g) hstep
    ⟨h, rfl⟩ hlt
  exact ⟨rs, hrs, hne⟩

/-- In every run, whatever the user and the host do, a state that waits for none of them is left
within the cycles that it can last. -/
theorem stays_end (g : Generics) (hmax : 0 < g.maxNoOfBlinks) (ps qs : List Pins)
    (hw : ¬ (after g ps).atm.systemState.Waits)
    (hlt : (after g ps).atm.systemState.longest g < qs.length) :
    ∃ rs, rs <+: qs ∧
      (after g (ps ++ rs)).atm.systemState ≠ (after g ps).atm.systemState := by
  have hlive : (after g ps).atm.Live g :=
    atm_invariant (P := Live g) (fun _ _ => live_clock hmax) (live_powerUp g) ps
  obtain ⟨rs, hrs, hne⟩ := exists_left hmax hlive hw ((stayLeft_le hmax hlive hw).trans_lt hlt)
  exact ⟨rs, hrs, by rwa [after_append]⟩

def configuring : List Pins := (List.range 8).map fun k =>
  { idlePins (.ofNat 7 (18 + k)) {} 0 with h2fValid := true, h2fData := 7 }

theorem configuring_state : (after {} configuring).atm.systemState = .decryptSetup := by decide

theorem stays_end_decryptSetup :
    ∃ rs, rs <+: List.replicate 35 (idlePins 0 {} 0) ∧
      (after {} (configuring ++ rs)).atm.systemState ≠ (after {} configuring).atm.systemState :=
  stays_end {} (by decide) configuring (List.replicate 35 (idlePins 0 {} 0))
    (by rw [configuring_state]; exact id) (by rw [configuring_state]; decide)

end TopLevel

end AtmController.Frontend
