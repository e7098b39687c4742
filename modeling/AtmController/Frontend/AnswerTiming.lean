import AtmController.Frontend.Isolation
import AtmController.Frontend.OfflineWithdrawals

namespace AtmController.Frontend

open Clocked Cipher NoteAllocator

namespace Main

def TimingInv (m : Main) (e : Cipher) (a : NoteAllocator) : Prop :=
  match m.systemState with
  | .encrypt => ∃ n ≤ 33, WorkingAt 0 encryptCycle m.enInput m.startEncrypt n e ∧
      ∃ c, c.systemState = .initial ∧ c.binarysearchStart = false ∧
        a = (NoteAllocator.clock m.allocatorEdge)^[if m.startEncrypt then n + 1 else 0] c
  | .communicating => NoteAllocator.Finished m.allocatorEdge a
  | _ => True

/-- The allocator is about to start with a search that an earlier transaction left behind. -/
def SearchLeft (m : Main) (a : NoteAllocator) : Prop :=
  m.systemState = .noteAllocation ∧ a.binarysearchStart = true

end Main

namespace Atm

open Main

variable {g : Generics} {i : AtmEdge} {s : Atm}

def PublishesEarly (i : AtmEdge) (s : Atm) : Prop :=
  s.systemState = .encrypt ∧ s.encryptionOver = true ∧ i.debouncedReset = false ∧
    s.bankId = bankBits s.enInput ∧ 35 < allocationTime s.allocatorEdge

theorem finished_of_encrypted (hi : s.TimingInv s.encrypter s.noteAllocator)
    (hs : s.systemState = .encrypt) (hst : s.startNoteAllocation = true)
    (ho : s.encryptionOver = true) :
    NoteAllocator.Finished s.allocatorEdge (NoteAllocator.clock s.allocatorEdge s.noteAllocator) ↔
      allocationTime s.allocatorEdge ≤ 35 := by
  simp only [Main.TimingInv, hs] at hi
  obtain ⟨n, hn, hw, c, hc, hb, ha⟩ := hi
  obtain ⟨hse, h33⟩ := hw.finished ho
  rw [hse, if_pos rfl, show n + 1 = 34 by omega] at ha
  rw [ha, ← Function.iterate_succ_apply' (NoteAllocator.clock s.allocatorEdge) 34 c]
  exact finished_iff rfl hst hc hb 35

theorem clock_of_encrypted (hs : s.systemState = .encrypt) (ho : s.encryptionOver = true)
    (hr : i.debouncedReset = false) (hb : s.bankId = bankBits s.enInput) :
    (s.clock g i).systemState = .communicating ∧ (s.clock g i).allocatorEdge = s.allocatorEdge ∧
      (s.clock g i).noteAllocator = NoteAllocator.clock s.allocatorEdge s.noteAllocator := by
  have hm := clock_of_not_ready (g := g) hr (s := s) (by simp [hs])
  simp only [branch, hs, encrypt, ho, if_true, if_pos hb] at hm
  refine ⟨by rw [hm]; rfl, ?_, ?_⟩
  · rw [hm]
    rfl
  · change NoteAllocator.clock { s.allocatorEdge with reset := i.debouncedReset } _ = _
    rw [hr]
    rfl

theorem timingInv_clock (he : s.EncrypterInv s.encrypter) (ha : s.AllocatorInv s.noteAllocator)
    (hi : s.TimingInv s.encrypter s.noteAllocator) (hl : ¬ s.SearchLeft s.noteAllocator)
    (hp : ¬ s.PublishesEarly i) :
    (s.clock g i).TimingInv (s.clock g i).encrypter (s.clock g i).noteAllocator := by
  have hm := clock_cases g i s
  change (s.clock g i).TimingInv
    (Encrypter.clock ⟨i.debouncedReset, s.startEncrypt, s.enInput⟩ s.encrypter)
    (NoteAllocator.clock { s.allocatorEdge with reset := i.debouncedReset } s.noteAllocator)
  generalize (s.clock g i).toMain = m at hm
  cases hm with
  | reset hr => trivial
  | reconnect hr hc => trivial
  | branch m hr hc hb =>
    rw [hr]
    change m.TimingInv _ _
    cases hb with
    | noteAllocation l h =>
      simp only [Main.EncrypterInv, h] at he
      simp only [Main.AllocatorInv, h] at ha
      simp only [Main.TimingInv, he.1]
      -- the allocator is stopped once more, and keeps a search that is left
      have hstop : NoteAllocator.clock s.allocatorEdge s.noteAllocator = s.noteAllocator.stopped :=
        NoteAllocator.clock_eq_stopped rfl ha.1
      refine ⟨0, by decide, Idle.workingAt (clock_stop rfl rfl) _, _, rfl, ?_, hstop⟩
      exact Bool.eq_false_iff.mpr fun h' => hl ⟨h, h'⟩
    | encrypt l h =>
      simp only [Main.AllocatorInv, h] at ha
      simp only [Main.TimingInv]
      cases ho : s.encryptionOver with
      | true =>
        by_cases hbank : s.bankId = bankBits s.enInput
        · simp only [if_true, if_pos hbank]
          refine (finished_of_encrypted hi h ha.1 ho).mpr ?_
          by_contra hlt
          exact hp ⟨h, ho, hr, hbank, by omega⟩
        · simp only [if_true, if_neg hbank]
      | false =>
        simp only [Main.TimingInv, h] at hi
        obtain ⟨n, hn, hw, c, hc, hb, hac⟩ := hi
        have hn33 : n < 33 := by
          by_contra h33
          have hd : s.encryptionOver = decide (33 ≤ n) := hw.1.2.1
          rw [ho, decide_eq_true (by omega)] at hd
          exact Bool.noConfusion hd
        refine ⟨_, ?_, hw.clock, c, hc, hb, ?_⟩
        · split <;> omega
        · rw [hac]
          cases s.startEncrypt with
          | false => rfl
          | true => exact (Function.iterate_succ_apply' _ _ _).symm
    | communicating l a u r c t h =>
      simp only [Main.AllocatorInv, h] at ha
      simp only [Main.TimingInv, h] at hi
      simp only [Main.TimingInv]
      split_ifs
      all_goals first
        | trivial
        | exact hi.iterate rfl ha.1 1
    | ready b l h => simp only [Main.TimingInv]; cases i.debouncedStart <;> trivial
    | loadingCash l n q h hq => rcases hq with rfl | rfl <;> trivial
    | dispense l n k b q h hq => rcases hq with rfl | rfl <;> trivial
    | refuse l n k q h hq => rcases hq with rfl | rfl <;> trivial
    | dispensed l n k b j q h hq => rcases hq with rfl | rfl <;> trivial
    | userNotInCache l n q h hq => rcases hq with rfl | rfl <;> trivial
    | _ =>
      simp only [Main.TimingInv, *]
      try split_ifs
      all_goals trivial

theorem allocatorEdge_clock_of_communicating (hs : s.systemState = .communicating)
    (hs' : (s.clock g i).systemState = .communicating) :
    (s.clock g i).allocatorEdge = s.allocatorEdge := by
  have hm := clock_cases g i s
  change (s.clock g i).toMain.systemState = _ at hs'
  change (s.clock g i).toMain.allocatorEdge = _
  generalize (s.clock g i).toMain = m at hm hs'
  cases hm with
  | reset hr => cases hs'
  | reconnect hr hc => cases hs'
  | branch m hr hc hb =>
    change m.allocatorEdge = _
    cases hb with
    | communicating l a u r c t h => rfl
    | _ => simp_all

theorem f2hData_of_communicating (hs : s.systemState = .communicating)
    (hr : i.debouncedReset = false) (hc : i.chanAddr = 0)
    (hf : NoteAllocator.Finished s.allocatorEdge s.noteAllocator) :
    s.f2hData i = if Granted s.allocatorEdge then 1 else 2 := by
  have ha : s.adequateCashInAtm = decide (Granted s.allocatorEdge) := hf.allocationPossible
  simp only [f2hData, hc, hs, hr, ha, if_true, Bool.false_eq_true, if_false, decide_eq_true_eq]

end Atm

namespace TopLevel

open Main

variable {g : Generics}

/-- In 00011 the allocator has decided, channel 0 tells its decision, and while the backend is
awaited this is about the same stock, limits and amount. The cycle of a reset, in which the
allocator is cleared at once, ends the wait. -/
def AnswerFinal (g : Generics) (t : TopLevel) : Prop :=
  t.atm.systemState = .communicating → t.resetDebouncer.buttonDeb = false →
    NoteAllocator.Finished t.atm.allocatorEdge t.atm.noteAllocator ∧
    (∀ p, p.chanAddr = 0 →
      TopLevel.f2hData p t = if Granted t.atm.allocatorEdge then 1 else 2) ∧
    ∀ p, (TopLevel.clock g p t).atm.systemState = .communicating →
      (TopLevel.clock g p t).atm.allocatorEdge = t.atm.allocatorEdge

def PublishesEarly (p : Pins) (t : TopLevel) : Prop :=
  t.atm.PublishesEarly (t.edge p) ∧ (t.resetDebouncer.clock p.reset).buttonDeb = false

structure Timely (t : TopLevel) : Prop where
  encrypter : t.atm.EncrypterInv t.atm.encrypter
  allocator : t.atm.AllocatorInv t.atm.noteAllocator
  timing : t.resetDebouncer.buttonDeb = false → t.atm.TimingInv t.atm.encrypter t.atm.noteAllocator

theorem timely_powerUp : powerUp.Timely := ⟨trivial, trivial, fun _ => trivial⟩

theorem Timely.answerFinal {t : TopLevel} (h : t.Timely) : t.AnswerFinal g := by
  intro hs hr
  have hi := h.timing hr
  simp only [Main.TimingInv, hs] at hi
  exact ⟨hi, fun p hc => Atm.f2hData_of_communicating hs hr hc hi,
    fun p => Atm.allocatorEdge_clock_of_communicating hs⟩

theorem Timely.clock {p : Pins} {t : TopLevel} (h : t.Timely)
    (hl : ¬ t.atm.SearchLeft t.atm.noteAllocator) (hp : ¬ t.PublishesEarly p) :
    (TopLevel.clock g p t).Timely where
  encrypter := Atm.encrypterInv_clock h.encrypter
  allocator := Atm.allocatorInv_clock h.allocator
  timing hr' := by
    cases hr : t.resetDebouncer.buttonDeb with
    | false =>
      exact Atm.timingInv_clock h.encrypter h.allocator (h.timing hr) hl fun he => hp ⟨he, hr'⟩
    | true =>
      have hst : (TopLevel.clock g p t).atm.systemState = .ready := by
        by_contra hne
        exact absurd (hr.symm.trans (Atm.reset_of_not_ready hne)) Bool.noConfusion
      simp only [Main.TimingInv, hst]

theorem Timely.not_answerFinal {p : Pins} {t : TopLevel} (h : t.Timely)
    (hp : t.PublishesEarly p) : ¬ (TopLevel.clock g p t).AnswerFinal g := by
  obtain ⟨⟨hs, ho, hr, hb, hlate⟩, hr'⟩ := hp
  intro hfin
  have ha := h.allocator
  simp only [Main.AllocatorInv, hs] at ha
  obtain ⟨hc, hedge, halloc⟩ := Atm.clock_of_encrypted (g := g) hs ho hr hb
  have hf := (hfin hc hr').1
  change NoteAllocator.Finished (t.atm.clock g _).allocatorEdge (t.atm.clock g _).noteAllocator at hf
  rw [hedge, halloc, Atm.finished_of_encrypted (h.timing hr) hs ha.1 ho] at hf
  omega

/-- When no allocation starts in the middle of an earlier one's search, the published answers are
final exactly when none is published before its allocation has had its time. -/
theorem answer_final_iff (g : Generics) (ps : List Pins)
    (h : Runs (clock g) (fun _ t => ¬ t.atm.SearchLeft t.atm.noteAllocator) powerUp ps) :
    (∀ qs, qs <+: ps → AnswerFinal g (after g qs)) ↔
      Runs (clock g) (fun p t => ¬ t.PublishesEarly p) powerUp ps :=
  h.forall_prefix_iff (P := AnswerFinal g) (Q := Timely) (fun _ ht => ht.answerFinal)
    (fun _ _ hl ht hp => ht.clock hl hp) (fun _ _ _ ht hp => ht.not_answerFinal (not_not.mp hp))
    timely_powerUp

theorem allocatorEdge_of_underway {c : BitVec 7} {d : Durable} {a : NoteAllocator}
    {v : BitVec 64} {s : Atm} (h : s.Underway g c d a v) :
    s.allocatorEdge = ⟨false, true, d.stock, d.limits, Slice.low v⟩ := by
  rw [Main.allocatorEdge, h.startNoteAllocation, h.amount, ← h.durable]
  rfl

theorem answer_final_first : ∃ ps, (after {} ps).atm.systemState = .communicating ∧
    ∀ qs, qs <+: ps → AnswerFinal {} (after {} qs) := by
  have hN : debounceTime ≤ ({} : Generics).N := by rw [debounceTime_eq]; decide
  obtain ⟨t₁, a, h₁, hs₁, -, hp₁⟩ := exists_unconfigured {} 25
  obtain ⟨t₂, n, w, h₂, -, -, -, hw⟩ := exists_waiting hN hs₁ hp₁ (v := 0) rfl fun _ => 0
  obtain ⟨ps, hps, hrun⟩ := h₁.trans (silent_of_alone (brings_of_calm h₂))
  refine ⟨ps, by rw [after, hrun]; exact hw.state, (answer_final_iff {} ps ?_).mpr ?_⟩
  · exact runs_of_silent hps fun _ t _ hu hl => by simpa [hu.search] using hl.2
  · refine runs_of_silent hps fun _ t he _ ⟨⟨_, _, _, _, hlt⟩, _⟩ => ?_
    have hsearch (d : Denomination) (x : Nat) : searchTime t.atm.allocatorEdge d x = 1 := by
      rw [searchTime, dispensable_of_no_stock he.stock]
      exact if_neg (Nat.not_lt_zero x)
    simp [allocationTime, hsearch] at hlt

/-- With 255 notes of each kind the answer to 1600 is published while the notes of 100 are still
searched for. -/
theorem answer_not_final : ¬ ∀ g ps, AnswerFinal g (after g ps) := by
  intro hall
  have hN : debounceTime ≤ ({} : Generics).N := by rw [debounceTime_eq]; decide
  obtain ⟨t₁, a, h₁, hs₁, ha, hp₁⟩ := Tracked.exists_stocked
  obtain ⟨t₂, h₂, hs₂, hp₂⟩ := exists_typed hs₁ hp₁ 0x0020123400000640
  obtain ⟨w, -, hw⟩ := iterate_waiting (n := 0) hN hs₂ hp₂ (by decide) (fun _ => 0)
    (by rw [debounceTime_eq]; omega)
  obtain ⟨qs, -, hqs⟩ := h₁.trans h₂
  have hfin := hall {} (qs ++ List.replicate 37 (lastPins 25 false 0x0020123400000640))
  rw [after_append, run_replicate, show after {} qs = t₂ from hqs] at hfin
  have hreset : ((clock {} (lastPins 25 false 0x0020123400000640))^[37]
      t₂).resetDebouncer.buttonDeb = false := by
    rw [(iterate_debouncers ..).2.2.1]
    exact (hs₂.reset.iterate 37).buttonDeb
  obtain ⟨hf, -⟩ := hfin hw.state hreset
  rw [allocatorEdge_of_underway hw.toUnderway, hw.allocator, allocating,
    finished_iff (c := a.stopped) rfl rfl rfl ha] at hf
  exact absurd hf (by decide +kernel)

end TopLevel

end AtmController.Frontend
