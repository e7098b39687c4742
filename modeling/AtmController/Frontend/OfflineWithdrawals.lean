import AtmController.Frontend.Boot

namespace AtmController.Frontend

open Clocked

/-- `mark1` to `mark4` are the marks of the cache entries; `offline` is the transaction's. -/
structure Marks where
  offline : Bool := false
  mark1 : Bool := false
  mark2 : Bool := false
  mark3 : Bool := false
  mark4 : Bool := false
  deriving DecidableEq

namespace Marks

def Any (w : Marks) : Prop :=
  w.mark1 = true ∨ w.mark2 = true ∨ w.mark3 = true ∨ w.mark4 = true

/-- The marks move with the entries of `dispenseCache`, and the debited entry is marked when
the backend has no part in it. -/
def dispense (s : Atm) (w : Marks) : Marks :=
  let new := s.cacheMode && w.offline
  if userId s.cache.cache1 = userId s.enInput then { w with mark1 := new || w.mark1 }
  else if userId s.cache.cache2 = userId s.enInput then
    { w with mark1 := new || w.mark2, mark2 := w.mark1 }
  else if userId s.cache.cache3 = userId s.enInput then
    { w with mark1 := new || w.mark3, mark2 := w.mark1, mark3 := w.mark2 }
  else if userId s.cache.cache4 = userId s.enInput then
    { w with mark1 := new || w.mark4, mark2 := w.mark1, mark3 := w.mark2, mark4 := w.mark3 }
  else { w with mark1 := new, mark2 := w.mark1, mark3 := w.mark2, mark4 := w.mark3 }

def refuse (s : Atm) (w : Marks) : Marks :=
  if userId s.cache.cache1 = userId s.enInput then w
  else if userId s.cache.cache2 = userId s.enInput then
    { w with mark1 := w.mark2, mark2 := w.mark1 }
  else if userId s.cache.cache3 = userId s.enInput then
    { w with mark1 := w.mark3, mark2 := w.mark1, mark3 := w.mark2 }
  else { w with mark1 := w.mark4, mark2 := w.mark1, mark3 := w.mark2, mark4 := w.mark3 }

def next (i : AtmEdge) (s : Atm) (w : Marks) : Marks :=
  if i.debouncedReset then w
  else match s.systemState with
    | .ready => { w with offline := false }
    | .communicationLost => { w with offline := true }
    | .dispensingCash =>
      if s.dispensingDoneAlready then w
      else if s.adequateCashInAccount ∧ s.adequateCashInAtm then w.dispense s
      else w.refuse s
    | .updateCache =>
      if s.decryptionOver then
        { w with mark1 := w.mark4, mark2 := false, mark3 := w.mark2, mark4 := w.mark3 }
      else w
    | _ => w

end Marks

def SystemState.Resyncing (q : SystemState) : Prop :=
  q = .communicationRegained ∨ q = .communicateCache ∨ q = .updateCache

structure Tracked where
  top : TopLevel := TopLevel.powerUp
  marks : Marks := {}

namespace Tracked

def powerUp : Tracked := {}

def clock (g : Generics) (p : Pins) (x : Tracked) : Tracked where
  top := x.top.clock g p
  marks := x.marks.next (x.top.edge p) x.top.atm

theorem run_top (g : Generics) (x : Tracked) (ps : List Pins) :
    (run (clock g) x ps).top = run (TopLevel.clock g) x.top ps :=
  run_proj (f := top) (fun _ _ => rfl) x ps

/-- Every offline withdrawal in the cache is either held in cache mode or being written back. -/
def Remembered (x : Tracked) : Prop :=
  x.marks.Any → x.top.atm.cacheMode = true ∨ x.top.atm.systemState.Resyncing

/-- A reset interrupts the write-back of a marked entry. -/
def Forgets (p : Pins) (x : Tracked) : Prop :=
  (x.top.edge p).debouncedReset = true ∧ x.top.atm.systemState.Resyncing ∧ x.marks.Any

end Tracked

/-- What each state knows about the marks. While the cache is written back, as many entries
behind the front are free of marks as have been written. -/
def Main.MarksInv (m : Main) (w : Marks) : Prop :=
  match m.systemState with
  | .ready =>
    (m.cacheMode = true → m.cacheUpdateCount = 0) ∧ (m.cacheMode = false → ¬ w.Any)
  | .communicationRegained | .communicateCache | .updateCache =>
    m.cacheMode = false ∧ (1 ≤ m.cacheUpdateCount → w.mark2 = false) ∧
      (2 ≤ m.cacheUpdateCount → w.mark3 = false) ∧ (3 ≤ m.cacheUpdateCount → w.mark4 = false) ∧
      (4 ≤ m.cacheUpdateCount → w.mark1 = false)
  | _ => m.cacheUpdateCount = 0 ∧ (m.cacheMode = false → ¬ w.Any)

namespace Atm

open Main

variable {g : Generics} {i : AtmEdge} {s : Atm} {w : Marks}

theorem not_any_dispense (hw : ¬ w.Any) (hm : s.cacheMode = false) : ¬ (w.dispense s).Any := by
  simp only [Marks.Any, not_or, Bool.not_eq_true] at hw
  simp only [Marks.dispense, hm, hw, Bool.false_and, Bool.or_false]
  split_ifs <;> simp [Marks.Any]

theorem not_any_refuse (hw : ¬ w.Any) : ¬ (w.refuse s).Any := by
  simp only [Marks.Any, not_or, Bool.not_eq_true] at hw
  simp only [Marks.refuse, hw]
  split_ifs <;> simp [Marks.Any, hw]

theorem next_of_not_reset (hr : i.debouncedReset = false) :
    w.next i s = match s.systemState with
    | .ready => { w with offline := false }
    | .communicationLost => { w with offline := true }
    | .dispensingCash =>
      if s.dispensingDoneAlready then w
      else if s.adequateCashInAccount ∧ s.adequateCashInAtm then w.dispense s
      else w.refuse s
    | .updateCache =>
      if s.decryptionOver then
        { w with mark1 := w.mark4, mark2 := false, mark3 := w.mark2, mark4 := w.mark3 }
      else w
    | _ => w := by
  simp only [Marks.next, hr, Bool.false_eq_true, if_false]

theorem marksInv_clock (hi : s.MarksInv w)
    (hok : ¬ (i.debouncedReset = true ∧ s.systemState.Resyncing ∧ w.Any)) :
    (s.clock g i).MarksInv (w.next i s) := by
  have he := clock_cases g i s
  generalize (s.clock g i).toMain = m at he
  cases he with
  | reset hr =>
    have hw : w.next i s = w := by simp [Marks.next, hr]
    rw [hw]
    simp only [Main.MarksInv, tick, Atm.reset, initVariables]
    cases hs : s.systemState <;> simp_all [Main.MarksInv, SystemState.Resyncing]
  | reconnect hr hc =>
    obtain ⟨hm, -, -, hs⟩ := hc
    rw [next_of_not_reset hr, hs]
    simp only [Main.MarksInv, hs] at hi
    refine ⟨rfl, ?_⟩
    simp [tick, Atm.reconnect, hi.1 hm]
  | branch m hr hc hb =>
    rw [next_of_not_reset hr]
    change m.MarksInv _
    cases hb with
    | ready b l h =>
      simp only [Main.MarksInv, h] at hi ⊢
      cases i.debouncedStart
      · exact ⟨fun _ => trivial, hi.2⟩
      · exact ⟨trivial, hi.2⟩
    | dispense l n k b q h hq hd hu ha =>
      simp only [Main.MarksInv, h, hd, hu, ha] at hi ⊢
      rcases hq with rfl | rfl
      · exact ⟨hi.1, fun hm => not_any_dispense (hi.2 hm) hm⟩
      · exact ⟨hi.1, fun hm => not_any_dispense (hi.2 hm) hm⟩
    | refuse l n k q h hq hd ha =>
      simp only [Main.MarksInv, h, hd, ha] at hi ⊢
      rcases hq with rfl | rfl
      · exact ⟨hi.1, fun hm => not_any_refuse (hi.2 hm)⟩
      · exact ⟨hi.1, fun hm => not_any_refuse (hi.2 hm)⟩
    | dispensed l n k b j q h hq hd =>
      simp only [Main.MarksInv, h, hd] at hi ⊢
      rcases hq with rfl | rfl <;> exact hi
    | loadingCash l n q h hq =>
      simp only [Main.MarksInv, h] at hi ⊢
      rcases hq with rfl | rfl <;> exact hi
    | userNotInCache l n q h hq =>
      simp only [Main.MarksInv, h] at hi ⊢
      rcases hq with rfl | rfl
      · exact hi
      · exact ⟨fun _ => hi.1, hi.2⟩
    | serveFromCache entry h =>
      simp only [Main.MarksInv, h] at hi ⊢
      exact ⟨hi.1, fun hm => Bool.noConfusion hm⟩
    | communicationRegained l h =>
      simp only [Main.MarksInv, h] at hi ⊢
      obtain ⟨hm, h₂, h₃, h₄, h₁⟩ := hi
      by_cases hk : s.cacheUpdateCount = 4
      · simp only [if_pos hk]
        refine ⟨fun h' => Bool.noConfusion h', fun _ => ?_⟩
        simp [Marks.Any, h₁ (by omega), h₂ (by omega), h₃ (by omega), h₄ (by omega)]
      · simp only [if_neg hk]
        split_ifs <;> exact ⟨hm, h₂, h₃, h₄, h₁⟩
    | updateCache l h =>
      simp only [Main.MarksInv, h] at hi ⊢
      obtain ⟨hm, h₂, h₃, h₄, h₁⟩ := hi
      cases s.decryptionOver with
      | false => exact ⟨hm, h₂, h₃, h₄, h₁⟩
      | true =>
        simp only [if_true]
        exact ⟨hm, fun _ => trivial, fun hk => h₂ (by omega), fun hk => h₃ (by omega),
          fun hk => h₄ (by omega)⟩
    | _ =>
      simp only [Main.MarksInv, *] at hi ⊢
      try split_ifs
      all_goals first
        | exact hi
        | exact ⟨fun _ => hi.1, hi.2⟩
end Atm

theorem Main.MarksInv.remembered {m : Main} {w : Marks} (h : m.MarksInv w) (ha : w.Any) :
    m.cacheMode = true ∨ m.systemState.Resyncing := by
  unfold Main.MarksInv at h
  split at h
  · exact .inl (by simpa using fun hm => h.2 hm ha)
  · next hs => exact .inr (.inl hs)
  · next hs => exact .inr (.inr (.inl hs))
  · next hs => exact .inr (.inr (.inr hs))
  · exact .inl (by simpa using fun hm => h.2 hm ha)

namespace Tracked

variable {g : Generics}

abbrev after (g : Generics) (ps : List Pins) : Tracked := run (clock g) powerUp ps

theorem marksInv_powerUp : powerUp.top.atm.MarksInv powerUp.marks :=
  ⟨rfl, fun _ => by simp [powerUp, Marks.Any]⟩

theorem clock_of_reset {x : Tracked} {p : Pins} (hr : (x.top.edge p).debouncedReset = true) :
    (x.clock g p).marks = x.marks ∧ (x.clock g p).top.atm.systemState = .ready ∧
      (x.clock g p).top.atm.cacheMode = x.top.atm.cacheMode := by
  have hm : (x.clock g p).top.atm.toMain = Atm.tick g (x.top.edge p) x.top.atm.reset := by
    simp only [clock, TopLevel.clock, Atm.clock, Atm.mainProcess, hr, if_true]
  refine ⟨by simp [clock, Marks.next, hr], ?_, ?_⟩
  · rw [hm]; rfl
  · rw [hm]; rfl

theorem not_remembered_of_reset {x : Tracked} {p : Pins}
    (hr : (x.top.edge p).debouncedReset = true) (hm : x.top.atm.cacheMode = false)
    (ha : x.marks.Any) : ¬ (x.clock g p).Remembered := by
  obtain ⟨hw, hst, hcm⟩ := clock_of_reset (g := g) hr
  intro hrem
  rcases hrem (by rw [hw]; exact ha) with h | h
  · rw [hcm, hm] at h
    exact Bool.noConfusion h
  · simp [hst, SystemState.Resyncing] at h

theorem Forgets.not_remembered {x : Tracked} {p : Pins} (h : x.Forgets p)
    (hi : x.top.atm.MarksInv x.marks) : ¬ (x.clock g p).Remembered := by
  obtain ⟨hr, hs, ha⟩ := h
  refine not_remembered_of_reset hr ?_ ha
  unfold Main.MarksInv at hi
  rcases hs with hs | hs | hs <;> (simp only [hs] at hi; exact hi.1)

/-- The offline withdrawals are remembered in every state of a run exactly when no edge of it
resets the ATM while a marked entry is being written back. -/
theorem remembered_iff (g : Generics) (ps : List Pins) :
    (∀ qs, qs <+: ps → (after g qs).Remembered) ↔
      Runs (clock g) (fun p x => ¬ x.Forgets p) powerUp ps :=
  forall_prefix_iff_runs (P := Remembered)
    (Q := fun x : Tracked => x.top.atm.MarksInv x.marks) (fun _ h => h.remembered)
    (fun _ _ h hok => Atm.marksInv_clock h hok)
    (fun _ _ h hn => Forgets.not_remembered (not_not.mp hn) h) marksInv_powerUp ps

/-! ### A forgotten withdrawal -/

theorem iterate_top (g : Generics) (p : Pins) (n : Nat) (x : Tracked) :
    ((clock g p)^[n] x).top = (TopLevel.clock g p)^[n] x.top := by
  rw [← run_replicate, run_top, run_replicate]

theorem hold {Q : Atm → Marks → Prop} {b : Buttons} {x : Tracked} (h : x.top.Settled b) (p : Pins)
    (hfirst : Q (x.top.atm.clock g (b.edge p)) (x.marks.next (b.edge p) x.top.atm))
    (hstep : ∀ s w, Q s w → Q (s.clock g (b.edge p)) (w.next (b.edge p) s)) :
    ((clock g p)^[debounceTime] x).top.Settled p.buttons ∧
      Q ((clock g p)^[debounceTime] x).top.atm ((clock g p)^[debounceTime] x).marks := by
  have hn : ∀ n, n + 1 ≤ debounceTime →
      Q ((clock g p)^[n + 1] x).top.atm ((clock g p)^[n + 1] x).marks := by
    intro n
    induction n with
    | zero =>
      intro _
      rw [← h.edge p] at hfirst
      exact hfirst
    | succ n ih =>
      intro hn
      rw [Function.iterate_succ_apply']
      have hs := hstep _ _ (ih (by omega))
      rw [← h.edge_iterate (g := g) (p := p) (n := n + 1) (by omega), ← iterate_top] at hs
      exact hs
  constructor
  · rw [iterate_top]
    exact h.turn p
  · have hlast := hn (debounceTime - 1) (by rw [debounceTime_eq])
    rwa [Nat.sub_add_cancel (by rw [debounceTime_eq]; omega)] at hlast

end Tracked

namespace Atm

open Main

variable {g : Generics} {i : AtmEdge} {s : Atm} {w : Marks}

structure Withdrawn (s : Atm) (w : Marks) : Prop where
  cacheMode : s.cacheMode = true
  cacheUpdateCount : s.cacheUpdateCount = 0
  mark : w.mark1 = true
  state : s.systemState = .dummy ∨
    s.systemState = .dispensingCash ∧ s.dispensingDoneAlready = true

theorem Withdrawn.clock (h : Withdrawn s w) (hr : i.debouncedReset = false)
    (hd : i.debouncedDone = false) : Withdrawn (s.clock g i) (w.next i s) := by
  have hm := clock_of_not_ready (g := g) hr (s := s) (by rcases h.state with h | ⟨h, -⟩ <;> simp [h])
  rcases h.state with hs | ⟨hs, hdone⟩
  · simp only [branch, hs, dummy, hd, Bool.false_eq_true, if_false] at hm
    refine ⟨?_, ?_, ?_, .inl ?_⟩
    · rw [hm]; exact h.cacheMode
    · rw [hm]; exact h.cacheUpdateCount
    · rw [next_of_not_reset hr, hs]; exact h.mark
    · rw [hm]; exact hs
  · have hb := branch_dispensingCash (g := g) (i := i) hs
    simp only [branch, hs] at hm
    generalize s.dispensingCash g = m at hb hm
    have hw : w.next i s = w := by
      rw [next_of_not_reset hr, hs]
      simp [hdone]
    cases hb with
    | dispensed l n k b j q _ hq =>
      refine ⟨?_, ?_, by rw [hw]; exact h.mark, ?_⟩
      · rw [hm]; exact h.cacheMode
      · rw [hm]; exact h.cacheUpdateCount
      · rcases hq with rfl | rfl
        · exact .inr ⟨by rw [hm]; rfl, by rw [hm]; exact hdone⟩
        · exact .inl (by rw [hm]; rfl)
    | _ => simp_all

structure WritingBack (s : Atm) (w : Marks) : Prop where
  cacheMode : s.cacheMode = false
  cacheUpdateCount : s.cacheUpdateCount = 0
  mark : w.mark1 = true
  state : s.systemState = .communicationRegained ∧
      (s.startEncrypt = true → s.checksumForBackendResponse = 0) ∨
    s.systemState = .communicateCache ∧ s.checksumForBackendResponse = 0

theorem WritingBack.clock (h : WritingBack s w) (hr : i.debouncedReset = false)
    (hv : i.h2fValid = false) : WritingBack (s.clock g i) (w.next i s) := by
  have hm := clock_of_not_ready (g := g) hr (s := s) (by rcases h.state with h | h <;> simp [h.1])
  have hw : w.next i s = w := by
    rw [next_of_not_reset hr]
    rcases h.state with ⟨hs, -⟩ | ⟨hs, -⟩ <;> simp [hs]
  rcases h.state with ⟨hs, hc⟩ | ⟨hs, hc⟩
  · have hb := branch_communicationRegained (g := g) (i := i) hs
    simp only [branch, hs] at hm
    generalize s.communicationRegained g = m at hb hm
    cases hb with
    | communicationRegained l _ =>
      have hck : (s.clock g i).checksumForBackendResponse = 0 := by
        rw [hm]
        simp only [tick]
        split_ifs with he
        · exact hc he
        · rfl
      refine ⟨?_, by rw [hm]; exact h.cacheUpdateCount, by rw [hw]; exact h.mark, ?_⟩
      · rw [hm]
        simp only [tick, h.cacheUpdateCount]
        exact h.cacheMode
      · cases ho : s.encryptionOver with
        | false => exact .inl ⟨by rw [hm]; simp [tick, h.cacheUpdateCount, ho], fun _ => hck⟩
        | true => exact .inr ⟨by rw [hm]; simp [tick, h.cacheUpdateCount, ho], hck⟩
    | _ => simp_all
  · simp only [branch, hs, communicateCache, Main.collect_of_not_valid _ _ _ hv] at hm
    have hf : (s.toMain.blink g 0 (0b10101010 : BitVec 8)).checksumForBackendResponse
        ≠ 0b11111111 := by
      change s.checksumForBackendResponse ≠ _
      rw [hc]
      decide
    rw [if_neg hf] at hm
    exact ⟨by rw [hm]; exact h.cacheMode, by rw [hm]; exact h.cacheUpdateCount,
      by rw [hw]; exact h.mark, .inr ⟨by rw [hm]; exact hs, by rw [hm]; exact hc⟩⟩

theorem Pending.withdrawn {c : BitVec 7} {d : Durable} {a : NoteAllocator} {v : BitVec 64}
    (h : Pending g c { d with cacheMode := true } a v s) (hs : s.systemState = .dispensingCash)
    (ha : a.systemState = .finished) (hr : i.debouncedReset = false)
    (hacc : s.adequateCashInAccount = true) (hatm : s.adequateCashInAtm = true)
    (hw : w.offline = true) (hc : userId s.cache.cache1 = userId s.enInput) :
    Withdrawn (s.clock g i) (w.next i s) := by
  have hcm : s.cacheMode = true := congrArg Durable.cacheMode h.durable
  have hmark : (w.next i s).mark1 = true := by
    rw [next_of_not_reset hr, hs]
    simp [h.notDispensed, hacc, hatm, Marks.dispense, hc, hcm, hw]
  have hout : s.outcome.cacheMode = true := by
    rw [outcome, if_pos ⟨hacc, hatm⟩]
    exact hcm
  rcases h.dispense hs ha hr with ho | ho
  · exact ⟨(congrArg Durable.cacheMode ho.durable).trans hout, ho.cacheUpdateCount, hmark,
      .inl ho.state⟩
  · exact ⟨(congrArg Durable.cacheMode ho.durable).trans hout, ho.cacheUpdateCount, hmark,
      .inr ⟨ho.state, ho.done⟩⟩

structure HeldBack (c : BitVec 7) (s : Atm) (w : Marks) : Prop where
  cacheMode : s.cacheMode = true
  cacheUpdateCount : s.cacheUpdateCount = 0
  mark : w.mark1 = true
  state : s.systemState = .ready
  addr : s.prevChanAddr = c

theorem heldBack_clock {c : BitVec 7} (hr : i.debouncedReset = true) (ha : i.chanAddr = c)
    (hcm : s.cacheMode = true) (hk : s.cacheUpdateCount = 0) (hm : w.mark1 = true) :
    HeldBack c (s.clock g i) (w.next i s) := by
  have hmain : (s.clock g i).toMain = tick g i s.reset := by
    simp only [Atm.clock, Atm.mainProcess, hr, if_true]
  refine ⟨?_, ?_, by simpa [Marks.next, hr] using hm, ?_, ?_⟩
  · rw [hmain]; exact hcm
  · rw [hmain]; exact hk
  · rw [hmain]; rfl
  · rw [hmain]; exact ha

theorem HeldBack.reconnect {c : BitVec 7} (h : HeldBack c s w) (hr : i.debouncedReset = false)
    (ha : i.chanAddr = 0) (hc : c ≠ 0) : WritingBack (s.clock g i) (w.next i s) := by
  have hrec : s.Reconnects i := ⟨h.cacheMode, ha, by rw [h.addr, ha]; exact hc, h.state⟩
  have hmain : (s.clock g i).toMain = tick g i s.reconnect := by
    simp only [Atm.clock, Atm.mainProcess, hr, hrec, if_true, Bool.false_eq_true, if_false]
  refine ⟨?_, ?_, ?_, .inl ⟨?_, fun he => ?_⟩⟩
  · rw [hmain]; rfl
  · rw [hmain]; exact h.cacheUpdateCount
  · rw [next_of_not_reset hr, h.state]; exact h.mark
  · rw [hmain]; rfl
  · rw [hmain] at he; exact Bool.noConfusion he

end Atm

namespace Tracked

open TopLevel Atm

def stocked : Durable :=
  { booted 0xffffffffffffffff with
    stock := noteBytes 0xffffffff
    cache := ⟨0x00201234000003e8, 0, 0, 0⟩ }

theorem exists_stocked : ∃ u a, Leads {} TopLevel.powerUp u ∧ u.Settled {} ∧
    a.binarysearchStart = false ∧ u.atm.Parked {} 25 stocked a := by
  have hN : debounceTime ≤ ({} : Generics).N := by rw [debounceTime_eq]; decide
  obtain ⟨t₂, h₂, hs₂, hp₂⟩ := exists_filled
  obtain ⟨t₃, n₃, w₃, h₃, hs₃, hn₃, hw₃, hp₃⟩ := exists_waiting (v := 0x0020123400001000) hN hs₂ hp₂
    (by decide) (Slice.byte (encipher 1000))
  have hf₃ := allocating_finished (v := 0x0020123400001000) (d := filled) filledAllocator_search hn₃
  obtain ⟨t₄, h₄, hs₄, hp₄⟩ := exists_settling (b := 2) hs₃ hp₃ hf₃.state (by decide) (by omega)
  obtain ⟨t₅, h₅, hs₅, hp₅⟩ := exists_over hs₄ hp₄.toPending hp₄.state hf₃.state
  have hcache : t₄.atm.outcome = stocked := by
    have hca : t₄.atm.cache = ⟨0, 0, 0, 0⟩ := congrArg Durable.cache hp₄.durable
    have hcm : t₄.atm.cacheMode = false := congrArg Durable.cacheMode hp₄.durable
    rw [outcome, if_neg (by simp [hp₄.account]), hp₄.durable]
    simp only [refuseCache, frontRecord, hca, hcm, hp₄.enInput, hp₄.deOutput, decipher_encipher]
    decide
  rw [hcache] at hp₅
  obtain ⟨t₆, h₆, hs₆, hp₆⟩ := exists_parked hs₅ hp₅ hf₃.state
  exact ⟨t₆, _, ((((leads_of_reaches h₂).trans h₃).trans h₄).trans h₅).trans h₆, hs₆,
    hf₃.search, hp₆⟩

def spent : Durable :=
  { stocked with
    stock := ⟨255, 255, 255, 254⟩
    cache := ⟨0x0020123400000384, 0, 0, 0⟩
    cacheMode := true }

theorem exists_spent : ∃ u a, Leads {} TopLevel.powerUp u ∧ u.Settled {} ∧
    a.binarysearchStart = false ∧ u.atm.Parked {} 25 spent a := by
  have hN : debounceTime ≤ ({} : Generics).N := by rw [debounceTime_eq]; decide
  obtain ⟨t₁, a, h₁, hs₁, ha, hp₁⟩ := exists_stocked
  obtain ⟨t₂, n, h₂, hs₂, hn, hp₂, hq₂, hacc⟩ := exists_served (v := 0x0020123400000064) hN hs₁ hp₁
    ha (by decide) (by decide)
  have hfin := allocating_finished (d := stocked) (v := 0x0020123400000064) ha hn
  have hout : t₂.atm.outcome = spent := by
    have hst : t₂.atm.stock = stocked.stock := congrArg Durable.stock hp₂.durable
    have hca : t₂.atm.cache = stocked.cache := congrArg Durable.cache hp₂.durable
    have hcm : t₂.atm.cacheMode = true := congrArg Durable.cacheMode hp₂.durable
    have hatm : t₂.atm.adequateCashInAtm = true := by
      rw [adequateCashInAtm, hp₂.allocator, hfin.allocationPossible]
      decide
    have hdeb : t₂.atm.dispenseCache = spent.cache := by
      simp only [dispenseCache, frontRecord, hca, hcm, hp₂.enInput, if_true]
      rw [if_pos (by decide)]
      decide
    rw [outcome, if_pos ⟨hacc.trans (by decide), hatm⟩, hp₂.durable, hdeb]
    simp only [removeNotes, allocated, hst, hp₂.allocator, hfin.out]
    decide
  obtain ⟨t₃, h₃, hs₃, hp₃⟩ := exists_over hs₂ hp₂ hq₂ hfin.state
  rw [hout] at hp₃
  obtain ⟨t₄, h₄, hs₄, hp₄⟩ := exists_parked hs₃ hp₃ hfin.state
  exact ⟨t₄, _, ((h₁.trans h₂).trans h₃).trans h₄, hs₄, hfin.search, hp₄⟩

/-- A user who has 1000 in the cache withdraws 100 offline; a reset that is debounced just after
the reconnection leaves the debit in the cache, out of cache mode. -/
theorem withdrawal_forgotten : ¬ ∀ g ps, (after g ps).Remembered := by
  intro hall
  have hN : debounceTime ≤ ({} : Generics).N := by rw [debounceTime_eq]; decide
  obtain ⟨t₆, a, h₆, hs₆, ha, hp₆⟩ := exists_stocked
  -- without the host the user withdraws out of the cache
  obtain ⟨t₇, n₇, w₇, h₇, hs₇, hn₇, hw₇, hp₇⟩ := exists_waiting (v := 0x0020123400000064) hN hs₆
    hp₆ (by decide) fun _ => 0
  have hf₇ := allocating_finished (d := stocked) (v := 0x0020123400000064) ha hn₇
  obtain ⟨t₈, h₈, hs₈, hp₈⟩ := exists_lost hs₇ hp₇ hf₇.state (by omega)
  obtain ⟨ps, -, hps⟩ := (h₆.trans h₇).trans (h₈ false)
  obtain ⟨x, hx, hxt⟩ : ∃ x, x = after {} ps ∧ x.top = t₈ := ⟨_, rfl, by rw [run_top]; exact hps⟩
  rw [← hxt] at hs₈ hp₈
  have hca : x.top.atm.cache.cache1 = 0x00201234000003e8 :=
    congrArg (fun d => d.cache.cache1) hp₈.durable
  have hhit : x.top.atm.communicationLost = x.top.atm.serveFromCache x.top.atm.cache.cache1 := by
    rw [Atm.communicationLost, if_pos (by rw [hp₈.enInput, hca]; decide)]
  obtain ⟨hp₉, hdis, hacc⟩ := hp₈.serve (i := Buttons.edge {} (idlePins 25 {} 0)) rfl hhit
  rw [NoteAllocator.clock_finished rfl rfl hf₇.state] at hp₉
  obtain ⟨hs₉, hat₉⟩ := hs₈.step (g := {}) (p := idlePins 25 {} 0) rfl
  have hoff : (clock {} (idlePins 25 {} 0) x).marks.offline = true := by
    change (x.marks.next (x.top.edge _) x.top.atm).offline = true
    rw [hs₈.edge, Marks.next, hp₈.state]
    rfl
  have hwd : Withdrawn (clock {} (idlePins 25 {} 0) (clock {} (idlePins 25 {} 0) x)).top.atm
      (clock {} (idlePins 25 {} 0) (clock {} (idlePins 25 {} 0) x)).marks := by
    have hca₉ : (x.top.atm.clock {} (Buttons.edge {} (idlePins 25 {} 0))).cache.cache1 =
      0x00201234000003e8 := congrArg (fun d => d.cache.cache1) hp₉.durable
    have hatm : (x.top.atm.clock {} (Buttons.edge {} (idlePins 25 {} 0))).adequateCashInAtm =
        true := by
      rw [adequateCashInAtm, hp₉.allocator, hf₇.allocationPossible]
      decide
    have hone := hp₉.withdrawn (i := Buttons.edge {} (idlePins 25 {} 0)) hdis hf₇.state rfl
      (hacc.trans (by rw [hca]; decide)) hatm hoff (by rw [hca₉, hp₉.enInput]; decide)
    rw [← hat₉, ← hs₉.edge (idlePins 25 {} 0)] at hone
    exact hone
  obtain ⟨hs₁₀, -⟩ := hs₉.step (g := {}) (p := idlePins 25 {} 0) rfl
  generalize hz : clock {} (idlePins 25 {} 0) (clock {} (idlePins 25 {} 0) x) = z at hwd
  have hs₁₀ : z.top.Settled {} := by rw [← hz]; exact hs₁₀
  -- the reset is held until it is debounced, released, and held once more
  have hreset := hold (g := {}) (Q := Withdrawn) hs₁₀ (idlePins 25 { reset := true } 0)
    (hwd.clock rfl rfl) fun _ _ hs => hs.clock rfl rfl
  have hrelease := hold (g := {}) (Q := HeldBack 25) hreset.1 (idlePins 25 {} 0)
    (heldBack_clock rfl rfl hreset.2.cacheMode hreset.2.cacheUpdateCount hreset.2.mark)
    fun _ _ hs => heldBack_clock rfl rfl hs.cacheMode hs.cacheUpdateCount hs.mark
  have hagain := hold (g := {}) (Q := WritingBack) hrelease.1 (idlePins 0 { reset := true } 0)
    (hrelease.2.reconnect rfl rfl (by decide)) fun _ _ hs => hs.clock rfl rfl
  generalize hy : (clock {} (idlePins 0 { reset := true } 0))^[debounceTime]
    ((clock {} (idlePins 25 {} 0))^[debounceTime]
      ((clock {} (idlePins 25 { reset := true } 0))^[debounceTime] z)) = y at hagain
  have hrun : ∀ n, ∃ qs, after {} qs = clock {} (idlePins 0 {} 0)
      ((clock {} (idlePins 0 { reset := true } 0))^[n] ((clock {} (idlePins 25 {} 0))^[n]
        ((clock {} (idlePins 25 { reset := true } 0))^[n] z))) := by
    intro n
    refine ⟨ps ++ [idlePins 25 {} 0, idlePins 25 {} 0] ++
      List.replicate n (idlePins 25 { reset := true } 0) ++ List.replicate n (idlePins 25 {} 0) ++
      List.replicate n (idlePins 0 { reset := true } 0) ++ [idlePins 0 {} 0], ?_⟩
    simp only [after, run_append, run_replicate]
    rw [← hz, hx]
    rfl
  obtain ⟨qs, hqs⟩ := hrun debounceTime
  rw [hy] at hqs
  have hlast := hall {} qs
  rw [hqs] at hlast
  exact not_remembered_of_reset (by rw [hagain.1.edge]; rfl) hagain.2.cacheMode
    (.inl hagain.2.mark) hlast

end Tracked

end AtmController.Frontend
