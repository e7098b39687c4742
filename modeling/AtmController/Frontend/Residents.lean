import AtmController.Frontend.CachedLimits

namespace AtmController.Frontend

open Clocked Slice MoveToFront

/-- `status` and `channels` are what has arrived for the transaction, `online` tells whether that
was an answer. The users of all answered transactions are `validated`, and `used` marks the
entries of the cache that are not the empty ones of power-up. -/
structure Answers where
  status : Bool := false
  channels : List Nat := []
  online : Bool := false
  validated : List (BitVec 32) := []
  used : List Bool := [false, false, false, false]

namespace Answers

def next (i : AtmEdge) (s : Atm) (w : Answers) : Answers :=
  if i.debouncedReset then w
  else match s.systemState with
    | .encrypt => { w with status := false, channels := [] }
    | .communicating =>
      { w with
        status := w.status || (i.h2fValid && i.chanAddr = 9 && (i.h2fData = 1 || i.h2fData = 2))
        channels := if i.h2fValid then i.chanAddr.toNat :: w.channels else w.channels }
    | .decrypt => { w with online := w.status && decide (∀ k < 8, 10 + k ∈ w.channels) }
    | .communicationLost => { w with online := false }
    | .dispensingCash =>
      if s.dispensingDoneAlready then w
      else
        { w with
          validated := if w.online then high s.enInput :: w.validated else w.validated
          used := true :: w.used.eraseIdx (victim s.sameId s.cache.toList) }
    | .updateCache =>
      if s.decryptionOver then { w with used := w.used.drop 3 ++ w.used.take 3 } else w
    | _ => w

structure Blank (w : Answers) : Prop where
  status : w.status = false
  online : w.online = false
  validated : w.validated = []

theorem Blank.next {i : AtmEdge} {s : Atm} {w : Answers} (h : w.Blank) (hv : i.h2fValid = false) :
    (w.next i s).Blank := by
  obtain ⟨hs, ho, hl⟩ := h
  rw [Answers.next]
  split
  · exact ⟨hs, ho, hl⟩
  cases s.systemState with
  | encrypt => exact ⟨rfl, ho, hl⟩
  | communicating => exact ⟨by simp [hs, hv], ho, hl⟩
  | decrypt => exact ⟨hs, by simp [hs], hl⟩
  | communicationLost => exact ⟨hs, rfl, hl⟩
  | dispensingCash =>
    dsimp only
    split
    · exact ⟨hs, ho, hl⟩
    · exact ⟨hs, ho, by simp [ho, hl]⟩
  | updateCache =>
    dsimp only
    split
    · exact ⟨hs, ho, hl⟩
    · exact ⟨hs, ho, hl⟩
  | _ => exact ⟨hs, ho, hl⟩

end Answers

def Cache.Validated (c : Cache) (w : Answers) : Prop :=
  List.Forall₂ (fun used entry => used = true → high entry ∈ w.validated) w.used c.toList

def Main.AnswersInv (m : Main) (w : Answers) : Prop :=
  match m.systemState with
  | .communicating =>
    ∀ k < 8, m.checksumForBackendResponse.getLsbD k = true → 10 + k ∈ w.channels
  | .decrypt => ∀ k < 8, 10 + k ∈ w.channels
  | .dispensingCash =>
    m.dispensingDoneAlready = false → w.online = true ∨ high m.enInput ∈ w.validated
  | _ => True

def Main.GrantsInv (m : Main) (w : Answers) : Prop :=
  match m.systemState with
  | .takingInput | .noteAllocation | .encrypt => m.adequateCashInAccount = false
  | .communicating | .decrypt => m.adequateCashInAccount = true → w.status = true
  | _ => True

namespace Atm

open Main

variable {g : Generics} {i : AtmEdge} {s : Atm} {w : Answers}

/-- A full reply without a status byte is taken for a refusal. -/
def TakesUnanswered (s : Atm) (w : Answers) : Prop :=
  s.systemState = .decrypt ∧ s.decryptionOver = true ∧ s.userIsAdmin = false ∧ w.status = false

/-- The first entry with the user's ID and PIN is an empty one of power-up. -/
def ServesEmptySlot (s : Atm) (w : Answers) : Prop :=
  s.systemState = .communicationLost ∧ ∃ entry,
    (w.used.zip s.cache.toList).find? (fun y => high s.enInput = high y.2) = some (false, entry)

theorem validated_of_lookup {entry : BitVec 64} (h : s.cache.Validated w)
    (hs : s.systemState = .communicationLost) (he : ¬ s.ServesEmptySlot w)
    (hl : s.lookup = some entry) : high s.enInput ∈ w.validated := by
  obtain ⟨used, hz, hv⟩ := find?_zip h hl
  have hhigh : high s.enInput = high entry := by simpa using List.find?_some hl
  cases used with
  | false => exact absurd ⟨hs, entry, hz⟩ he
  | true => exact hhigh ▸ hv rfl

theorem exists_lookup_of_served (hs : s.systemState = .communicationLost)
    (hn : (s.clock g i).systemState = .dispensingCash) : ∃ entry, s.lookup = some entry := by
  have hm := clock_of_not_ready (g := g) (i := i)
    (reset_of_not_ready (g := g) (s := s) (by rw [hn]; decide)) (s := s) (by simp [hs])
  simp only [branch, hs, communicationLost_eq] at hm
  rw [hm] at hn
  cases hl : s.lookup with
  | none => rw [hl] at hn; exact SystemState.noConfusion hn
  | some entry => exact ⟨entry, rfl⟩

theorem used_clock {R : Bool → BitVec 32 → Prop}
    (h : List.Forall₂ (fun used entry => R used (high entry)) w.used s.cache.toList)
    (hfront : i.debouncedReset = false → s.systemState = .dispensingCash →
      s.dispensingDoneAlready = false → R true (high s.enInput)) :
    List.Forall₂ (fun used entry => R used (high entry)) (w.next i s).used
      (s.clock g i).cache.toList := by
  rw [clock_cache, nextCache, Answers.next]
  split
  · exact h
  next hr =>
  cases hs : s.systemState with
  | dispensingCash =>
    cases hd : s.dispensingDoneAlready with
    | true => exact h
    | false =>
      have hrecord (x : BitVec 32) : R true (high (s.frontRecord x)) := by
        rw [frontRecord, high_join]
        exact hfront (by simpa using hr) hs hd
      simp only [Bool.false_eq_true, if_false]
      split
      · rw [dispenseCache_toList]
        exact forall₂_touch h (hrecord _)
      · rw [refuseCache_toList]
        exact forall₂_touch h (hrecord _)
  | updateCache =>
    cases hd : s.decryptionOver with
    | false => exact h
    | true =>
      have hrot : List.Forall₂ (fun used entry => R used (high entry)) w.used
          [join (high s.cache.cache1) (low s.deOutput), s.cache.cache2, s.cache.cache3,
            s.cache.cache4] := by
        obtain ⟨used, us, h₁, hrest, hus⟩ := List.forall₂_cons_right_iff.mp h
        rw [hus]
        exact .cons (by rwa [high_join]) hrest
      exact List.rel_append (List.forall₂_drop 3 hrot) (List.forall₂_take 3 hrot)
  | _ => exact h

theorem validated_next {x : BitVec 32} (h : x ∈ w.validated) : x ∈ (w.next i s).validated := by
  rw [Answers.next]
  split
  · exact h
  cases s.systemState with
  | dispensingCash =>
    dsimp only
    split
    · exact h
    · dsimp only
      split
      · exact List.mem_cons_of_mem _ h
      · exact h
  | updateCache => dsimp only; split <;> exact h
  | _ => exact h

theorem validated_clock (h : s.cache.Validated w) (hi : s.AnswersInv w) :
    (s.clock g i).cache.Validated (w.next i s) := by
  refine used_clock (R := fun used x => used = true → x ∈ (w.next i s).validated)
    (h.imp fun used entry hu ht => validated_next (hu ht)) fun hr hs hd _ => ?_
  simp only [Main.AnswersInv, hs, hd, true_imp_iff] at hi
  rcases hi with ho | hm
  · simp [Answers.next, hr, hs, hd, ho]
  · exact validated_next hm

theorem answersInv_clock (hf : s.FreshInv) (h : s.cache.Validated w) (hi : s.AnswersInv w)
    (ht : ¬ s.TakesUnanswered w) (he : ¬ s.ServesEmptySlot w) :
    (s.clock g i).AnswersInv (w.next i s) := by
  by_cases hlost : s.systemState = .communicationLost ∧ i.debouncedReset = false
  · have hm := clock_of_not_ready (g := g) hlost.2 (s := s) (by simp [hlost.1])
    simp only [branch, hlost.1, communicationLost_eq] at hm
    rw [hm]
    cases hl : s.lookup with
    | none => trivial
    | some entry =>
      intro _
      simp only [Answers.next, hlost.2, hlost.1, Bool.false_eq_true, if_false]
      exact .inr (validated_of_lookup h hlost.1 he hl)
  have hc := clock_cases g i s
  generalize (s.clock g i).toMain = m at hc
  cases hc with
  | reset hr => trivial
  | reconnect hr hc => trivial
  | branch m hr hc hb =>
    change m.AnswersInv _
    cases hb with
    | encrypt l hs =>
      simp only [Main.FreshInv, hs] at hf
      simp only [Main.AnswersInv]
      split_ifs
      · simp [hf.1]
      · trivial
      · trivial
    | communicating l a u r c t hs _ hcol =>
      simp only [Main.AnswersInv, hs] at hi
      have hbits : ∀ k < 8, c.getLsbD k = true → 10 + k ∈ (w.next i s).channels := by
        intro k hk hck
        have hchk := (collect_status i s.toMain).2
        rw [hcol] at hchk
        rw [show c = _ from hchk, Main.getLsbD_collect 10 i s.toMain hk] at hck
        simp only [Answers.next, hr, hs, Bool.false_eq_true, if_false]
        split at hck
        · next hv => simp [hv.1, hv.2]
        · split
          · exact List.mem_cons_of_mem _ (hi k hk hck)
          · exact hi k hk hck
      simp only [Main.AnswersInv]
      split_ifs with h31 hF hI
      · trivial
      · intro k hk
        refine hbits k hk ?_
        rw [hF]
        revert k
        decide
      · trivial
      · exact hbits
    | decrypt l hs =>
      simp only [Main.AnswersInv, hs] at hi
      simp only [Main.AnswersInv, Answers.next, hr, hs, Bool.false_eq_true, if_false]
      split_ifs with hd ha
      · trivial
      · refine fun _ => .inl ?_
        have hst : w.status = true := by
          by_contra hst
          exact ht ⟨hs, hd, by simpa using ha, by simpa using hst⟩
        rw [hst, Bool.true_and]
        exact decide_eq_true hi
      · exact hi
    | loadingCash l n q hs hq => rcases hq with rfl | rfl <;> trivial
    | dispense l n k b q hs hq =>
      rcases hq with rfl | rfl
      · exact fun hd => Bool.noConfusion hd
      · trivial
    | refuse l n k q hs hq =>
      rcases hq with rfl | rfl
      · exact fun hd => Bool.noConfusion hd
      · trivial
    | dispensed l n k b j q hs hq hd =>
      rcases hq with rfl | rfl
      · exact fun hd' => Bool.noConfusion (hd.symm.trans hd')
      · trivial
    | userNotInCache l n q hs hq => rcases hq with rfl | rfl <;> trivial
    | serveFromCache entry hs => exact absurd ⟨hs, hr⟩ hlost
    | _ =>
      simp only [Main.AnswersInv, *]
      try split_ifs
      all_goals trivial

def EmptySlots (s : Atm) (w : Answers) : Prop :=
  List.Forall₂ (fun used entry => used = false → high entry = 0) w.used s.cache.toList

theorem emptySlots_powerUp : Atm.powerUp.EmptySlots {} := by
  change List.Forall₂ _ [false, false, false, false] [0, 0, 0, 0]
  simp [high]

theorem emptySlots_clock (h : s.EmptySlots w) : (s.clock g i).EmptySlots (w.next i s) :=
  used_clock (R := fun used x => used = false → x = 0) h fun _ _ _ => Bool.noConfusion

theorem ServesEmptySlot.high_eq_zero (he : s.ServesEmptySlot w) (h : s.EmptySlots w) :
    high s.enInput = 0 := by
  obtain ⟨-, entry, hz⟩ := he
  have hhigh : high s.enInput = high entry := by simpa using List.find?_some hz
  rw [hhigh]
  exact (List.forall₂_iff_zip.mp h).2 (List.mem_of_find?_eq_some hz) rfl

theorem grantsInv_clock (h : s.GrantsInv w) : (s.clock g i).GrantsInv (w.next i s) := by
  have hc := clock_cases g i s
  generalize (s.clock g i).toMain = m at hc
  cases hc with
  | reset hr => trivial
  | reconnect hr hc => trivial
  | branch m hr hc hb =>
    change m.GrantsInv _
    cases hb with
    | ready b l hs => simp only [Main.GrantsInv]; cases i.debouncedStart <;> trivial
    | encrypt l hs =>
      simp only [Main.GrantsInv, hs] at h ⊢
      split_ifs
      · exact fun ha => absurd (h.symm.trans ha) Bool.noConfusion
      · trivial
      · exact h
    | communicating l a u r c t hs _ hcol =>
      simp only [Main.GrantsInv, hs] at h
      have ha : a = true → (w.next i s).status = true := by
        intro ha
        have hst : (status i s.toMain).adequateCashInAccount = a := by
          obtain ⟨r', c', hc'⟩ := exists_collect 10 i (status i s.toMain)
          rw [hc'] at hcol
          exact congrArg Main.adequateCashInAccount hcol
        simp only [Answers.next, hr, hs, Bool.false_eq_true, if_false, Bool.or_eq_true]
        rw [status] at hst
        split_ifs at hst with hc h₁ h₂ h₃ h₄
        · exact .inr (by simp [hc, h₁])
        · exact absurd (hst.trans ha) Bool.noConfusion
        · exact .inl (h (hst.trans ha))
        · exact .inl (h (hst.trans ha))
        · exact .inl (h (hst.trans ha))
        · exact .inl (h (hst.trans ha))
      simp only [Main.GrantsInv]
      split_ifs
      · trivial
      · exact ha
      · trivial
      · exact ha
    | decrypt l hs =>
      simp only [Main.GrantsInv, hs] at h ⊢
      split_ifs
      · trivial
      · trivial
      · simpa [Answers.next, hr, hs] using h
    | loadingCash l n q hs hq => rcases hq with rfl | rfl <;> trivial
    | dispense l n k b q hs hq => rcases hq with rfl | rfl <;> trivial
    | refuse l n k q hs hq => rcases hq with rfl | rfl <;> trivial
    | dispensed l n k b j q hs hq => rcases hq with rfl | rfl <;> trivial
    | userNotInCache l n q hs hq => rcases hq with rfl | rfl <;> trivial
    | _ =>
      simp only [Main.GrantsInv, *] at h ⊢
      try split_ifs
      all_goals trivial

end Atm

namespace TopLevel

open Atm

variable {g : Generics}

abbrev answered (g : Generics) : Pins → TopLevel × Answers → TopLevel × Answers :=
  ghost (clock g) fun p t => Answers.next (t.edge p) t.atm

def ServesValidated (g : Generics) (p : Pins) (x : TopLevel × Answers) : Prop :=
  x.1.atm.systemState = .communicationLost →
    (clock g p x.1).atm.systemState = .dispensingCash → high x.1.atm.enInput ∈ x.2.validated

/-- In every run in which no reply without a status byte is taken and nobody is served from an
empty entry, only validated users are served without the host. -/
theorem offline_service_validated (g : Generics) (ps : List Pins)
    (h : Runs (answered g) (fun _ x => ¬ x.1.atm.TakesUnanswered x.2 ∧
      ¬ x.1.atm.ServesEmptySlot x.2) (powerUp, {}) ps) :
    Runs (answered g) (ServesValidated g) (powerUp, {}) ps := by
  refine h.strengthen (P := fun x => x.1.atm.FreshInv ∧ x.1.atm.cache.Validated x.2 ∧
    x.1.atm.AnswersInv x.2) ?_ ⟨trivial, ?_, trivial⟩
  · rintro p ⟨t, w⟩ ⟨ht, he⟩ ⟨hf, hv, hi⟩
    refine ⟨fun hs hn => ?_, freshInv_clock hf, validated_clock hv hi,
      answersInv_clock hf hv hi ht he⟩
    obtain ⟨entry, hl⟩ := exists_lookup_of_served hs hn
    exact validated_of_lookup hv hs he hl
  · change List.Forall₂ _ [false, false, false, false] [0, 0, 0, 0]
    simp

theorem answers_of_served {ps : List Pins} (h : Runs (clock g) (Tended Served) powerUp ps) :
    Runs (answered g) (fun _ x => ¬ x.1.atm.TakesUnanswered x.2 ∧ ¬ x.1.atm.ServesEmptySlot x.2)
      (powerUp, {}) ps := by
  have hrun : Runs (answered g) (fun p x => Tended Served p x.1) (powerUp, {}) ps :=
    runs_ghost.mpr h
  have h₀ : powerUp.atm.GrantsInv {} := trivial
  refine hrun.strengthen (P := fun x : TopLevel × Answers => x.1.atm.GrantsInv x.2) ?_ h₀
  rintro p ⟨t, w⟩ hs hi
  refine ⟨⟨?_, fun he => hs.meets.answered he.1⟩, grantsInv_clock hi⟩
  rintro ⟨hst, -, hadm, hw⟩
  dsimp only at hst hi
  simp only [Main.GrantsInv, hst] at hi
  rcases hs.meets.granted hst with ha | ha
  · exact Bool.noConfusion (hw.symm.trans (hi ha))
  · exact Bool.noConfusion (hadm.symm.trans ha)

/-- The host has granted the user 100, who is then served without it. -/
theorem offline_service_validated_of_withdrawal : ∃ ps p,
    (after {} ps).atm.systemState = .communicationLost ∧
      (after {} (ps ++ [p])).atm.systemState = .dispensingCash ∧
      high (after {} ps).atm.enInput = 0x00201234 ∧
      Runs (answered {}) (ServesValidated {}) (powerUp, {}) (ps ++ [p]) := by
  obtain ⟨t, a, ⟨ps, hps, hrun⟩, hs, hfin, -, hl⟩ := exists_left_alone
  have ht : after {} ps = t := hrun
  have hca : t.atm.cache = withdrawn.cache := congrArg Durable.cache hl.durable
  have hhit : t.atm.communicationLost = t.atm.serveFromCache t.atm.cache.cache1 := by
    rw [Atm.communicationLost, if_pos (by rw [hl.enInput, hca]; decide)]
  have hserve := (hl.serve (i := Buttons.edge {} (idlePins 25 {} 0)) rfl hhit).2.1
  rw [← (hs.step (g := {}) (p := idlePins 25 {} 0) rfl).2] at hserve
  refine ⟨ps, idlePins 25 {} 0, by rw [ht]; exact hl.state, by rw [after_concat, ht]; exact hserve,
    by rw [ht, hl.enInput]; decide, offline_service_validated {} _ ((runs_concat ..).mpr
      ⟨answers_of_served hps, ?_, ?_⟩)⟩
  · intro hd
    have hst := hd.1
    rw [run_ghost_fst, hrun, hl.state] at hst
    exact SystemState.noConfusion hst
  · intro he
    have hslots : (run (answered {}) (powerUp, {}) ps).1.atm.EmptySlots
        (run (answered {}) (powerUp, {}) ps).2 :=
      run_invariant (P := fun x : TopLevel × Answers => x.1.atm.EmptySlots x.2)
        (fun _ _ h => emptySlots_clock h) emptySlots_powerUp ps
    have hzero := he.high_eq_zero hslots
    rw [run_ghost_fst, hrun, hl.enInput] at hzero
    exact absurd hzero (by decide)

theorem validated_of_silent {c : BitVec 7} {ps : List Pins}
    (h : Runs (clock g) (Silent c) powerUp ps) :
    (run (answered g) (powerUp, {}) ps).2.validated = [] := by
  have hrun : Runs (answered g) (fun p x => Silent c p x.1) (powerUp, {}) ps := runs_ghost.mpr h
  exact (hrun.invariant (P := fun x : TopLevel × Answers => x.2.Blank) (fun _ _ hv hw => hw.next hv.1)
    ⟨rfl, rfl, rfl⟩).validated

/-- After power-up and a reset the user with ID 0 and PIN 0 is served out of the empty cache. -/
theorem offline_service_of_stranger :
    ¬ ∀ g ps, Runs (answered g) (ServesValidated g) (powerUp, {}) ps := by
  intro hall
  have hN : debounceTime ≤ ({} : Generics).N := by rw [debounceTime_eq]; decide
  obtain ⟨t₁, a, h₁, hs₁, ha, hp₁⟩ := exists_unconfigured {} 25
  obtain ⟨t₂, n, w, h₂, hs₂, hn, hw, hp₂⟩ := exists_waiting (v := 1) hN hs₁ hp₁ (by decide)
    fun _ => 0
  have hfin := (allocating_finished (d := booted 0) (v := 1) ha hn).state
  obtain ⟨t₃, h₃, hs₃, hp₃⟩ := exists_lost hs₂ hp₂ hfin (by omega)
  obtain ⟨ps, hps, hrun⟩ := (h₁.trans (silent_of_alone (brings_of_calm h₂))).trans
    (silent_of_alone (brings_of_calm (h₃ false)))
  have hhit : t₃.atm.communicationLost = t₃.atm.serveFromCache t₃.atm.cache.cache1 := by
    have hcache : t₃.atm.cache.cache1 = 0 := congrArg (fun d => d.cache.cache1) hp₃.durable
    rw [Atm.communicationLost, if_pos (by rw [hp₃.enInput, hcache]; decide)]
  have hserve := (hp₃.serve (i := Buttons.edge {} (idlePins 25 {} 0)) rfl hhit).2.1
  rw [← (hs₃.step (g := {}) (p := idlePins 25 {} 0) rfl).2] at hserve
  have hlast := ((runs_concat ps (idlePins 25 {} 0)).mp (hall {} _)).2
  have htop : (run (answered {}) (powerUp, {}) ps).1 = t₃ := (run_ghost_fst _ ps).trans hrun
  rw [ServesValidated, htop, validated_of_silent hps] at hlast
  exact absurd (hlast hp₃.state hserve) (List.not_mem_nil)

end TopLevel

end AtmController.Frontend
