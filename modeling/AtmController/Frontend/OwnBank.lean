import AtmController.Frontend.Rotation

namespace AtmController.Frontend

open Clocked Cipher

def OfBank (b : BitVec 5) (v : BitVec 64) : Prop := v = 0 ∨ bankBits v = b

instance (b : BitVec 5) (v : BitVec 64) : Decidable (OfBank b v) := by unfold OfBank; infer_instance

/-- The entries behind the front that are still to be presented after `k` rounds. -/
structure Upcoming (b : BitVec 5) (k : Nat) (c : Cache) : Prop where
  fourth : k < 3 → OfBank b c.cache4
  third : k < 2 → OfBank b c.cache3
  second : k < 1 → OfBank b c.cache2

namespace Main

def CountInv (m : Main) : Prop :=
  match m.systemState with
  | .communicateCache | .updateCache => m.cacheUpdateCount < 4
  | _ => m.cacheUpdateCount ≤ 4

def RecordsInv (m : Main) (e : Cipher) : Prop :=
  match m.systemState with
  | .ready => m.startEncrypt = true → e.Idle ∨ m.Enciphered e
  | .takingInput | .noteAllocation | .encrypt => True
  | .setup | .decryptSetup => m.startEncrypt = false
  | .communicating => m.Enciphered e ∧ m.bankId = bankBits m.enInput
  | .communicationRegained => Upcoming m.bankId m.cacheUpdateCount m.cache ∧
      if m.startEncrypt then m.cacheUpdateCount ≠ 4 ∧ m.Enciphering e ∧ OfBank m.bankId m.enInput
      else m.cacheUpdateCount ≠ 4 →
        OfBank m.bankId (if e.done then decipher e.output else m.cache.cache1)
  | .communicateCache => m.startEncrypt = false ∧ OfBank m.bankId (decipher e.output) ∧
      Upcoming m.bankId m.cacheUpdateCount m.cache
  | .updateCache => m.startEncrypt = false ∧ e.Idle ∧
      Upcoming m.bankId m.cacheUpdateCount m.cache
  | _ => m.Enciphered e

end Main

namespace Atm

open Main

variable {g : Generics} {i : AtmEdge} {s : Atm}

/-- The records that a resynchronisation is going to present. With `start_encrypt` still at '1' and
the encrypter done the first of them is the record of the last transaction. -/
def announced (s : Atm) : List (BitVec 64) :=
  [if s.startEncrypt ∧ s.encryptionOver = true then s.enInput else s.cache.cache1, s.cache.cache4,
    s.cache.cache3, s.cache.cache2]

def AnnouncesForeign (i : AtmEdge) (s : Atm) : Prop :=
  i.debouncedReset = false ∧ s.Reconnects i ∧ ∃ v ∈ s.announced, ¬ OfBank s.bankId v

theorem countInv_clock (h : s.CountInv) : (s.clock g i).CountInv := by
  have hm := clock_cases g i s
  change (s.clock g i).toMain.CountInv
  generalize (s.clock g i).toMain = m at hm
  have hle : s.cacheUpdateCount ≤ 4 := by
    simp only [Main.CountInv] at h
    split at h <;> omega
  cases hm with
  | reset hr => exact hle
  | reconnect hr hc => exact hle
  | branch m hr hc hb =>
    change m.CountInv
    cases hb with
    | communicationRegained l hs =>
      simp only [Main.CountInv]
      by_cases hk : s.cacheUpdateCount = 4
      · simp only [if_pos hk]
        exact hle
      · cases s.encryptionOver <;> simp only [if_neg hk] <;> simp <;> omega
    | communicateCache l r c hs =>
      simp only [Main.CountInv, hs] at h
      simp only [Main.CountInv]
      by_cases hc : c = 0b11111111
      · simp only [if_pos hc]
        exact h
      · simp only [if_neg hc]
        exact h
    | updateCache l hs =>
      simp only [Main.CountInv, hs] at h
      simp only [Main.CountInv]
      cases s.decryptionOver
      · exact h
      · exact h
    | ready b l hs =>
      simp only [Main.CountInv]
      cases i.debouncedStart <;> exact Nat.zero_le 4
    | loadingCash l n q hs hq => rcases hq with rfl | rfl <;> exact hle
    | dispense l n k b q hs hq => rcases hq with rfl | rfl <;> exact hle
    | refuse l n k q hs hq => rcases hq with rfl | rfl <;> exact hle
    | dispensed l n k b j q hs hq => rcases hq with rfl | rfl <;> exact hle
    | userNotInCache l n q hs hq => rcases hq with rfl | rfl <;> exact hle
    | _ =>
      simp only [Main.CountInv, *]
      try split_ifs
      all_goals trivial

theorem recordsInv_reconnect (hi : s.RecordsInv s.encrypter) (hs : s.systemState = .ready)
    (h : ∀ v ∈ s.announced, OfBank s.bankId v) :
    s.reconnect.RecordsInv (Encrypter.clock ⟨false, s.startEncrypt, s.enInput⟩ s.encrypter) := by
  simp only [Main.RecordsInv, hs] at hi
  simp only [announced, List.forall_mem_cons] at h
  obtain ⟨h₁, h₄, h₃, h₂, -⟩ := h
  refine ⟨⟨fun _ => h₄, fun _ => h₃, fun _ => h₂⟩, fun _ => ?_⟩
  change OfBank s.bankId (if (Encrypter.clock _ s.encrypter).done then _ else s.cache.cache1)
  cases hse : s.startEncrypt with
  | false =>
    have hidle : (Encrypter.clock ⟨false, false, s.enInput⟩ s.encrypter).Idle := clock_stop rfl rfl
    simpa [hidle.2, hse] using h₁
  | true =>
    rcases hi hse with he | he
    · -- a reset has stopped the encrypter, which starts afresh
      have hd : (Encrypter.clock ⟨false, true, s.enInput⟩ s.encrypter).done = false :=
        (he.first (i := ⟨false, true, s.enInput⟩) rfl rfl).2.1
      have ho : s.encryptionOver = false := he.2
      simpa [hd, ho] using h₁
    · have hf := he.2.clock (i := ⟨false, true, s.enInput⟩) rfl rfl
      have ho : s.encryptionOver = true := he.2.done
      have hd : (Encrypter.clock ⟨false, true, s.enInput⟩ s.encrypter).done = true := hf.done
      have hout : (Encrypter.clock ⟨false, true, s.enInput⟩ s.encrypter).output =
          encipher s.enInput := hf.output.trans (result_encrypt _)
      simpa [hd, ho, hse, hout] using h₁

theorem recordsInv_clock (he : s.EncrypterInv s.encrypter) (hk : s.CountInv)
    (hi : s.RecordsInv s.encrypter) (hok : ¬ s.AnnouncesForeign i) :
    (s.clock g i).RecordsInv (s.clock g i).encrypter := by
  have hm := clock_cases g i s
  change (s.clock g i).RecordsInv
    (Encrypter.clock ⟨i.debouncedReset, s.startEncrypt, s.enInput⟩ s.encrypter)
  generalize (s.clock g i).toMain = m at hm
  cases hm with
  | reset hr => exact fun _ => .inl (clock_reset hr)
  | reconnect hr hc =>
    rw [hr]
    refine recordsInv_reconnect hi hc.2.2.2 fun v hv => ?_
    by_contra hn
    exact hok ⟨hr, hc, v, hv, hn⟩
  | branch m hr hc hb =>
    have hstop (hs : s.startEncrypt = false) :
        (Encrypter.clock ⟨false, s.startEncrypt, s.enInput⟩ s.encrypter).Idle := clock_stop rfl hs
    have hkeep (hf : s.Enciphered s.encrypter) :
        s.Enciphered (Encrypter.clock ⟨false, s.startEncrypt, s.enInput⟩ s.encrypter) :=
      ⟨hf.1, hf.2.clock rfl hf.1⟩
    rw [hr]
    change m.RecordsInv _
    cases hb with
    | ready b l h =>
      simp only [Main.RecordsInv]
      cases i.debouncedStart
      · exact fun h' => Bool.noConfusion h'
      · trivial
    | encrypt l h =>
      simp only [Main.EncrypterInv, h] at he
      simp only [Main.RecordsInv]
      cases ho : s.encryptionOver with
      | false => trivial
      | true =>
        have hf := hkeep (he.finished ho)
        by_cases hb : s.bankId = bankBits s.enInput
        · simp only [if_true, if_pos hb]
          exact ⟨⟨rfl, hf.2⟩, hb⟩
        · simp only [if_true, if_neg hb]
          exact ⟨rfl, hf.2⟩
    | communicationRegained l h =>
      simp only [Main.RecordsInv, h] at hi
      simp only [Main.CountInv, h] at hk
      obtain ⟨hu, hi⟩ := hi
      by_cases hk4 : s.cacheUpdateCount = 4
      · have hse : s.startEncrypt = false := by
          by_contra hse
          rw [if_pos (by simpa using hse)] at hi
          exact hi.1 hk4
        simp only [Main.RecordsInv, if_pos hk4]
        exact fun _ => .inl (hstop hse)
      · cases ho : s.encryptionOver with
        | false =>
          have hd : s.encrypter.done = false := ho
          simp only [Main.RecordsInv, if_neg hk4, Bool.false_eq_true, and_false, not_false_eq_true,
            decide_true, if_true, if_false]
          refine ⟨hu, hk4, ?_⟩
          cases hse : s.startEncrypt with
          | false =>
            simp only [hse, hd, Bool.false_eq_true, if_false] at hi ⊢
            exact ⟨(clock_stop rfl rfl).working _, hi hk4⟩
          | true =>
            simp only [hse, if_true] at hi ⊢
            have hw := hi.2.1.clock
            rw [hse] at hw
            exact ⟨hw, hi.2.2⟩
        | true =>
          have hd : s.encrypter.done = true := ho
          simp only [Main.RecordsInv, if_true, ne_eq, hk4, not_false_eq_true, and_self,
            not_true_eq_false, decide_false, true_and]
          refine ⟨?_, hu⟩
          cases hse : s.startEncrypt with
          | false =>
            simp only [hse, hd, Bool.false_eq_true, if_true, if_false] at hi
            rw [Encrypter.clock, clock_output_of_stop rfl rfl]
            exact hi hk4
          | true =>
            simp only [hse, if_true] at hi
            have hf := (hi.2.1.finished hd).2.clock (i := ⟨false, true, s.enInput⟩) rfl rfl
            rw [Encrypter.clock, hf.output, result_encrypt, decipher_encipher]
            exact hi.2.2
    | communicateCache l r c h =>
      simp only [Main.RecordsInv, h] at hi
      simp only [Main.RecordsInv]
      by_cases hc : c = 0b11111111
      · simp only [if_pos hc]
        exact ⟨hi.1, hstop hi.1, hi.2.2⟩
      · simp only [if_neg hc]
        exact ⟨hi.1, by rw [Encrypter.clock, clock_output_of_stop rfl hi.1]; exact hi.2.1, hi.2.2⟩
    | updateCache l h =>
      simp only [Main.RecordsInv, h] at hi
      simp only [Main.RecordsInv]
      obtain ⟨hse, -, hu⟩ := hi
      cases s.decryptionOver with
      | false => exact ⟨hse, hstop hse, hu⟩
      | true =>
        simp only [Main.CountInv, h] at hk
        simp only [if_true, hse, Bool.false_eq_true, if_false]
        exact ⟨⟨fun h3 => hu.third (by omega), fun h2 => hu.second (by omega),
          fun h1 => absurd h1 (by omega)⟩, fun h4 => hu.fourth (by omega)⟩
    | loadingCash l n q h hq =>
      simp only [Main.RecordsInv, h] at hi
      rcases hq with rfl | rfl <;> exact hkeep hi
    | dispense l n k b q h hq =>
      simp only [Main.RecordsInv, h] at hi
      rcases hq with rfl | rfl <;> exact hkeep hi
    | refuse l n k q h hq =>
      simp only [Main.RecordsInv, h] at hi
      rcases hq with rfl | rfl <;> exact hkeep hi
    | dispensed l n k b j q h hq =>
      simp only [Main.RecordsInv, h] at hi
      rcases hq with rfl | rfl <;> exact hkeep hi
    | userNotInCache l n q h hq =>
      simp only [Main.RecordsInv, h] at hi
      rcases hq with rfl | rfl
      · exact hkeep hi
      · exact fun _ => .inr (hkeep hi)
    | communicating l a u r c t h =>
      simp only [Main.RecordsInv, h] at hi
      simp only [Main.RecordsInv]
      have hf := hkeep hi.1
      by_cases ht : t = 31
      · simp only [if_pos ht]
        exact hf
      by_cases hc : c = 0b11111111
      · simp only [if_neg ht, if_pos hc]
        exact hf
      by_cases hn : Invalid i
      · simp only [if_neg ht, if_neg hc, if_pos hn]
        exact fun _ => .inr hf
      · simp only [if_neg ht, if_neg hc, if_neg hn]
        exact ⟨hf, hi.2⟩
    | decrypt l h =>
      simp only [Main.RecordsInv, h] at hi
      simp only [Main.RecordsInv]
      cases s.decryptionOver
      · exact hkeep hi
      · cases s.userIsAdmin <;> exact hkeep hi
    | dummy h =>
      simp only [Main.RecordsInv, h] at hi
      simp only [Main.RecordsInv]
      cases i.debouncedDone
      · exact hkeep hi
      · exact fun _ => .inr (hkeep hi)
    | ethernet l h =>
      simp only [Main.RecordsInv, h] at hi
      simp only [Main.RecordsInv]
      cases i.debouncedDone
      · exact hkeep hi
      · exact fun _ => .inr (hkeep hi)
    | setup l r c h =>
      simp only [Main.RecordsInv, h] at hi
      simp only [Main.RecordsInv]
      split_ifs <;> exact hi
    | decryptSetup l h =>
      simp only [Main.RecordsInv, h] at hi
      simp only [Main.RecordsInv]
      cases s.decryptionOver
      · exact hi
      · exact fun h' => absurd (hi.symm.trans h') (by decide)
    | _ =>
      simp only [Main.RecordsInv, *] at hi ⊢
      try first
        | exact hkeep hi
        | trivial

theorem Parked.load {c : BitVec 7} {d : Durable} {a : NoteAllocator} (h : Parked g c d a s)
    (hi : i.Quiet c) (hl : i.debouncedLoadBankId = true) (hs : i.debouncedStart = false) :
    Parked g c { d with bankId := i.swIn.extractLsb' 0 5 } a (s.clock g i) := by
  have hm := clock_quiet (g := g) hi h.addr
  simp only [branch, h.state, ready, hl, hs, if_true, Bool.false_eq_true, if_false] at hm
  have hr := resting_clock hi.reset hm (congrArg Session.startEncrypt h.session)
    (congrArg Session.startDecrypt h.session) (congrArg Session.startNoteAllocation h.session)
    h.timeCounter rfl
  rw [hi.addr, h.allocator] at hr
  exact {
    durable := by rw [hr.durable, ← h.durable]; rfl
    session := hr.session
    addr := hr.addr
    timeCounter := hr.timeCounter
    encrypter := hr.encrypter
    decrypter := hr.decrypter
    allocator := hr.allocator
    state := by rw [hm]; exact h.state
    count := by rw [hm]; rfl
    taken := by rw [hm]; rfl }

end Atm

namespace TopLevel

open Atm

variable {g : Generics}

def ShowsOwnBank (t : TopLevel) : Prop :=
  (t.atm.systemState = .communicating → bankBits (decipher t.atm.enOutput) = t.atm.bankId) ∧
  (t.atm.systemState = .communicateCache → OfBank t.atm.bankId (decipher t.atm.enOutput))

/-- As long as no resynchronisation begins with a record of another bank among those it presents, no
record of another bank is shown. -/
theorem shows_own_bank (g : Generics) (ps : List Pins)
    (h : Runs (clock g) (fun p t => ¬ t.atm.AnnouncesForeign (t.edge p)) powerUp ps) :
    ShowsOwnBank (after g ps) := by
  have h₀ : powerUp.atm.EncrypterInv powerUp.atm.encrypter ∧ powerUp.atm.CountInv ∧
      powerUp.atm.RecordsInv powerUp.atm.encrypter := ⟨trivial, Nat.zero_le 4, rfl⟩
  obtain ⟨he, -, hi⟩ := h.invariant (P := fun t : TopLevel => t.atm.EncrypterInv t.atm.encrypter ∧
      t.atm.CountInv ∧ t.atm.RecordsInv t.atm.encrypter)
    (fun p t hok ⟨he, hk, hi⟩ => ⟨encrypterInv_clock he, countInv_clock hk,
      recordsInv_clock he hk hi hok⟩) h₀
  constructor
  · intro hs
    simp only [Main.RecordsInv, hs] at hi
    have ho : (after g ps).atm.enOutput = encipher (after g ps).atm.enInput :=
      hi.1.2.output.trans (result_encrypt _)
    rw [ho, decipher_encipher]
    exact hi.2.symm
  · intro hs
    simp only [Main.RecordsInv, hs] at hi
    exact hi.2.1

theorem shows_own_bank_first : ∃ ps, (after {} ps).atm.systemState = .communicating ∧
    ShowsOwnBank (after {} ps) := by
  have hN : debounceTime ≤ ({} : Generics).N := by rw [debounceTime_eq]; decide
  obtain ⟨t₁, a, h₁, hs₁, -, hp₁⟩ := exists_unconfigured {} 25
  obtain ⟨t₂, n, w, h₂, -, -, -, hw⟩ := exists_waiting hN hs₁ hp₁ (v := 0) rfl fun _ => 0
  obtain ⟨ps, hps, hrun⟩ := h₁.trans (silent_of_alone (brings_of_calm h₂))
  refine ⟨ps, by rw [after, hrun]; exact hw.state, shows_own_bank {} ps (hps.mono ?_)⟩
  intro p t hp hf
  exact absurd (hp.2.2.symm.trans hf.2.1.2.1) (by decide)

/-- The bank ID is changed while the record of a user of bank 0, who has withdrawn 100 without the
host, waits in the cache; then the host is back. -/
theorem shows_foreign_record : ¬ ∀ g ps, ShowsOwnBank (after g ps) := by
  intro hall
  obtain ⟨t₁, a, h₁, hs₁, -, hp₁⟩ := Tracked.exists_spent
  obtain ⟨t₂, h₂, hs₂, hp₂⟩ := hs₁.press (c := 25) { loadBankId := true } 1
    (fun _ hs => hs.clock (quiet_edge _ _ _ rfl) rfl rfl) hp₁
  obtain ⟨hs₃, hat₃⟩ := hs₂.step (g := {}) (p := idlePins 25 { loadBankId := true } 1) rfl
  have hp₃ := hp₂.load (i := Buttons.edge { loadBankId := true }
    (idlePins 25 { loadBankId := true } 1)) (quiet_edge _ _ _ rfl) rfl rfl
  rw [← hat₃] at hp₃
  generalize hu₃ : clock {} (idlePins 25 { loadBankId := true } 1) t₂ = t₃ at *
  obtain ⟨hs₄, hat₄⟩ := hs₃.step (g := {}) (p := idlePins 0 { loadBankId := true } 1) rfl
  obtain ⟨hp₄, hb₄⟩ := hp₃.reconnect (i := Buttons.edge { loadBankId := true }
    (idlePins 0 { loadBankId := true } 1)) rfl (by decide) rfl rfl
  rw [← hat₄] at hp₄ hb₄
  generalize hu₄ : clock {} (idlePins 0 { loadBankId := true } 1) t₃ = t₄ at *
  have hr₅ : Runs (clock {}) NoReset t₄
      (List.replicate 35 (idlePins 0 { loadBankId := true } 1)) :=
    hs₄.noReset rfl fun p hp => by rw [List.eq_of_mem_replicate hp]; rfl
  obtain ⟨hp₅, ho₅, hb₅, -⟩ := Entering.presents (g := {}) (r := 0) (x := (t₄, [])) hp₄ (by decide)
    (List.length_replicate ..) (runs_ghost.mpr hr₅)
  rw [run_ghost_fst] at hp₅ ho₅ hb₅
  obtain ⟨qs, -, hqs⟩ := h₁.trans h₂
  have hrun : after {} (qs ++ idlePins 25 { loadBankId := true } 1 ::
      idlePins 0 { loadBankId := true } 1 ::
        List.replicate 35 (idlePins 0 { loadBankId := true } 1)) =
      run (clock {}) t₄ (List.replicate 35 (idlePins 0 { loadBankId := true } 1)) := by
    rw [after_append, show after {} qs = t₂ from hqs, run_cons, run_cons, hu₃, hu₄]
  have hown := (hall {} _).2 (by rw [hrun]; exact hp₅.state)
  rw [hrun, ho₅, hb₅, hb₄, decipher_encipher] at hown
  exact absurd hown (by decide)

end TopLevel

end AtmController.Frontend
