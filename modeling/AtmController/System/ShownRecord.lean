import AtmController.System.WireFormat

namespace AtmController.System

open Clocked Slice Frontend

/-- The bytes typed in since the last start; `down` tells whether the key is still down. -/
structure Keys where
  bytes : List (BitVec 8) := []
  down : Bool := false

def Keys.next (i : AtmEdge) (s : Frontend.Atm) (w : Keys) : Keys :=
  if i.debouncedReset then w
  else match s.systemState with
    | .ready => {}
    | .takingInput =>
      if i.debouncedNextData then
        if w.down then w else { bytes := w.bytes ++ [i.swIn], down := true }
      else { w with down := false }
    | _ => w

theorem Keys.next_of_ne {i : AtmEdge} {s : Frontend.Atm} (h₁ : s.systemState ≠ .ready)
    (h₂ : s.systemState ≠ .takingInput) (w : Keys) : w.next i s = w := by
  unfold Keys.next
  split
  · rfl
  · cases hs : s.systemState <;> simp_all

def typedBytes (v : BitVec 64) (k : Nat) : List (BitVec 8) :=
  (List.range k).map fun j => byte v (7 - j)

theorem typedBytes_assign (v : BitVec 64) (b : BitVec 8) {k : Nat} (hk : k < 8) :
    typedBytes (assign v (56 - 8 * k) b) (k + 1) = typedBytes v k ++ [b] := by
  rw [show 56 - 8 * k = 8 * (7 - k) by omega, typedBytes, List.range_succ, List.map_append,
    List.map_singleton, byte_assign _ _ (by omega)]
  congr 1
  refine List.map_congr_left fun j hj => byte_assign_of_ne _ _ (by omega) ?_
  have := List.mem_range.mp hj
  omega

def KeysInv (m : Main) (w : Keys) : Prop :=
  match m.systemState with
  | .takingInput => m.inputByteCount < 8 ∧ w.bytes = typedBytes m.inputEightBytes m.inputByteCount ∧
      w.down = m.inputTakenAlready
  | .noteAllocation | .encrypt | .communicating => w.bytes = typedBytes m.enInput 8
  | _ => True

def FrontInv (m : Main) : Prop :=
  match m.systemState with
  | .communicationRegained => m.startEncrypt = true → m.enInput = m.cache.cache1
  | .communicateCache => m.enInput = m.cache.cache1
  | _ => True

section Atm

open Frontend.Atm Frontend.Main

variable {g : Generics} {i : AtmEdge} {s : Frontend.Atm} {w : Keys}

theorem keysInv_clock (h : KeysInv s.toMain w) : KeysInv (s.clock g i).toMain (w.next i s) := by
  have he := clock_cases g i s
  generalize (s.clock g i).toMain = m at he
  cases he with
  | reset hr => trivial
  | reconnect hr hc => trivial
  | branch m hr hc hb =>
    change KeysInv m _
    cases hb with
    | ready b l hs =>
      simp only [KeysInv, Keys.next, hr, hs, Bool.false_eq_true, if_false]
      cases i.debouncedStart
      · trivial
      · exact ⟨Nat.zero_lt_succ 7, rfl, rfl⟩
    | key l hs hn ht hc =>
      simp only [KeysInv, hs] at h
      simp only [KeysInv, Keys.next, hr, hs, hn, h.2.2, ht, Bool.false_eq_true, if_false, if_true]
      exact ⟨by omega, by rw [h.2.1, typedBytes_assign _ _ h.1], trivial⟩
    | lastKey l hs hn ht hc =>
      simp only [KeysInv, hs] at h
      simp only [KeysInv, Keys.next, hr, hs, hn, h.2.2, ht, Bool.false_eq_true, if_false, if_true]
      have ha := typedBytes_assign s.inputEightBytes i.swIn (k := 7) (by decide)
      rw [h.2.1, hc]
      exact ha.symm
    | noKey b l hs hkey hno =>
      simp only [KeysInv, hs] at h
      simp only [KeysInv, Keys.next, hr, hs, Bool.false_eq_true, if_false]
      cases hn : i.debouncedNextData with
      | false => exact ⟨h.1, h.2.1, (hno hn).symm⟩
      | true =>
        obtain ⟨ht, hb⟩ := hkey hn h.1
        simp only [h.2.2, ht, if_true, hb]
        exact ⟨h.1, h.2.1, trivial⟩
    | loadingCash l n q hs hq => rcases hq with rfl | rfl <;> trivial
    | dispense l n k b q hs hq => rcases hq with rfl | rfl <;> trivial
    | refuse l n k q hs hq => rcases hq with rfl | rfl <;> trivial
    | dispensed l n k b j q hs hq => rcases hq with rfl | rfl <;> trivial
    | userNotInCache l n q hs hq => rcases hq with rfl | rfl <;> trivial
    | _ =>
      simp only [KeysInv, Keys.next, Bool.false_eq_true, if_false, *] at h ⊢
      try split_ifs
      all_goals first
        | exact h
        | trivial

theorem frontInv_clock (hd : s.DecrypterInv s.decrypter) (h : FrontInv s.toMain) :
    FrontInv (s.clock g i).toMain := by
  have he := clock_cases g i s
  generalize (s.clock g i).toMain = m at he
  cases he with
  | reset hr => trivial
  | reconnect hr hc => exact fun hs => Bool.noConfusion hs
  | branch m hr hc hb =>
    change FrontInv m
    cases hb with
    | communicationRegained l hs =>
      simp only [FrontInv, hs] at h
      have hin : (if s.startEncrypt then s.enInput else s.cache.cache1) = s.cache.cache1 := by
        split
        · next he => exact h he
        · rfl
      simp only [FrontInv, hin]
      by_cases hk : s.cacheUpdateCount = 4
      · simp only [if_pos hk]
      · cases s.encryptionOver <;> simp [hk]
    | communicateCache l r c hs =>
      simp only [FrontInv, hs] at h
      simp only [FrontInv]
      split_ifs
      · trivial
      · exact h
    | updateCache l hs =>
      simp only [Main.DecrypterInv, hs] at hd
      simp only [FrontInv]
      split_ifs
      · exact fun he => absurd he (by simp [hd.1])
      · trivial
    | loadingCash l n q hs hq => rcases hq with rfl | rfl <;> trivial
    | dispense l n k b q hs hq => rcases hq with rfl | rfl <;> trivial
    | refuse l n k q hs hq => rcases hq with rfl | rfl <;> trivial
    | dispensed l n k b j q hs hq => rcases hq with rfl | rfl <;> trivial
    | userNotInCache l n q hs hq => rcases hq with rfl | rfl <;> trivial
    | _ =>
      simp only [FrontInv, *]
      try split_ifs
      all_goals trivial

end Atm

section TopLevel

open Frontend.TopLevel

variable {g : Generics}

abbrev keyed (g : Generics) : Pins → TopLevel × Keys → TopLevel × Keys :=
  ghost (clock g) fun p t => Keys.next (t.edge p) t.atm

/-- The ATM shows the first entry of the cache in state 01101 and the eight bytes entered in state
00011. -/
def ShowsCurrent (x : TopLevel × Keys) : Prop :=
  (x.1.atm.systemState = .communicateCache →
    x.1.atm.enInput = x.1.atm.cache.cache1 ∧ shownOutput x.1 = encipher x.1.atm.cache.cache1) ∧
  (x.1.atm.systemState = .communicating →
    x.2.bytes = typedBytes x.1.atm.enInput 8 ∧ shownOutput x.1 = encipher x.1.atm.enInput)

theorem frontInv (ps : List Pins) : FrontInv (after g ps).atm.toMain := by
  have h : (after g ps).atm.DecrypterInv (after g ps).atm.decrypter ∧
      FrontInv (after g ps).atm.toMain :=
    atm_invariant (P := fun s => s.DecrypterInv s.decrypter ∧ FrontInv s.toMain)
      (fun i s hi => ⟨Frontend.Atm.decrypterInv_clock hi.1, frontInv_clock hi.1 hi.2⟩)
      ⟨⟨rfl, rfl, rfl⟩, trivial⟩ ps
  exact h.2

/-- In every run in which the reconnection is never recognised while `start_encrypt` stands the
ATM shows the current record, but for the cycles of a reset. -/
theorem shown_record_is_current (g : Generics) (ps : List Pins)
    (h : Runs (clock g) (fun p t => ¬ StaleReconnect p t) powerUp ps)
    (hr : (after g ps).resetDebouncer.buttonDeb = false) :
    ShowsCurrent (run (keyed g) (powerUp, {}) ps) := by
  have htop : (run (keyed g) (powerUp, {}) ps).1 = after g ps := run_ghost_fst _ ps
  have hkeys : KeysInv (run (keyed g) (powerUp, {}) ps).1.atm.toMain
      (run (keyed g) (powerUp, {}) ps).2 :=
    run_invariant (P := fun x : TopLevel × Keys => KeysInv x.1.atm.toMain x.2)
      (fun _ _ hi => keysInv_clock hi) (show KeysInv powerUp.atm.toMain {} from trivial) ps
  have hfront := frontInv (g := g) ps
  rw [ShowsCurrent, htop, shownOutput_of_noReset hr]
  rw [htop] at hkeys
  refine ⟨fun hs => ?_, fun hs => ?_⟩
  · simp only [FrontInv, hs] at hfront
    exact ⟨hfront, hfront ▸ enOutput_eq h (.inr ⟨rfl, rfl⟩) hs⟩
  · simp only [KeysInv, hs] at hkeys
    exact ⟨hkeys, enOutput_eq h (.inl ⟨rfl, rfl⟩) hs⟩

theorem shown_record_is_current_of_withdrawal : ∃ ps,
    let x := run (keyed {}) (powerUp, {}) ps
    x.1.atm.systemState = .communicating ∧
      x.2.bytes = [0x00, 0x20, 0x12, 0x34, 0x00, 0x00, 0x01, 0xf4] ∧
      shownOutput x.1 = encipher 0x00201234000001f4 := by
  obtain ⟨u, c, a, w, ⟨ps, hps, rfl⟩, hs, -, -, hm⟩ :=
    exists_offered (v := 0x00201234000001f4) (r := fun _ => 0) (by decide)
  have htop : (run (keyed {}) (powerUp, {}) ps).1 = after {} ps := run_ghost_fst _ ps
  obtain ⟨-, hcur⟩ := shown_record_is_current {} ps hps hs.reset.buttonDeb
  rw [htop] at hcur
  obtain ⟨hbytes, hout⟩ := hcur hm.state
  have hv : (after {} ps).atm.enInput = 0x00201234000001f4 := hm.enInput
  rw [hv] at hbytes hout
  exact ⟨ps, by rw [htop]; exact hm.state, hbytes, by rw [htop]; exact hout⟩

/-- After the stale reconnection the ATM shows the withdrawal in place of the cache entry. -/
theorem shown_record_is_stale : ¬ ∀ g ps, ShowsCurrent (run (keyed g) (powerUp, {}) ps) := by
  intro hall
  obtain ⟨t, ⟨ps, -, hps⟩, hshow, hen⟩ := exists_stale
  have htop : (run (keyed {}) (powerUp, {}) ps).1 = t := (run_ghost_fst _ ps).trans hps
  have hcur := (hall {} ps).1
  rw [htop] at hcur
  obtain ⟨hfront, hout⟩ := hcur hshow.state
  rw [shownOutput_of_noReset hshow.settled.reset.buttonDeb, hshow.enOutput, ← hfront, hen] at hout
  have hdec := congrArg decipher hout
  rw [decipher_encipher, decipher_encipher] at hdec
  exact absurd hdec (by decide)

end TopLevel

end AtmController.System
