import AtmController.Frontend.Boot

namespace AtmController.Frontend

open Clocked Slice

/-- The bytes written to channels 18 to 25 in Setup, the last one in front. -/
abbrev SetupLog := List (Nat × BitVec 8)

namespace SetupLog

def next (i : AtmEdge) (s : Atm) (w : SetupLog) : SetupLog :=
  if i.debouncedReset = false ∧ s.systemState = .setup ∧ i.h2fValid = true ∧
      18 ≤ i.chanAddr.toNat ∧ i.chanAddr.toNat ≤ 25 then
    (i.chanAddr.toNat, i.h2fData) :: w
  else w

def Received (w : SetupLog) (v : BitVec 64) : Prop :=
  ∀ k < 8, w.lookup (18 + k) = some (byte v k)

theorem Received.unique {w : SetupLog} {u v : BitVec 64} (hu : w.Received u) (hv : w.Received v) :
    u = v :=
  ext_bytes (m := 8) fun k hk => Option.some.inj ((hu k hk).symm.trans (hv k hk))

end SetupLog

def limitsOf (v : BitVec 64) : Limits :=
  let x := decipher v
  ⟨x.extractLsb' 32 32,
    ⟨x.extractLsb' 24 8, x.extractLsb' 16 8, x.extractLsb' 8 8, x.extractLsb' 0 8⟩⟩

def Main.Configured (m : Main) (w : SetupLog) : Prop := ∃ v, w.Received v ∧ m.limits = limitsOf v

def Main.SetupInv (m : Main) (w : SetupLog) : Prop :=
  match m.systemState with
  | .setup => m.limits = ⟨0, ⟨0, 0, 0, 0⟩⟩ ∧ m.checksumForBackendResponse ≠ 0b11111111 ∧
      ∀ k < 8, w.lookup (18 + k) =
        if m.checksumForBackendResponse.getLsbD k then some (byte m.responseFromBackend k) else none
  | .decryptSetup => m.limits = ⟨0, ⟨0, 0, 0, 0⟩⟩ ∧ w.Received m.deInput
  | _ => m.Configured w

namespace Atm

open Main Cipher

variable {g : Generics} {i : AtmEdge} {s : Atm} {w : SetupLog}

/-- A reset leaves the setup states with the limits of power-up. -/
def SkipsSetup (i : AtmEdge) (s : Atm) (w : SetupLog) : Prop :=
  i.debouncedReset = true ∧ (s.systemState = .setup ∨ s.systemState = .decryptSetup ∧
    ∀ v, w.Received v → limitsOf v ≠ ⟨0, ⟨0, 0, 0, 0⟩⟩)

theorem lookup_next (hr : i.debouncedReset = false) (hs : s.systemState = .setup)
    (h : ∀ k < 8, w.lookup (18 + k) = if s.checksumForBackendResponse.getLsbD k then
      some (byte s.responseFromBackend k) else none) {k : Nat} (hk : k < 8) :
    (w.next i s).lookup (18 + k) = if (s.collect 18 i).checksumForBackendResponse.getLsbD k then
      some (byte (s.collect 18 i).responseFromBackend k) else none := by
  have hbit := Main.getLsbD_collect 18 i s.toMain hk
  rw [SetupLog.next]
  by_cases hc : i.h2fValid = true ∧ 18 ≤ i.chanAddr.toNat ∧ i.chanAddr.toNat < 18 + 8
  · have hres : (s.collect 18 i).responseFromBackend =
        assign s.responseFromBackend (8 * (i.chanAddr.toNat - 18)) i.h2fData := by
      rw [Main.collect, if_pos hc]
    rw [if_pos ⟨hr, hs, hc.1, hc.2.1, by omega⟩, List.lookup_cons, hres]
    by_cases hj : i.chanAddr.toNat = 18 + k
    · rw [if_pos ⟨hc.1, hj⟩] at hbit
      rw [hbit, hj, show 18 + k - 18 = k by omega, byte_assign _ _ (by omega)]
      simp
    · rw [if_neg fun h' => hj h'.2] at hbit
      rw [hbit, byte_assign_of_ne _ _ (by omega) (by omega), ← h k hk]
      simp [beq_eq_false_iff_ne.mpr (Ne.symm hj)]
  · rw [if_neg fun h' => hc ⟨h'.1, by omega, by omega⟩] at hbit
    rw [if_neg fun h' => hc ⟨h'.2.2.1, h'.2.2.2.1, by omega⟩, hbit, Main.collect, if_neg hc]
    exact h k hk

theorem next_of_not_setup (hs : s.systemState ≠ .setup) : w.next i s = w := by
  rw [SetupLog.next, if_neg fun h => hs h.2.1]

theorem setupInv_clock (hd : s.DecrypterInv s.decrypter) (hi : s.SetupInv w)
    (hok : ¬ s.SkipsSetup i w) : (s.clock g i).SetupInv (w.next i s) := by
  have he := clock_cases g i s
  generalize (s.clock g i).toMain = m at he
  cases he with
  | reset hr =>
    have hns : s.systemState ≠ .setup := fun hs => hok ⟨hr, .inl hs⟩
    rw [next_of_not_setup hns]
    change s.Configured w
    unfold Main.SetupInv at hi
    split at hi
    · next hs => exact absurd hs hns
    · next hs =>
      refine ⟨s.deInput, hi.2, ?_⟩
      by_contra hl
      exact hok ⟨hr, .inr ⟨hs, fun v hv hz => hl (by rw [hi.1, hi.2.unique hv, hz])⟩⟩
    · exact hi
  | reconnect hr hc =>
    rw [next_of_not_setup (by rw [hc.2.2.2]; decide)]
    simp only [Main.SetupInv, hc.2.2.2] at hi
    exact hi
  | branch m hr hc hb =>
    change m.SetupInv _
    by_cases hs : s.systemState = .setup
    · simp only [Main.SetupInv, hs] at hi
      obtain ⟨hz, -, hl⟩ := hi
      have hnext := fun k hk => lookup_next hr hs hl (k := k) hk
      cases hb with
      | setup l r c _ hcol =>
        rw [hcol] at hnext
        simp only at hnext
        simp only [Main.SetupInv]
        split_ifs with hF
        · refine ⟨hz, fun k hk => ?_⟩
          have hones : ∀ j < 8, (0b11111111 : BitVec 8).getLsbD j = true := by decide
          rw [hnext k hk, hF, if_pos (hones k hk)]
        · exact ⟨hz, hF, hnext⟩
      | _ => simp_all
    · rw [next_of_not_setup hs]
      cases hb with
      | decryptSetup l h =>
        simp only [Main.SetupInv, h] at hi
        simp only [Main.DecrypterInv, h] at hd
        simp only [Main.SetupInv]
        cases ho : s.decryptionOver with
        | false => exact hi
        | true =>
          simp only [if_true]
          refine ⟨s.deInput, hi.2, ?_⟩
          have hout : s.deOutput = decipher s.deInput :=
            (hd.finished ho).2.output.trans (result_decrypt _)
          rw [limitsOf, ← hout]
          rfl
      | setup l r c h => exact absurd h hs
      | ready b l h =>
        simp only [Main.SetupInv, h] at hi
        simp only [Main.SetupInv]
        cases i.debouncedStart <;> exact hi
      | loadingCash l n q h hq =>
        simp only [Main.SetupInv, h] at hi
        rcases hq with rfl | rfl <;> exact hi
      | dispense l n k b q h hq =>
        simp only [Main.SetupInv, h] at hi
        rcases hq with rfl | rfl <;> exact hi
      | refuse l n k q h hq =>
        simp only [Main.SetupInv, h] at hi
        rcases hq with rfl | rfl <;> exact hi
      | dispensed l n k b j q h hq =>
        simp only [Main.SetupInv, h] at hi
        rcases hq with rfl | rfl <;> exact hi
      | userNotInCache l n q h hq =>
        simp only [Main.SetupInv, h] at hi
        rcases hq with rfl | rfl <;> exact hi
      | _ =>
        simp only [Main.SetupInv, *] at hi ⊢
        try split_ifs
        all_goals exact hi

theorem SkipsSetup.not_configured (h : s.SkipsSetup i w) (hi : s.SetupInv w) :
    (s.clock g i).systemState = .ready ∧ ¬ (s.clock g i).Configured (w.next i s) := by
  have hm : (s.clock g i).toMain = tick g i s.reset := by
    simp only [clock, mainProcess, h.1, if_true]
  have hw : w.next i s = w := by
    rw [SetupLog.next, if_neg fun h' => by simp [h.1] at h']
  rw [hm, hw]
  refine ⟨rfl, ?_⟩
  rintro ⟨v, hv, hl⟩
  have hl : s.limits = limitsOf v := hl
  rcases h.2 with hs | ⟨hs, hz⟩
  · simp only [Main.SetupInv, hs] at hi
    obtain ⟨-, hF, hlog⟩ := hi
    refine hF (BitVec.eq_of_getLsbD_eq fun k hk => ?_)
    have hones : ∀ j < 8, (0b11111111 : BitVec 8).getLsbD j = true := by decide
    have hk' := (hlog k hk).symm.trans (hv k hk)
    rw [hones k hk]
    by_contra hb
    simp [hb] at hk'
  · simp only [Main.SetupInv, hs] at hi
    exact hz v hv (hl.symm.trans hi.1)

theorem SetupInv.configured (h : s.SetupInv w) (hs : s.systemState ≠ .setup)
    (hd : s.systemState ≠ .decryptSetup) : s.Configured w := by
  unfold Main.SetupInv at h
  split at h
  · next hs' => exact absurd hs' hs
  · next hd' => exact absurd hd' hd
  · exact h

end Atm

namespace TopLevel

open Atm

variable {g : Generics}

abbrev logged (g : Generics) : Pins → TopLevel × SetupLog → TopLevel × SetupLog :=
  ghost (clock g) fun p t => SetupLog.next (t.edge p) t.atm

def OperatesConfigured (x : TopLevel × SetupLog) : Prop :=
  x.1.atm.systemState ≠ .setup → x.1.atm.systemState ≠ .decryptSetup → x.1.atm.Configured x.2

/-- The ATM never operates unconfigured in a run exactly when no edge of it resets the ATM in
Setup, nor in Decrypt setup unless the message sets all limits to 0. -/
theorem operates_configured_iff (g : Generics) (ps : List Pins) :
    (∀ qs, qs <+: ps → OperatesConfigured (run (logged g) (powerUp, []) qs)) ↔
      Runs (logged g) (fun p x => ¬ x.1.atm.SkipsSetup (x.1.edge p) x.2) (powerUp, []) ps := by
  refine forall_prefix_iff_runs (P := OperatesConfigured)
    (Q := fun x : TopLevel × SetupLog => x.1.atm.DecrypterInv x.1.atm.decrypter ∧
      x.1.atm.SetupInv x.2) (fun x h => SetupInv.configured h.2)
    (fun p x h hok => ⟨decrypterInv_clock h.1, setupInv_clock h.1 h.2 hok⟩) ?_ ?_ ps
  · intro p x h hn hop
    obtain ⟨hs, hc⟩ := SkipsSetup.not_configured (g := g) (not_not.mp hn) h.2
    exact hc (hop (by change (x.1.atm.clock g _).systemState ≠ _; rw [hs]; decide)
      (by change (x.1.atm.clock g _).systemState ≠ _; rw [hs]; decide))
  · exact ⟨⟨rfl, rfl, rfl⟩, rfl, by decide, fun k _ => by simp [powerUp, Atm.powerUp]⟩

theorem operates_unconfigured :
    ¬ ∀ g ps, OperatesConfigured (run (logged g) (powerUp, []) ps) := by
  intro hall
  obtain ⟨u, a, ⟨ps, hps, hrun⟩, -, -, hp⟩ := exists_unconfigured {} 25
  have htop : (run (logged {}) (powerUp, []) ps).1 = u := (run_ghost_fst _ ps).trans hrun
  have hlog : (run (logged {}) (powerUp, []) ps).2 = [] := by
    have h : Runs (logged {}) (fun p x => Silent 25 p x.1) (powerUp, []) ps := runs_ghost.mpr hps
    refine h.invariant (P := fun x : TopLevel × SetupLog => x.2 = []) ?_ rfl
    rintro p ⟨t, w⟩ ⟨hv, -, -⟩ (hw : w = [])
    change SetupLog.next _ _ w = []
    rw [SetupLog.next, if_neg fun h' => by simpa [TopLevel.edge, hv] using h'.2.2.1, hw]
  have hop := hall {} ps
  rw [OperatesConfigured, htop, hlog] at hop
  obtain ⟨v, hv, -⟩ := hop (by rw [hp.state]; decide) (by rw [hp.state]; decide)
  exact absurd (hv 0 (by decide)) (by simp)

end TopLevel

end AtmController.Frontend
