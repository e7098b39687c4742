import AtmController.Frontend.Boot

/-! The answer of the backend against the timeout: in state 00011 the test of the time is the last
assignment, and it does not look at what has arrived. -/

namespace AtmController.Frontend

open Clocked Slice

namespace Main

def WaitInv (m : Main) : Prop :=
  m.systemState = .communicating → m.timeOutCounter < 31 ∧ m.checksumForBackendResponse ≠ 0b11111111

end Main

namespace Atm

open Main

variable {g : Generics} {i : AtmEdge} {s : Atm}

theorem waitInv_clock (hf : s.FreshInv) (h : s.WaitInv) : (s.clock g i).WaitInv := by
  intro hs
  have hr := reset_of_not_ready (g := g) (i := i) (s := s) (by rw [hs]; decide)
  have hmem := mem_successors g i s
  rw [hs] at hmem
  rcases SystemState.communicating_mem_successors hmem with hst | hst
  · obtain ⟨l, hm⟩ := clock_encrypt (g := g) hst hr
    simp only [FreshInv, hst] at hf
    rw [hm]
    exact ⟨by change s.timeOutCounter < 31; omega,
      by change s.checksumForBackendResponse ≠ _; rw [hf.1]; decide⟩
  · obtain ⟨-, hc, hF, -⟩ := communicating_stays (g := g) hst hs
    obtain ⟨l, t, x, ht, -, hm⟩ := clock_communicating (g := g) hst hr
    have hlt := (h hst).1
    refine ⟨?_, by rw [hc]; exact hF⟩
    rw [hm] at hs ⊢
    have h31 : t ≠ 31 := fun h31 => by simp [tick, h31] at hs
    change t < 31
    split at ht <;> omega

end Atm

namespace TopLevel

open Atm Main

variable {g : Generics} {p : Pins} {t : TopLevel}

/-- The eighth byte of the reply is received in this cycle, or has been. -/
def Completes (p : Pins) (t : TopLevel) : Prop :=
  NoReset p t ∧ (t.atm.collect 10 (t.edge p)).checksumForBackendResponse = 0b11111111

def Rejects (p : Pins) (t : TopLevel) : Prop := NoReset p t ∧ Invalid (t.edge p)

structure VerdictStands (g : Generics) (p : Pins) (t : TopLevel) : Prop where
  decrypt : t.atm.systemState = .communicating → Completes p t →
    (clock g p t).atm.systemState = .decrypt ∧
      (clock g p t).atm.deInput = (t.atm.collect 10 (t.edge p)).responseFromBackend
  ready : t.atm.systemState = .communicating → Rejects p t →
    (clock g p t).atm.systemState = .ready
  lost : (clock g p t).atm.systemState = .communicationLost → ¬ Completes p t ∧ ¬ Rejects p t

/-- The answer is there in the cycle in which the time is over. -/
def Overridden (g : Generics) (p : Pins) (t : TopLevel) : Prop :=
  t.atm.systemState = .communicating ∧ TimesOut g t.atm.toMain ∧ (Completes p t ∨ Rejects p t)

theorem not_completes_of_rejects (hw : t.atm.WaitInv) (hs : t.atm.systemState = .communicating)
    (hr : Rejects p t) : ¬ Completes p t := by
  rintro ⟨-, hc⟩
  have h9 : (t.edge p).chanAddr = 9 := hr.2.1
  rw [collect_of_lt _ _ _ (by rw [h9]; decide)] at hc
  exact (hw hs).2 hc

theorem clock_answered (hw : t.atm.WaitInv) (hs : t.atm.systemState = .communicating)
    (ha : Completes p t ∨ Rejects p t) :
    (TimesOut g t.atm.toMain → (clock g p t).atm.systemState = .communicationLost) ∧
      (¬ TimesOut g t.atm.toMain → (Completes p t → (clock g p t).atm.systemState = .decrypt ∧
        (clock g p t).atm.deInput = (t.atm.collect 10 (t.edge p)).responseFromBackend) ∧
        (Rejects p t → (clock g p t).atm.systemState = .ready)) := by
  have hr : NoReset p t := ha.elim (fun h => h.1) (fun h => h.1)
  obtain ⟨l, n, x, hn, hx, hm⟩ := clock_communicating (g := g) hs hr
  have hm : (clock g p t).atm.toMain = _ := hm
  obtain ⟨hres, hchk⟩ := collect_status (t.edge p) t.atm.toMain
  rw [hchk, hres] at hx
  rw [hchk] at hm
  have hlt := (hw hs).1
  have h31 : n = 31 ↔ TimesOut g t.atm.toMain := by
    rw [hn, TimesOut]
    split_ifs with hT
    · exact ⟨fun h => ⟨hT, by omega⟩, fun h => by rw [h.2]⟩
    · exact ⟨fun h => absurd h (by omega), fun h => absurd h.1 hT⟩
  refine ⟨fun ht => ?_, fun ht => ⟨fun hc => ?_, fun hrej => ?_⟩⟩
  · rw [hm, if_pos (h31.mpr ht)]
    rfl
  · rw [hm, if_neg fun h => ht (h31.mp h), if_pos hc.2]
    exact ⟨rfl, hx hc.2⟩
  · have hnc : (t.atm.collect 10 (t.edge p)).checksumForBackendResponse ≠ 0b11111111 :=
      fun hc => not_completes_of_rejects hw hs hrej ⟨hr, hc⟩
    rw [hm, if_neg fun h => ht (h31.mp h), if_neg hnc, if_pos hrej.2]
    rfl

theorem not_stands_of_overridden (hw : t.atm.WaitInv) (ho : Overridden g p t) :
    ¬ VerdictStands g p t := by
  obtain ⟨hs, ht, ha⟩ := ho
  intro hv
  obtain ⟨hc, hr⟩ := hv.lost ((clock_answered hw hs ha).1 ht)
  exact ha.elim hc hr

theorem waitInv (g : Generics) (ps : List Pins) : (after g ps).atm.WaitInv :=
  (atm_invariant (P := fun s => s.FreshInv ∧ s.WaitInv)
    (fun _ _ h => ⟨freshInv_clock h.1, waitInv_clock h.1 h.2⟩)
    ⟨trivial, fun h => SystemState.noConfusion h⟩ ps).2

theorem verdict_stands_iff (g : Generics) (ps : List Pins) (p : Pins) :
    VerdictStands g p (after g ps) ↔ ¬ Overridden g p (after g ps) := by
  have hw := waitInv g ps
  refine ⟨fun hv ho => not_stands_of_overridden hw ho hv, fun ho => ⟨fun hs hc => ?_,
    fun hs hr => ?_, fun hl => ?_⟩⟩
  · exact ((clock_answered hw hs (.inl hc)).2 fun ht => ho ⟨hs, ht, .inl hc⟩).1 hc
  · exact ((clock_answered hw hs (.inr hr)).2 fun ht => ho ⟨hs, ht, .inr hr⟩).2 hr
  · have hmem := mem_successors g ((after g ps).edge p) (after g ps).atm
    rw [show ((after g ps).atm.clock g ((after g ps).edge p)).systemState = _ from hl] at hmem
    have hs := SystemState.communicationLost_mem_successors hmem
    refine ⟨fun hc => ?_, fun hr => ?_⟩
    · have hd := ((clock_answered hw hs (.inl hc)).2 fun ht => ho ⟨hs, ht, .inl hc⟩).1 hc
      exact absurd (hl.symm.trans hd.1) (by decide)
    · have hd := ((clock_answered hw hs (.inr hr)).2 fun ht => ho ⟨hs, ht, .inr hr⟩).2 hr
      exact absurd (hl.symm.trans hd) (by decide)

/-- The bank grants 100, and the last byte of its reply comes in the last cycle of the time. -/
theorem verdict_overridden : ¬ ∀ g ps p, VerdictStands g p (after g ps) := by
  intro hall
  have hN : debounceTime ≤ ({} : Generics).N := by rw [debounceTime_eq]; decide
  obtain ⟨t₁, h₁, hs₁, hp₁⟩ := exists_booted {} 25 0
  obtain ⟨t₂, n, w, h₂, hs₂, hn, hw, hp₂⟩ := exists_waiting (v := 100) hN hs₁ hp₁ (by decide)
    (byte (encipher 900))
  have hfin := (allocating_finished (d := booted (decipher 0)) (v := 100)
    (a := NoteAllocator.powerUp) rfl hn).state
  have hlate : 2 * ({} : Generics).N + 8 < 31 * (({} : Generics).N + 1) := by decide
  obtain ⟨t₃, c₃, h₃, hs₃, hp₃⟩ := exists_replied (b := 1) hs₂ hp₂ hfin (.inl rfl) (by omega)
  obtain ⟨t₄, c₄, h₄, hs₄, hp₄⟩ := exists_waited (n := 31 * (({} : Generics).N + 1) - 1) hs₃ hp₃
    hfin (by decide) (by omega) (by omega)
  obtain ⟨ps, -, hps⟩ := (((leads_of_reaches h₁).trans h₂).trans h₃).trans h₄
  have hps : after {} ps = t₄ := hps
  have hc : Completes (writePins 17 (byte (encipher 900) 7)) t₄ := by
    refine ⟨by rw [NoReset, hs₄.edge]; rfl, ?_⟩
    rw [hs₄.edge]
    exact (hp₄.collected.collect (by decide) rfl rfl rfl).complete
  refine not_stands_of_overridden (p := writePins 17 (byte (encipher 900) 7)) (waitInv {} ps) ?_
    (hall {} ps _)
  rw [hps]
  exact ⟨hp₄.state, waited_full hp₄.timeCounter (by rw [hp₄.waited]; omega), .inl hc⟩

end TopLevel

end AtmController.Frontend
