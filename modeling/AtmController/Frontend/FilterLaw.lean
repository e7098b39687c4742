import AtmController.Frontend.Debouncer
import AtmController.Lib.Clocked
import AtmController.Lib.Waveform

namespace AtmController.Frontend.Debouncer

open Clocked Waveform

variable {w : BitVec 20} {l : Bool} {button : Nat → Bool} {n : Nat}

def after (waitCycles : BitVec 20) (l : Bool) (button : Nat → Bool) (n : Nat) : Debouncer :=
  run (clockWith waitCycles) { buttonDeb := l } ((List.range n).map button)

theorem after_succ (w : BitVec 20) (l : Bool) (button : Nat → Bool) (n : Nat) :
    after w l button (n + 1) = clockWith w (button n) (after w l button n) := by
  rw [after, List.range_succ, List.map_append, List.map_singleton, run_concat, after]

/-- The counter holds the time for which the button has been steady, modulo `2 ^ 20`. -/
structure Tracks (button : Nat → Bool) (n : Nat) (d : Debouncer) : Prop where
  oldbutton : d.oldbutton = last true button n
  count : d.count = BitVec.ofNat 20 (steady true button n)

theorem Tracks.count_add_one {d : Debouncer} (h : Tracks button n d)
    (hb : last true button n = button n) :
    d.count + 1 = BitVec.ofNat 20 (steady true button (n + 1)) := by
  rw [steady_of_eq hb, h.count]
  exact (BitVec.ofNat_add _ 1).symm

theorem Tracks.step {d : Debouncer} (h : Tracks button n d) (w : BitVec 20) :
    Tracks button (n + 1) (clockWith w (button n) d) := by
  by_cases hb : last true button n = button n
  · have hcount := h.count_add_one hb
    simp only [clockWith, h.oldbutton, hb, ne_eq, not_true_eq_false, if_false, and_true]
    split
    · exact ⟨rfl, hcount⟩
    · exact ⟨rfl, hcount⟩
  · rw [clockWith, if_pos (by rw [h.oldbutton]; exact hb)]
    exact ⟨rfl, by rw [steady_of_ne hb]; rfl⟩

theorem tracks_after (w : BitVec 20) (l : Bool) (button : Nat → Bool) (n : Nat) :
    Tracks button n (after w l button n) := by
  induction n with
  | zero => exact ⟨rfl, rfl⟩
  | succ n ih =>
    rw [after_succ]
    exact ih.step w

theorem buttonDeb_succ (w : BitVec 20) (l : Bool) (button : Nat → Bool) (n : Nat) :
    (after w l button (n + 1)).buttonDeb =
      if last true button n = button n ∧ BitVec.ofNat 20 (steady true button (n + 1)) = w
      then button n else (after w l button n).buttonDeb := by
  have h := tracks_after w l button n
  rw [after_succ]
  by_cases hb : last true button n = button n
  · simp only [clockWith, h.oldbutton, hb, h.count_add_one hb, ne_eq, not_true_eq_false, if_false,
      and_true, true_and]
    split <;> rfl
  · rw [clockWith, if_pos (by rw [h.oldbutton]; exact hb), if_neg fun hc => hb hc.1]

/-- The output is a filter of the button: the wrapped counter may be at `wait_cycles` again later,
but never before the button has been steady for so long. -/
theorem follows_after (hw : 1 ≤ w.toNat) (l : Bool) (button : Nat → Bool) :
    Follows w.toNat true button fun n => (after w l button n).buttonDeb where
  keeps n := by
    rw [buttonDeb_succ]
    split
    · next h =>
      refine .inr ⟨?_, rfl⟩
      rw [← h.2, BitVec.toNat_ofNat]
      exact Nat.mod_le _ _
    · exact .inl rfl
  follows n hs := by
    have hb : last true button n = button n := by
      by_contra hne
      rw [steady_of_ne hne] at hs
      omega
    rw [buttonDeb_succ, if_pos ⟨hb, by rw [hs, BitVec.ofNat_toNat, BitVec.setWidth_eq]⟩]
    rfl

/-- The output changes only to a level that the button has shown at this edge and the `wait_cycles`
before it, or ever since power-up; a level that is shown for `wait_cycles + 1` edges is on the
output until the other level is shown for as long; and while the button is held for longer the
output stays, whatever the counter does. -/
theorem debouncer_filter_law (w : BitVec 20) (hw : 1 ≤ w.toNat) (l : Bool) (button : Nat → Bool) :
    (∀ n v, (after w l button n).buttonDeb ≠ v → (after w l button (n + 1)).buttonDeb = v →
      w.toNat ≤ n ∧ Shows button v (n - w.toNat) (n + 1) ∨ Shows button v 0 (n + 1)) ∧
    (∀ m v, Shows button v m (m + w.toNat + 1) → ∀ n, m + w.toNat + 1 ≤ n →
      (∀ k, m + w.toNat + 1 ≤ k → k + w.toNat + 1 ≤ n → ¬ Shows button (!v) k (k + w.toNat + 1)) →
      (after w l button n).buttonDeb = v) ∧
    ∀ m n v, Shows button v m (n + 1) → m + w.toNat + 1 ≤ n →
      (after w l button (n + 1)).buttonDeb = (after w l button n).buttonDeb := by
  have h := follows_after hw l button
  refine ⟨fun n v hne hv => ?_, fun m v hs n hn hno => ?_, fun m n v hs hmn => ?_⟩
  · have hc := h.shows_of_change (n := n) (by rw [hv]; exact Ne.symm hne)
    rw [hv] at hc
    rcases Nat.le_total w.toNat n with hle | hlt
    · exact .inl ⟨hle, hc⟩
    · exact .inr (hc.mono (by omega) le_rfl)
  · refine h.stays hw hs hn fun k v' hv hk hkn => ?_
    rw [Bool.eq_not.mpr hv]
    exact hno k hk hkn
  · rw [h.eq_of_shows hw hs (by omega),
      h.eq_of_shows hw (hs.mono le_rfl (Nat.le_succ n)) hmn]

theorem debouncer_filter_law_bounce :
    (after 3 false (fun n => decide (n = 1) || decide (3 ≤ n)) 7).buttonDeb = true := by
  refine (debouncer_filter_law 3 (by decide) false _).2.1 3 true (fun k hk _ => ?_) 7 (by decide)
    fun k hk hkn => ?_
  · simp [hk]
  · exact absurd hkn (by simp at hk ⊢; omega)

end AtmController.Frontend.Debouncer
