import AtmController.System.Rounds

/-! The entries of the cache that no user has had: all zero, like the record of a user 0 with PIN 0.
The host looks them up like any other. -/

namespace AtmController.System

open Clocked Slice Backend Frontend Frontend.TopLevel

namespace Sys

variable {g : Generics} {bankID : BitVec 5} {rows : List Row} {cs ds : List Cycle} {c : Cycle}

/-- An exchange of a zero entry in a run from power-up: the cycle `c` enters state 01101, and `ds`
goes on with the exchange, without a reset. -/
structure ExchangesEmpty (g : Generics) (bankID : BitVec 5) (rows : List Row) (cs : List Cycle)
    (c : Cycle) (ds : List Cycle) : Prop where
  enabled : Runs (clock g bankID) (fun c s => s.Enabled c) (powerUp rows) (cs ++ [c] ++ ds)
  regained : (after g bankID rows cs).top.atm.systemState = .communicationRegained
  presents : (after g bankID rows (cs ++ [c])).top.atm.systemState = .communicateCache
  empty : (after g bankID rows (cs ++ [c])).top.atm.cache.cache1 = 0
  during : Runs (clock g bankID) (fun c s => NoReset (s.pins c) s.top ∧
    s.top.atm.systemState ≠ .communicationRegained) (after g bankID rows (cs ++ [c])) ds

def SameBalances (s u : Sys) : Prop :=
  u.host.dataFromCSV = s.host.dataFromCSV ∧ u.host.csv = s.host.csv

/-- The low word of the entry that was exchanged last, which is in the second place now. -/
def exchangedLow (u : Sys) : BitVec 32 := low u.top.atm.cache.cache2

theorem exchange_of_empty {k : Nat} {s u : Sys} (hsaved : s.host.csv = s.host.dataFromCSV)
    (h0 : s.top.atm.cache.cache1 = 0)
    (hend : u.Exchange bankID k s.top.atm.cache s.host.dataFromCSV ∨
      ∃ a, u.Exchanged bankID k s.top.atm.cache s.host.dataFromCSV a) :
    (Inert s.host.dataFromCSV → SameBalances s u) ∧
      (u.top.atm.systemState = .communicationRegained →
        (SameBalances s u ∧ u.exchangedLow = 0 ↔ Inert s.host.dataFromCSV)) := by
  have hsame {rows : List Row} (hh : u.host.Holds rows) :
      SameBalances s u ↔ rows = s.host.dataFromCSV := by
    rw [SameBalances, hh.dataFromCSV, hh.csv, hsaved, and_self]
  rcases hend with hu | ⟨a, hu⟩
  · refine ⟨fun hinert => ?_, fun hs => ?_⟩
    · rcases hu.holds with hh | ⟨a, ha, hh⟩
      · exact (hsame hh).mpr rfl
      · rw [h0] at ha
        exact (hsame hh).mpr ((settled_eq_self_iff ha).mpr hinert).1
    · rcases hu.state with hs' | hs' <;> exact absurd (hs'.symm.trans hs) (by decide)
  · have ha := hu.answer
    rw [h0] at ha
    have hlow : u.exchangedLow = low (decipher a.message) := by
      rw [exchangedLow, hu.entering.cache]
      exact low_join _ _
    rw [hsame hu.holds, hlow, ← settled_eq_self_iff ha]
    exact ⟨fun hinert => hinert.1, fun _ => Iff.rfl⟩

/-- Where reconnections are fresh, the exchange of a zero entry changes no balance if the table is
inert, and a finished exchange changes none and leaves the low word 0 only then. -/
theorem empty_slot_inert_iff (g : Generics) (bankID : BitVec 5) (rows : List Row)
    (cs : List Cycle) (c : Cycle) (ds : List Cycle) (h : ExchangesEmpty g bankID rows cs c ds)
    (hf : Runs (clock g bankID) (fun c s => ¬ StaleReconnect (s.pins c) s.top) (powerUp rows)
      (cs ++ [c] ++ ds)) :
    let s := after g bankID rows (cs ++ [c])
    let u := after g bankID rows (cs ++ [c] ++ ds)
    (Inert s.host.dataFromCSV → SameBalances s u) ∧
      (u.top.atm.systemState = .communicationRegained →
        (SameBalances s u ∧ u.exchangedLow = 0 ↔ Inert s.host.dataFromCSV)) := by
  have hsync : Runs (clock g bankID) Synced (powerUp rows) (cs ++ [c] ++ ds) :=
    (h.enabled.and hf).mono fun _ _ h => ⟨h.1, h.2⟩
  obtain ⟨h₁, h₂⟩ := (runs_append _ _).mp hsync
  obtain ⟨h₀, hc⟩ := (runs_concat _ _).mp h₁
  have hi := roundInv g h₁
  have hpres := h.presents
  obtain ⟨k, hx⟩ : ∃ k, (after g bankID rows (cs ++ [c])).Exchange bankID k
      (after g bankID rows (cs ++ [c])).top.atm.cache
      (after g bankID rows (cs ++ [c])).host.dataFromCSV := by
    rw [after_concat] at hpres ⊢
    exact (roundInv g h₀).begins hc h.regained hpres
  have hend := hx.run_cycles hi (h₂.and h.during)
  rw [← run_append] at hend
  exact exchange_of_empty hi.saved h.empty hend

theorem exists_resyncing (bankID : BitVec 5) (rows : List Row) :
    ∃ u, Reaches (clock {} bankID) Synced (powerUp rows) u ∧ u.Pausing ∧
      u.host = ⟨.head, rows, rows⟩ ∧ u.top.atm.Entering 0 ⟨0, 0, 0, 0⟩ := by
  obtain ⟨t₁, d, a, h₁, hs₁, hfin, hcm, hca, hp₁⟩ := exists_refused 0
  obtain ⟨t₂, h₂, hs₂, hp₂⟩ := exists_parked hs₁ hp₁ hfin
  obtain ⟨n, h₃⟩ := exists_user {} bankID (s := powerUp rows)
    (fun _ _ h => h) (h₁.trans (silent_of_alone (TopLevel.brings_of_calm h₂))) rfl
  obtain ⟨s₄, h₄, hs₄, hh₄, hc₄, hp₄⟩ := exists_started {} bankID
    (s := { powerUp rows with top := t₂, gap := (powerUp rows).gap + n }) ⟨hs₂, rfl⟩ rfl hp₂
  obtain ⟨s₅, h₅, hs₅, hh₅, hp₅⟩ := exists_regained {} bankID hs₄ hh₄ hc₄
    (by decide) hp₄ hcm
  rw [hca] at hp₅
  have h₄₅ := (h₄.mono fun _ _ h => h.toSynced).trans (h₅.mono fun _ _ h => h.toSynced)
  exact ⟨s₅, (h₃.mono fun _ _ h => h.1).trans h₄₅, hs₅, hh₅, hp₅⟩

theorem exists_exchangesEmpty (bankID : BitVec 5) (rows : List Row) {a₁ a₂ : Answer}
    (h₁ : reconcile bankID rows (words 0) = some a₁)
    (h₂ : reconcile bankID (a₁.settled rows) (words 0) = some a₂) :
    ∃ cs c ds, ExchangesEmpty {} bankID rows cs c ds ∧
      Runs (clock {} bankID) (fun c s => ¬ StaleReconnect (s.pins c) s.top) (powerUp rows)
        (cs ++ [c] ++ ds) ∧
      (after {} bankID rows (cs ++ [c])).host.dataFromCSV = a₁.settled rows ∧
      (after {} bankID rows (cs ++ [c] ++ ds)).top.atm.systemState = .communicationRegained ∧
      (after {} bankID rows (cs ++ [c] ++ ds)).host.dataFromCSV = a₂.settled (a₁.settled rows) := by
  obtain ⟨s₁, hr₁, hs₁, hh₁, hm₁⟩ := exists_resyncing bankID rows
  obtain ⟨s₂, c₂, s₃, hr₂, -, hc₂, -, -, hr₃, hs₃, hh₃, hm₃⟩ :=
    exists_round {} bankID hs₁ hh₁ hm₁ (by decide) h₁
  obtain ⟨s₄, c₄, s₅, hr₄, hst₄, hc₄, hm₄, hh₄, hr₅, hs₅, hh₅, hm₅⟩ :=
    exists_round {} bankID hs₃ hh₃ hm₃ (by decide) h₂
  have hreach : Reaches (clock {} bankID) Synced (powerUp rows) s₄ :=
    (((hr₁.trans (hr₂.mono fun _ _ h => h.toSynced)).trans (.single c₂ hc₂.toSynced)).trans
      (hr₃.mono fun _ _ h => h.toSynced)).trans (hr₄.mono fun _ _ h => h.toSynced)
  obtain ⟨cs, hcs, hs⟩ := hreach
  obtain ⟨ds, hds, hu⟩ := hr₅
  change after {} bankID rows cs = s₄ at hs
  have hs' : after {} bankID rows (cs ++ [c₄]) = clock {} bankID c₄ s₄ := by
    rw [after_concat, hs]
  have hu' : after {} bankID rows (cs ++ [c₄] ++ ds) = s₅ := by
    rw [after_append, hs', hu]
  have hsync : Runs (clock {} bankID) Synced (powerUp rows) (cs ++ [c₄] ++ ds) := by
    refine (runs_append _ _).mpr ⟨(runs_concat _ _).mpr ⟨hcs, ?_⟩, ?_⟩
    · change Synced c₄ (after {} bankID rows cs)
      rw [hs]
      exact hc₄.toSynced
    · change Runs _ _ (after {} bankID rows (cs ++ [c₄])) ds
      rw [hs']
      exact hds.mono fun _ _ h => h.toSynced
  have hpres := hm₄.presenting 0
  refine ⟨cs, c₄, ds, ⟨hsync.mono fun _ _ h => h.enabled, by rw [hs]; exact hst₄,
    by rw [hs']; exact hpres.state, by rw [hs', hpres.cache]; rfl, ?_⟩,
    hsync.mono fun _ _ h => h.fresh, by rw [hs', hh₄], by rw [hu']; exact hm₅.state,
    by rw [hu', hh₅]⟩
  rw [hs']
  exact hds.mono fun _ _ h => ⟨h.noReset, h.meets⟩

theorem empty_slot_inert_first : ∃ cs c ds, ExchangesEmpty {} 0 [] cs c ds ∧
    (after {} 0 [] (cs ++ [c] ++ ds)).top.atm.systemState = .communicationRegained ∧
    SameBalances (after {} 0 [] (cs ++ [c])) (after {} 0 [] (cs ++ [c] ++ ds)) ∧
    exchangedLow (after {} 0 [] (cs ++ [c] ++ ds)) = 0 := by
  obtain ⟨cs, c, ds, h, hf, hrows, hst, -⟩ := exists_exchangesEmpty 0 []
    (reconcile_zero 0 []) (reconcile_zero 0 [])
  have hiff := (empty_slot_inert_iff {} 0 [] cs c ds h hf).2 hst
  rw [hrows] at hiff
  exact ⟨cs, c, ds, h, hst, hiff.mpr (by decide)⟩

/-- With a user 0 whose PIN hash is 0: the exchange of the first entry turns the balance 1000 into
200, that of the fourth turns 200 into 40. -/
theorem empty_slot_charges_user_zero : ¬ ∀ g bankID rows cs c ds,
    ExchangesEmpty g bankID rows cs c ds →
      (after g bankID rows (cs ++ [c] ++ ds)).top.atm.systemState = .communicationRegained →
      SameBalances (after g bankID rows (cs ++ [c])) (after g bankID rows (cs ++ [c] ++ ds)) ∧
        exchangedLow (after g bankID rows (cs ++ [c] ++ ds)) = 0 := by
  intro hall
  obtain ⟨cs, c, ds, h, -, hrows, hst, hrows'⟩ := exists_exchangesEmpty 0
    [⟨0, 0, 0, 1000⟩] (reconcile_zero 0 _) (reconcile_zero 0 _)
  have hsame := (hall {} 0 _ cs c ds h hst).1.1
  rw [hrows, hrows'] at hsame
  exact absurd hsame (by decide)

end Sys

end AtmController.System
