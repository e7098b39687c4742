import AtmController.Frontend.CacheUpdate

/-! Debits of a cached limit. Of the entries with one 16-bit ID other than 0 there is one only, so
the entry an update finds is the one that the offline check has looked at. -/

namespace AtmController.Frontend

open Clocked Slice MoveToFront

theorem userId_eq_high (v : BitVec 64) : userId v = (high v).extractLsb' 16 16 :=
  (extractLsb'_high v (show 16 + 16 ≤ 32 by decide)).symm

@[simp] theorem userId_join (hi lo : BitVec 32) : userId (join hi lo) = hi.extractLsb' 16 16 := by
  rw [userId_eq_high, high_join]

theorem userId_eq_of_high {v w : BitVec 64} (h : high v = high w) : userId v = userId w := by
  rw [userId_eq_high, userId_eq_high, h]

def Cache.UniqueIds (c : Cache) : Prop := UniqueKeys userId 0 c.toList

namespace Main

/-- The entry of the user's ID and PIN that the offline check finds. -/
def lookup (m : Main) : Option (BitVec 64) :=
  m.cache.toList.find? fun record => high m.enInput = high record

def Covered (m : Main) : Prop := ∀ entry, m.hit = some entry → low m.enInput ≤ low entry

/-- A transaction is marked as offline when the host has not answered it, and then its withdrawal
is checked before the cache is updated. -/
def CoverInv (m : Main) (w : Marks) : Prop :=
  match m.systemState with
  | .takingInput | .noteAllocation | .encrypt | .communicating | .decrypt => w.offline = false
  | .dispensingCash => m.dispensingDoneAlready = false → w.offline = true →
      m.adequateCashInAccount = true → m.Covered
  | _ => True

end Main

namespace Atm

open Main

variable {g : Generics} {i : AtmEdge} {s : Atm}

@[simp] theorem userId_frontRecord (x : BitVec 32) : userId (s.frontRecord x) = userId s.enInput := by
  rw [frontRecord, userId_join, userId_eq_high]

theorem uniqueIds_powerUp : Atm.powerUp.cache.UniqueIds := by
  simp [Atm.powerUp, Cache.UniqueIds, Cache.toList, UniqueKeys, userId]

theorem uniqueIds_clock (h : s.cache.UniqueIds) : (s.clock g i).cache.UniqueIds := by
  rw [clock_cache, nextCache]
  split
  · exact h
  split
  · split
    · exact h
    split
    · rw [Cache.UniqueIds, dispenseCache_toList]
      exact UniqueKeys.touch h fun _ => userId_frontRecord _
    · rw [Cache.UniqueIds, refuseCache_toList]
      exact UniqueKeys.touch h fun _ => userId_frontRecord _
  · split
    · refine UniqueKeys.of_perm h ?_
      simp only [rotated, Cache.toList, List.map_cons, List.map_nil, userId_join,
        ← userId_eq_high]
      exact @List.perm_append_comm _ [_, _, _] [_]
    · exact h
  · exact h

def ServesOtherEntry (s : Atm) : Prop :=
  s.systemState = .communicationLost ∧ userId s.enInput = 0 ∧
    ∃ entry, s.lookup = some entry ∧ s.hit ≠ some entry

theorem communicationLost_eq (s : Atm) : s.communicationLost =
    s.lookup.elim { s.toMain with systemState := .userNotInCache } s.serveFromCache := by
  simp only [communicationLost, lookup, Cache.toList]
  split_ifs <;> simp_all

theorem hit_of_lookup {entry : BitVec 64} (hu : s.cache.UniqueIds) (hs : ¬ s.ServesOtherEntry)
    (h : s.systemState = .communicationLost) (hl : s.lookup = some entry) :
    s.hit = some entry := by
  by_cases h0 : userId s.enInput = 0
  · by_contra hne
    exact hs ⟨h, h0, entry, hl, hne⟩
  · have hhigh : high s.enInput = high entry := by
      simpa using List.find?_some hl
    exact hu.find?_eq (List.mem_of_find?_eq_some hl) (userId_eq_of_high hhigh).symm h0

theorem coverInv_clock {w : Marks} (hu : s.cache.UniqueIds) (hi : s.CoverInv w)
    (hs : ¬ s.ServesOtherEntry) : (s.clock g i).CoverInv (w.next i s) := by
  have he := clock_cases g i s
  by_cases h : s.systemState = .communicationLost ∧ i.debouncedReset = false
  · have hm := clock_of_not_ready (g := g) h.2 (s := s) (by simp [h.1])
    simp only [branch, h.1, communicationLost_eq] at hm
    rw [hm]
    cases hl : s.lookup with
    | none => trivial
    | some entry =>
      rintro - - hacc hit hhit
      have hsame : some hit = some entry := hhit.symm.trans (hit_of_lookup hu hs h.1 hl)
      rw [Option.some.inj hsame]
      exact of_decide_eq_true hacc
  generalize (s.clock g i).toMain = m at he
  cases he with
  | reset hr => trivial
  | reconnect hr hc => trivial
  | branch m hr hc hb =>
    rw [next_of_not_reset hr]
    change m.CoverInv _
    cases hb with
    | ready b l hst => simp only [Main.CoverInv, hst]; cases i.debouncedStart <;> trivial
    | decrypt l hst =>
      simp only [Main.CoverInv, hst] at hi ⊢
      split_ifs
      · trivial
      · intro _ hoff
        exact absurd (hi.symm.trans hoff) Bool.noConfusion
      · exact hi
    | serveFromCache entry hst => exact absurd ⟨hst, hr⟩ h
    | dispense l n k b q hst hq =>
      rcases hq with rfl | rfl
      · exact fun hd => Bool.noConfusion hd
      · trivial
    | refuse l n k q hst hq =>
      rcases hq with rfl | rfl
      · exact fun hd => Bool.noConfusion hd
      · trivial
    | dispensed l n k b j q hst hq hd =>
      rcases hq with rfl | rfl
      · exact fun hd' => Bool.noConfusion (hd.symm.trans hd')
      · trivial
    | loadingCash l n q hst hq => rcases hq with rfl | rfl <;> trivial
    | userNotInCache l n q hst hq => rcases hq with rfl | rfl <;> trivial
    | _ =>
      simp only [Main.CoverInv, *] at hi ⊢
      try split_ifs
      all_goals trivial

theorem cacheMode_clock (hs : s.systemState ≠ .communicationLost) (hc : s.cacheMode = false) :
    (s.clock g i).cacheMode = false := by
  have he := clock_cases g i s
  generalize (s.clock g i).toMain = m at he
  cases he with
  | reset hr => exact hc
  | reconnect hr h => rfl
  | branch m hr h hb =>
    cases hb with
    | serveFromCache entry hst => exact absurd hst hs
    | communicationRegained l hst =>
      change (if s.cacheUpdateCount = 4 then false else s.cacheMode) = false
      rw [hc, ite_self]
    | _ => exact hc

end Atm

namespace TopLevel

open Atm

variable {g : Generics}

theorem cache_ids_unique (g : Generics) (ps : List Pins) {id : BitVec 16} (hid : id ≠ 0) :
    (after g ps).atm.cache.toList.countP (fun record => userId record = id) ≤ 1 :=
  (atm_invariant (P := fun s => s.cache.UniqueIds) (fun _ _ h => uniqueIds_clock h)
    uniqueIds_powerUp ps).countP_le_one hid

theorem cache_ids_unique_of_withdrawals : ∃ ps,
    (after {} ps).atm.cache = ⟨0x00405678000001f4, 0x00201234000003e8, 0, 0⟩ ∧
      (after {} ps).atm.cache.toList.countP (fun record => userId record = 0x20) ≤ 1 ∧
      (after {} ps).atm.cache.toList.countP (fun record => userId record = 0x40) ≤ 1 := by
  have hN : debounceTime ≤ ({} : Generics).N := by rw [debounceTime_eq]; decide
  obtain ⟨_, t₁, a, h₀, h₁, -, -, hs₁, ha, hp₁⟩ := exists_withdrawn
  obtain ⟨t₂, t₃, n, h₂, h₃, -, -, hn, hset, hp₃⟩ := exists_granted
    (v := 0x0040567800000064) hN hs₁ hp₁ ha (by decide) (by decide) 500
  have hatm : t₂.atm.adequateCashInAtm = true := by
    rw [adequateCashInAtm, hset.allocator,
      (allocating_finished (v := 0x0040567800000064) (d := withdrawn) ha hn).allocationPossible]
    decide
  obtain ⟨ps, -, hrun⟩ := (h₀.trans h₁).trans (h₂.trans h₃)
  refine ⟨ps, ?_, cache_ids_unique {} ps (by decide), cache_ids_unique {} ps (by decide)⟩
  have hca : t₂.atm.cache = withdrawn.cache := congrArg Durable.cache hset.durable
  have hcm : t₂.atm.cacheMode = false := congrArg Durable.cacheMode hset.durable
  rw [show after {} ps = t₃ from hrun, show t₃.atm.cache = _ from congrArg Durable.cache hp₃.durable,
    outcome, if_pos ⟨hset.account, hatm⟩]
  simp only [dispenseCache, frontRecord, hca, hcm, hset.enInput, hset.deOutput, decipher_encipher]
  decide

def DebitsWithinLimit (g : Generics) (p : Pins) (t : TopLevel) : Prop :=
  Updates p t → t.atm.Pays → t.atm.cacheMode = true → ∀ entry, t.atm.hit = some entry →
    low t.atm.enInput ≤ low entry ∧
      (low (clock g p t).atm.cache.cache1).toNat =
        (low entry).toNat - (low t.atm.enInput).toNat

theorem debitsWithinLimit_of_covered {p : Pins} {t : TopLevel}
    (h : Updates p t → t.atm.Pays → t.atm.cacheMode = true → t.atm.Covered) :
    DebitsWithinLimit g p t := by
  intro hu hp hm entry he
  have hle := h hu hp hm entry he
  obtain ⟨hs, hd, hr⟩ := hu
  refine ⟨hle, ?_⟩
  have hc : (clock g p t).atm.cache.toList = t.atm.dispenseCache.toList := by
    rw [show (clock g p t).atm.cache = _ from clock_cache g _ _, nextCache]
    simp [hr, hs, hd, hp]
  rw [dispenseCache_toList] at hc
  have hfront : (clock g p t).atm.cache.cache1 =
      t.atm.frontRecord (low entry - low t.atm.enInput) := by
    have := (List.cons.inj hc).1
    rw [show t.atm.cache.toList.find? t.atm.sameId = some entry from he] at this
    simpa [hm] using this
  rw [hfront, frontRecord, low_join, BitVec.toNat_sub_of_le hle]

end TopLevel

namespace Tracked

open TopLevel Atm

variable {g : Generics} {p : Pins} {x : Tracked}

def DebitsOnline (p : Pins) (x : Tracked) : Prop :=
  Updates p x.top ∧ x.top.atm.Pays ∧ x.top.atm.cacheMode = true ∧ x.marks.offline = false ∧
    ∃ entry, x.top.atm.hit = some entry

/-- The debit is not checked against the entry it is taken from: the host has granted it, or the
user has the ID 0 and the check has found another entry. -/
def Unchecked (p : Pins) (x : Tracked) : Prop := x.DebitsOnline p ∨ x.top.atm.ServesOtherEntry

theorem debitsWithinLimit_of_coverInv (hi : x.top.atm.CoverInv x.marks) (h : ¬ x.DebitsOnline p) :
    DebitsWithinLimit g p x.top := by
  refine debitsWithinLimit_of_covered fun hu hp hm entry he => ?_
  have hoff : x.marks.offline = true := by
    by_contra hoff
    exact h ⟨hu, hp, hm, by simpa using hoff, entry, he⟩
  simp only [Main.CoverInv, hu.1] at hi
  exact hi hu.2.1 hoff hp.1 entry he

/-- In every run without an unchecked debit no debit of the cache wraps. -/
theorem cached_limits_never_wrap (g : Generics) (ps : List Pins)
    (h : Runs (clock g) (fun p x => ¬ x.Unchecked p) powerUp ps) :
    Runs (TopLevel.clock g) (DebitsWithinLimit g) TopLevel.powerUp ps := by
  refine (runs_proj (f := top) fun _ _ => rfl).mp (h.strengthen
    (P := fun x => x.top.atm.cache.UniqueIds ∧ x.top.atm.CoverInv x.marks) ?_
    ⟨uniqueIds_powerUp, trivial⟩)
  intro p x hok ⟨hu, hi⟩
  exact ⟨debitsWithinLimit_of_coverInv hi fun hd => hok (.inl hd), uniqueIds_clock hu,
    coverInv_clock hu hi fun hs => hok (.inr hs)⟩

theorem checked_of_served {ps : List Pins}
    (h : Runs (TopLevel.clock g) (Tended Served) TopLevel.powerUp ps) :
    Runs (clock g) (fun p x => ¬ x.Unchecked p) powerUp ps := by
  have hrun : Runs (clock g) (fun p x => Tended Served p x.top) powerUp ps :=
    (runs_proj (f := top) fun _ _ => rfl).mpr h
  refine hrun.strengthen (P := fun x => x.top.atm.cacheMode = false) ?_ rfl
  intro p x hs hc
  refine ⟨?_, cacheMode_clock hs.meets.answered hc⟩
  rintro (⟨-, -, hm, -⟩ | ⟨hl, -⟩)
  · exact absurd (hc.symm.trans hm) Bool.noConfusion
  · exact hs.meets.answered hl

/-- After an online withdrawal of 100 the user withdraws another 100 without the host. -/
theorem cached_limits_never_wrap_offline : ∃ ps p, Updates p (TopLevel.after {} ps) ∧
    (TopLevel.after {} ps).atm.Pays ∧ (TopLevel.after {} ps).atm.cacheMode = true ∧
    Runs (TopLevel.clock {}) (DebitsWithinLimit {}) TopLevel.powerUp (ps ++ [p]) := by
  obtain ⟨t, a, ⟨ps, hps, hrun⟩, hs, hfin, hall, hl⟩ := exists_left_alone
  obtain ⟨hs₁, hat₁⟩ := hs.step (g := {}) (p := idlePins 25 {} 0) rfl
  have hca : t.atm.cache = withdrawn.cache := congrArg Durable.cache hl.durable
  have hhit : t.atm.communicationLost = t.atm.serveFromCache t.atm.cache.cache1 := by
    rw [Atm.communicationLost, if_pos (by rw [hl.enInput, hca]; decide)]
  obtain ⟨hp, hdis, hacc⟩ := hl.serve (i := Buttons.edge {} (idlePins 25 {} 0)) rfl hhit
  rw [NoteAllocator.clock_finished rfl rfl hfin] at hp
  rw [← hat₁] at hp hdis hacc
  have hpays : (TopLevel.clock {} (idlePins 25 {} 0) t).atm.Pays :=
    ⟨hacc.trans (by rw [hca]; decide), by rw [adequateCashInAtm, hp.allocator]; exact hall⟩
  have ht : TopLevel.after {} ps = t := hrun
  have hx : (after {} ps).top = t := by rw [after, run_top]; exact hrun
  refine ⟨ps ++ [idlePins 25 {} 0], idlePins 25 {} 0, ?_, ?_, ?_,
    cached_limits_never_wrap {} _ ((runs_concat ..).mpr ⟨(runs_concat ..).mpr
      ⟨checked_of_served hps, ?_⟩, ?_⟩)⟩
  · rw [after_concat, ht]
    exact ⟨hdis, hp.notDispensed, by rw [hs₁.edge]; rfl⟩
  · rw [after_concat, ht]
    exact hpays
  · rw [after_concat, ht]
    exact congrArg Durable.cacheMode hp.durable
  · rintro (⟨⟨hd, -⟩, -⟩ | ⟨-, h0, -⟩)
    · rw [hx, hl.state] at hd
      exact SystemState.noConfusion hd
    · rw [hx, hl.enInput] at h0
      exact absurd h0 (by decide)
  · rw [run_concat]
    rintro (⟨-, -, -, hoff, -⟩ | ⟨hd, -⟩)
    · have hset : ((run (clock {}) powerUp ps).clock {} (idlePins 25 {} 0)).marks.offline =
          true := by
        change (Marks.next _ (after {} ps).top.atm _).offline = true
        rw [hx, hs.edge, Marks.next, hl.state]
        rfl
      exact absurd (hoff.symm.trans hset) Bool.noConfusion
    · change ((after {} ps).top.clock {} (idlePins 25 {} 0)).atm.systemState = _ at hd
      rw [hx, hdis] at hd
      exact SystemState.noConfusion hd

end Tracked

namespace TopLevel

open Atm

/-- With 900 left in the cache and the withdrawal of 100 still to be written back, the bank grants
the user 2000. -/
theorem cached_limits_wrap : ¬ ∀ g ps p, DebitsWithinLimit g p (after g ps) := by
  intro hall
  have hN : debounceTime ≤ ({} : Generics).N := by rw [debounceTime_eq]; decide
  obtain ⟨t₁, a, h₁, hs₁, ha, hp₁⟩ := Tracked.exists_spent
  obtain ⟨t₂, n, w, h₂, hs₂, hn, hw, hp₂⟩ := exists_waiting (v := 0x00201234000007d0) hN hs₁ hp₁
    (by decide) (byte (encipher 3000))
  have hfin := allocating_finished (d := Tracked.spent) (v := 0x00201234000007d0) ha hn
  obtain ⟨t₃, h₃, hs₃, hp₃⟩ := exists_settling (b := 1) hs₂ hp₂ hfin.state (by decide) (by omega)
  obtain ⟨ps, -, hps⟩ := (h₁.trans h₂).trans h₃
  have hu : Updates (idlePins 25 {} 0) t₃ :=
    ⟨hp₃.state, hp₃.notDispensed, by rw [hs₃.edge]; rfl⟩
  have hpays : t₃.atm.Pays := by
    refine ⟨hp₃.account, ?_⟩
    rw [adequateCashInAtm, hp₃.allocator, hfin.allocationPossible]
    decide
  have hhit : t₃.atm.hit = some 0x0020123400000384 := by
    have hca : t₃.atm.cache = Tracked.spent.cache := congrArg Durable.cache hp₃.durable
    rw [Main.hit, Cache.toList, hca, List.find?_cons_of_pos]
    · rfl
    · rw [Main.sameId, hp₃.enInput]
      decide
  have hdeb := hall {} ps (idlePins 25 {} 0)
  rw [show after {} ps = t₃ from hps] at hdeb
  have hle := (hdeb hu hpays (congrArg Durable.cacheMode hp₃.durable) _ hhit).1
  rw [hp₃.enInput] at hle
  exact absurd hle (by decide)

end TopLevel

end AtmController.Frontend
