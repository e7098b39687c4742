import AtmController.Lib.MoveToFront
import AtmController.Frontend.OfflineWithdrawals

namespace AtmController.Frontend

open Clocked Slice MoveToFront

def Cache.toList (c : Cache) : List (BitVec 64) := [c.cache1, c.cache2, c.cache3, c.cache4]

def Main.sameId (m : Main) (record : BitVec 64) : Bool := userId record = userId m.enInput

def Main.hit (m : Main) : Option (BitVec 64) := m.cache.toList.find? m.sameId

namespace Atm

open Main

variable {g : Generics} {i : AtmEdge} {s : Atm}

def Pays (s : Atm) : Prop := s.adequateCashInAccount = true ∧ s.adequateCashInAtm = true

instance (s : Atm) : Decidable s.Pays := by unfold Pays; infer_instance

def frontEntry (s : Atm) : Option (BitVec 64) → BitVec 64
  | some entry => s.frontRecord <|
    if s.cacheMode then if s.Pays then low entry - low s.enInput else low entry
    else low s.deOutput
  | none => s.frontRecord (low s.deOutput)

def moveToFront (s : Atm) : List (BitVec 64) := touch s.sameId s.frontEntry s.cache.toList

/-- A refusal in cache mode of a user who is not in the cache: the front record gets the low word
of the last entry, which is dropped, and not the one of the backend. -/
def KeepsStranger (s : Atm) : Prop :=
  ¬ s.Pays ∧ s.cacheMode = true ∧ s.hit = none ∧
    low s.cache.cache4 ≠ low s.deOutput

theorem dispenseCache_toList (s : Atm) : s.dispenseCache.toList = touch s.sameId
    (fun hit => s.frontRecord <| hit.elim (low s.deOutput) fun entry =>
      if s.cacheMode then low entry - low s.enInput else low s.deOutput) s.cache.toList := by
  simp only [dispenseCache, touch, Cache.toList]
  split_ifs <;> simp_all [sameId]

theorem refuseCache_toList (s : Atm) : s.refuseCache.toList = touch s.sameId
    (fun hit => s.frontRecord <|
      if s.cacheMode then low (hit.getD s.cache.cache4) else low s.deOutput) s.cache.toList := by
  simp only [refuseCache, touch, Cache.toList]
  by_cases h₄ : userId s.cache.cache4 = userId s.enInput <;> split_ifs <;> simp_all [sameId]

theorem frontRecord_inj {x y : BitVec 32} : s.frontRecord x = s.frontRecord y ↔ x = y :=
  ⟨fun h => by simpa [frontRecord] using congrArg low h, fun h => h ▸ rfl⟩

/-- The write-back puts the low word of the reply into the first entry and rotates the cache. -/
def rotated (s : Atm) : Cache :=
  ⟨s.cache.cache4, join (high s.cache.cache1) (low s.deOutput), s.cache.cache2, s.cache.cache3⟩

def nextCache (i : AtmEdge) (s : Atm) : Cache :=
  if i.debouncedReset then s.cache
  else match s.systemState with
    | .dispensingCash =>
      if s.dispensingDoneAlready then s.cache
      else if s.Pays then s.dispenseCache else s.refuseCache
    | .updateCache => if s.decryptionOver then s.rotated else s.cache
    | _ => s.cache

theorem clock_cache (g : Generics) (i : AtmEdge) (s : Atm) :
    (s.clock g i).cache = s.nextCache i := by
  have he := clock_cases g i s
  generalize (s.clock g i).toMain = m at he
  cases he with
  | reset hr => simp [nextCache, hr, tick, reset, initVariables]
  | reconnect hr hc => simp [nextCache, hr, hc.2.2.2, tick, reconnect]
  | branch m hr hc hb =>
    change m.cache = _
    cases hb with
    | dispense l n k b q h _ hd hu ha => simp [nextCache, hr, h, hd, Pays, hu, ha]
    | refuse l n k q h _ hd ha =>
      have hp : ¬ s.Pays := ha
      simp [nextCache, hr, h, hd, hp]
    | dispensed l n k b j q h _ hd => simp [nextCache, hr, h, hd]
    | updateCache l h => simp [nextCache, hr, h, rotated]
    | _ => simp_all [nextCache, initVariables]

theorem clock_cache_eq_moveToFront_iff (hs : s.systemState = .dispensingCash)
    (hd : s.dispensingDoneAlready = false) (hr : i.debouncedReset = false) :
    (s.clock g i).cache.toList = s.moveToFront ↔ ¬ s.KeepsStranger := by
  have hc : (s.clock g i).cache = if s.Pays then s.dispenseCache else s.refuseCache := by
    simp [clock_cache, nextCache, hs, hd, hr]
  rw [hc, moveToFront]
  by_cases hp : s.Pays
  · rw [if_pos hp, dispenseCache_toList, touch_congr]
    refine iff_of_true ?_ fun h => h.1 hp
    cases s.cache.toList.find? s.sameId with
    | none => rfl
    | some entry => simp [frontEntry, hp]
  · rw [if_neg hp, refuseCache_toList, touch_congr, KeepsStranger, Main.hit]
    cases s.cache.toList.find? s.sameId with
    | some entry => simp [frontEntry, hp]
    | none =>
      simp only [frontEntry, frontRecord_inj, Option.getD_none]
      cases s.cacheMode <;> simp [hp]

end Atm

namespace TopLevel

open Atm

variable {g : Generics}

/-- The next edge updates the cache: Dispensing cash has just been entered. -/
def Updates (p : Pins) (t : TopLevel) : Prop :=
  t.atm.systemState = .dispensingCash ∧ t.atm.dispensingDoneAlready = false ∧
    (t.edge p).debouncedReset = false

def MovesToFront (g : Generics) (p : Pins) (t : TopLevel) : Prop :=
  Updates p t → (clock g p t).atm.cache.toList = t.atm.moveToFront

theorem movesToFront_iff (g : Generics) (p : Pins) (t : TopLevel) :
    MovesToFront g p t ↔ (Updates p t → ¬ t.atm.KeepsStranger) :=
  forall_congr' fun h => clock_cache_eq_moveToFront_iff h.1 h.2.1 h.2.2

theorem dispensingDoneAlready_of_entered (ps : List Pins) (p : Pins)
    (hn : (after g ps).atm.systemState ≠ .dispensingCash)
    (hs : (after g (ps ++ [p])).atm.systemState = .dispensingCash) :
    (after g (ps ++ [p])).atm.dispensingDoneAlready = false := by
  have hf := freshInv (g := g) ps
  rw [after_concat] at hs ⊢
  generalize after g ps = t at hn hs hf
  have he := clock_cases g (t.edge p) t.atm
  change (t.atm.clock g (t.edge p)).systemState = _ at hs
  change (t.atm.clock g (t.edge p)).dispensingDoneAlready = _
  generalize (t.atm.clock g (t.edge p)).toMain = m at he hs
  cases he with
  | reset => cases hs
  | reconnect => cases hs
  | branch m hr hc hb =>
    change m.systemState = _ at hs
    change m.dispensingDoneAlready = _
    cases hb with
    | decrypt l h =>
      simp only [Main.FreshInv, h] at hf
      exact hf
    | serveFromCache entry h =>
      simp only [Main.FreshInv, h] at hf
      exact hf
    | _ =>
      simp only at hs
      try split_ifs at hs
      all_goals simp_all

/-- Every update of every run, from the state that enters Dispensing cash, moves the user's record
to the front, unless it refuses in cache mode a user who is not in the cache. -/
theorem cache_update_moves_to_front_iff (g : Generics) (ps : List Pins) (p : Pins) :
    (MovesToFront g p (after g ps) ↔
      (Updates p (after g ps) → ¬ (after g ps).atm.KeepsStranger)) ∧
    ((after g ps).atm.systemState ≠ .dispensingCash →
      (after g (ps ++ [p])).atm.systemState = .dispensingCash →
      (after g (ps ++ [p])).atm.dispensingDoneAlready = false) :=
  ⟨movesToFront_iff g p _, dispensingDoneAlready_of_entered ps p⟩

/-- The bank refuses a user with 700 who is not in the cache while an offline withdrawal is still
to be written back: the low word of the empty last entry goes in front. -/
theorem cache_update_of_stranger : ¬ ∀ g ps p, MovesToFront g p (after g ps) := by
  intro hall
  have hN : debounceTime ≤ ({} : Generics).N := by rw [debounceTime_eq]; decide
  obtain ⟨t₁, a, h₁, hs₁, ha, hp₁⟩ := Tracked.exists_spent
  obtain ⟨t₂, n, w, h₂, hs₂, hn, hw, hp₂⟩ := exists_waiting (v := 0x0040567800001000) hN hs₁ hp₁
    (by decide) (byte (encipher 700))
  have hfin := allocating_finished (d := Tracked.spent) (v := 0x0040567800001000) ha hn
  obtain ⟨t₃, h₃, hs₃, hp₃⟩ := exists_settling (b := 2) hs₂ hp₂ hfin.state (by decide) (by omega)
  obtain ⟨ps, -, hps⟩ := (h₁.trans h₂).trans h₃
  have hst : t₃.atm.systemState = .dispensingCash := hp₃.state
  have hu : Updates (idlePins 25 {} 0) t₃ :=
    ⟨hst, hp₃.notDispensed, by rw [hs₃.edge]; rfl⟩
  have hca : t₃.atm.cache = Tracked.spent.cache := congrArg Durable.cache hp₃.durable
  have hkeep : t₃.atm.KeepsStranger := by
    refine ⟨fun h => Bool.noConfusion (hp₃.account.symm.trans h.1),
      congrArg Durable.cacheMode hp₃.durable, ?_, ?_⟩
    · rw [Main.hit, List.find?_eq_none, Cache.toList, hca]
      simp only [List.forall_mem_cons, Main.sameId, hp₃.enInput]
      exact ⟨by decide, by decide, by decide, by decide, List.forall_mem_nil _⟩
    · rw [hca, hp₃.deOutput, decipher_encipher]
      decide
  have hmove := hall {} ps (idlePins 25 {} 0)
  rw [show after {} ps = t₃ from hps] at hmove
  exact (movesToFront_iff {} _ t₃).mp hmove hu hkeep

end TopLevel

end AtmController.Frontend
