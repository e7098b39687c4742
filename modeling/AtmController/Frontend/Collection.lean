import AtmController.Frontend.Invariants

namespace AtmController.Frontend

open Clocked Slice

theorem Main.getLsbD_collect (first : Nat) (i : AtmEdge) (m : Main) {j : Nat} (hj : j < 8) :
    (m.collect first i).checksumForBackendResponse.getLsbD j =
      if i.h2fValid = true ∧ i.chanAddr.toNat = first + j then true
      else m.checksumForBackendResponse.getLsbD j := by
  unfold Main.collect
  by_cases hc : i.h2fValid = true ∧ first ≤ i.chanAddr.toNat ∧ i.chanAddr.toNat < first + 8
  · rw [if_pos hc]
    simp only
    rw [getLsbD_assign _ _ _ _ hj]
    by_cases hj' : i.chanAddr.toNat = first + j
    · rw [if_pos (by omega), if_pos ⟨hc.1, hj'⟩, show j - (i.chanAddr.toNat - first) = 0 by omega]
      rfl
    · rw [if_neg (by omega), if_neg fun h => hj' h.2]
  · rw [if_neg hc, if_neg fun h => hc ⟨h.1, by omega, by omega⟩]

structure Main.Collected (r : Nat → BitVec 8) (k : Nat) (m : Main) : Prop where
  present : ∀ j < 8, m.checksumForBackendResponse.getLsbD j = decide (j < k)
  bytes : ∀ j < k, byte m.responseFromBackend j = r j

namespace Main

variable {r : Nat → BitVec 8} {k : Nat} {m : Main} {i : AtmEdge}

theorem Collected.zero (h : m.checksumForBackendResponse = 0) : m.Collected r 0 where
  present := fun j _ => by simp [h]
  bytes := fun j hj => absurd hj (by omega)

theorem Collected.congr {m' : Main} (h : m.Collected r k)
    (hr : m'.responseFromBackend = m.responseFromBackend)
    (hc : m'.checksumForBackendResponse = m.checksumForBackendResponse) : m'.Collected r k where
  present := by rw [hc]; exact h.present
  bytes := by rw [hr]; exact h.bytes

theorem Collected.complete (h : m.Collected r 8) :
    m.checksumForBackendResponse = 0b11111111 := by
  apply BitVec.eq_of_getLsbD_eq
  intro j hj
  rw [h.present j hj]
  revert j
  decide

theorem Collected.incomplete (h : m.Collected r k) (hk : k < 8) :
    m.checksumForBackendResponse ≠ 0b11111111 := by
  intro hc
  have hones : ∀ j < 8, (0b11111111 : BitVec 8).getLsbD j = true := by decide
  have hb := h.present k hk
  rw [hc, hones k hk] at hb
  simp at hb

theorem Collected.collect {first : Nat} (h : m.Collected r k) (hk : k < 8) (hv : i.h2fValid = true)
    (ha : i.chanAddr.toNat = first + k) (hd : i.h2fData = r k) :
    (m.collect first i).Collected r (k + 1) := by
  have hsub : i.chanAddr.toNat - first = k := by omega
  have hc : m.collect first i = { m with
      responseFromBackend := assign m.responseFromBackend (8 * k) (r k)
      checksumForBackendResponse := assign m.checksumForBackendResponse k (1 : BitVec 1) } := by
    simp only [Main.collect, hsub, hd]
    rw [if_pos ⟨hv, by omega⟩]
  rw [hc]
  constructor
  · intro j hj
    rw [getLsbD_assign _ _ _ _ hj]
    by_cases hjk : j = k
    · simp [hjk]
    · rw [if_neg (by omega), h.present j hj]
      exact decide_eq_decide.mpr (by omega)
  · intro j hj
    rcases Nat.lt_or_eq_of_le (Nat.le_of_lt_succ hj) with hlt | rfl
    · rw [← h.bytes j hlt]
      exact byte_assign_of_ne _ _ (by omega) (by omega)
    · exact byte_assign _ _ (by omega)

end Main

def SystemState.Collects (q q' : SystemState) : Prop :=
  (q = .communicating ∧ q' = .decrypt) ∨ (q = .communicateCache ∧ q' = .updateCache)

namespace Atm

open Main Cipher

variable {g : Generics} {i : AtmEdge} {s : Atm}

theorem collect_status (i : AtmEdge) (m : Main) :
    ((status i m).collect 10 i).responseFromBackend = (m.collect 10 i).responseFromBackend ∧
      ((status i m).collect 10 i).checksumForBackendResponse =
        (m.collect 10 i).checksumForBackendResponse := by
  obtain ⟨a, u, h⟩ := exists_status i m
  rw [h]
  simp only [Main.collect]
  split
  · exact ⟨rfl, rfl⟩
  · exact ⟨rfl, rfl⟩

theorem clock_collecting {q q' : SystemState} (hq : q.Collects q')
    (hs : s.systemState = q) (hr : i.debouncedReset = false)
    (ht : (s.clock g i).systemState ≠ .communicationLost) (hn : ¬ Invalid i) :
    let c := s.collect 10 i
    (s.clock g i).startDecrypt = s.startDecrypt ∧ (s.clock g i).enInput = s.enInput ∧
      (c.checksumForBackendResponse = 0b11111111 →
        (s.clock g i).systemState = q' ∧ (s.clock g i).deInput = c.responseFromBackend) ∧
      (c.checksumForBackendResponse ≠ 0b11111111 → (s.clock g i).systemState = q ∧
        (s.clock g i).responseFromBackend = c.responseFromBackend ∧
        (s.clock g i).checksumForBackendResponse = c.checksumForBackendResponse) := by
  have he := clock_cases g i s
  generalize (s.clock g i).toMain = m at he ht
  cases he with
  | reset hr' => exact absurd hr' (by simp [hr])
  | reconnect _ hc =>
    rcases hq with ⟨rfl, -⟩ | ⟨rfl, -⟩ <;> exact absurd (hc.2.2.2.symm.trans hs) (by decide)
  | branch m _ hc hb =>
    cases hb with
    | communicating l a u r c t h _ hcol =>
      obtain ⟨hr', hc'⟩ := collect_status i s.toMain
      rw [hcol] at hr' hc'
      rcases hq with ⟨rfl, rfl⟩ | ⟨rfl, -⟩
      · have h31 : t ≠ 31 := fun h31 => ht (by simp [tick, h31])
        refine ⟨rfl, rfl, fun hF => ?_, fun hF => ?_⟩
        · rw [← hc'] at hF
          simp only [tick, if_neg h31, if_pos hF]
          exact ⟨trivial, hr'⟩
        · rw [← hc'] at hF
          simp only [tick, if_neg h31, if_neg hF, if_neg hn]
          exact ⟨trivial, hr', hc'⟩
      · exact absurd (h.symm.trans hs) (by decide)
    | communicateCache l r c h hcol =>
      rcases hq with ⟨rfl, -⟩ | ⟨rfl, rfl⟩
      · exact absurd (h.symm.trans hs) (by decide)
      · rw [hcol]
        refine ⟨rfl, rfl, fun hF => ?_, fun hF => ?_⟩
        · have hF : c = 0b11111111 := hF
          simp only [tick, if_pos hF]
          exact ⟨trivial, trivial⟩
        · have hF : c ≠ 0b11111111 := hF
          simp only [tick, if_neg hF]
          exact ⟨trivial, trivial, trivial⟩
    | _ => rcases hq with ⟨rfl, -⟩ | ⟨rfl, -⟩ <;> simp_all

theorem clock_deciphering {q : SystemState} (hq : q = .decrypt ∨ q = .updateCache)
    (hs : s.systemState = q) (hr : i.debouncedReset = false) (hd : s.decryptionOver = false) :
    (s.clock g i).systemState = q ∧ (s.clock g i).startDecrypt = true ∧
      (s.clock g i).deInput = s.deInput := by
  have he := clock_cases g i s
  generalize (s.clock g i).toMain = m at he
  cases he with
  | reset hr' => exact absurd hr' (by simp [hr])
  | reconnect _ hc =>
    rcases hq with rfl | rfl <;> exact absurd (hc.2.2.2.symm.trans hs) (by decide)
  | branch m _ hc hb =>
    cases hb with
    | decrypt l h =>
      rw [← hs, h]
      simp [tick, hd]
    | updateCache l h =>
      rw [← hs, h]
      simp [tick, hd]
    | _ => rcases hq with rfl | rfl <;> simp_all

end Atm

/-- The host writes the bytes `r` from the `k`-th on, in order, on the channels from 10 on. In
between it may idle or access channels 0 to 8. -/
inductive Sends (r : Nat → BitVec 8) : Nat → List Pins → Prop
  | nil : Sends r 8 []
  | idle (p ps) {k} : k < 8 → (p.h2fValid = true → p.chanAddr.toNat ≤ 8) → Sends r k ps →
      Sends r k (p :: ps)
  | byte (p ps) {k} : k < 8 → p.h2fValid = true → p.chanAddr.toNat = 10 + k → p.h2fData = r k →
      Sends r (k + 1) ps → Sends r k (p :: ps)

namespace TopLevel

variable {g : Generics} {q q' : SystemState} {r : Nat → BitVec 8}

def Undisturbed (g : Generics) (p : Pins) (t : TopLevel) : Prop :=
  (t.edge p).debouncedReset = false ∧ (clock g p t).atm.systemState ≠ .communicationLost

theorem Sends.collects {k : Nat} {ps : List Pins} (h : Sends r k ps) (hk : k < 8)
    (hq : q.Collects q') {t : TopLevel} (hs : t.atm.systemState = q) (hc : t.atm.Collected r k)
    (hu : Runs (clock g) (Undisturbed g) t ps) :
    (run (clock g) t ps).atm.systemState = q' ∧
      (∀ j < 8, byte (run (clock g) t ps).atm.deInput j = r j) ∧
      (run (clock g) t ps).atm.startDecrypt = t.atm.startDecrypt := by
  induction h generalizing t with
  | nil => exact absurd hk (by omega)
  | idle p ps _ hp hps ih =>
    obtain ⟨⟨hr, ht⟩, hu⟩ := hu
    have hn : ¬ Atm.Invalid (t.edge p) := fun ⟨ha, hv, _⟩ => by
      have := hp hv
      rw [show p.chanAddr = 9 from ha] at this
      exact absurd this (by decide)
    obtain ⟨hd, -, -, hkeep⟩ := Atm.clock_collecting hq hs hr ht hn
    have hcol : t.atm.collect 10 (t.edge p) = t.atm.toMain := by
      cases hv : p.h2fValid with
      | false => exact Main.collect_of_not_valid 10 _ _ hv
      | true => exact Main.collect_of_lt 10 _ _ (show p.chanAddr.toNat < 10 by have := hp hv; omega)
    rw [hcol] at hkeep
    obtain ⟨hs', hr', hc'⟩ := hkeep (hc.incomplete hk)
    obtain ⟨h₁, h₂, h₃⟩ := ih hk hs' (hc.congr hr' hc') hu
    exact ⟨h₁, h₂, h₃.trans hd⟩
  | byte p ps _ hv ha hb hps ih =>
    obtain ⟨⟨hr, ht⟩, hu⟩ := hu
    have hn : ¬ Atm.Invalid (t.edge p) := fun ⟨h9, _, _⟩ => by
      rw [show p.chanAddr = 9 from h9] at ha
      exact absurd ha (by simp; omega)
    obtain ⟨hd, -, hlast, hkeep⟩ := Atm.clock_collecting hq hs hr ht hn
    have hcol : (t.atm.collect 10 (t.edge p)).Collected r (_ + 1) := hc.collect hk hv ha hb
    rcases Nat.lt_or_eq_of_le (Nat.succ_le_of_lt hk) with hlt | heq
    · obtain ⟨hs', hr', hc'⟩ := hkeep (hcol.incomplete hlt)
      obtain ⟨h₁, h₂, h₃⟩ := ih hlt hs' (hcol.congr hr' hc') hu
      exact ⟨h₁, h₂, h₃.trans hd⟩
    · rw [Nat.succ_eq_add_one] at heq
      rw [heq] at hcol hps
      obtain ⟨hs', hdi⟩ := hlast hcol.complete
      cases hps with
      | nil =>
        refine ⟨hs', fun j hj => ?_, hd⟩
        rw [← hcol.bytes j hj]
        exact congrArg (fun v => byte v j) hdi
      | idle _ _ h8 => exact absurd h8 (by omega)
      | byte _ _ h8 => exact absurd h8 (by omega)

theorem deciphers {q : SystemState} (hq : q = .decrypt ∨ q = .updateCache) {t : TopLevel}
    (hs : t.atm.systemState = q) (hst : t.atm.startDecrypt = false) (hi : t.atm.decrypter.Idle)
    {js : List Pins} (hr : Runs (clock g) (fun p t => (t.edge p).debouncedReset = false) t js)
    (h0 : js ≠ []) (hl : js.length ≤ 34) :
    (run (clock g) t js).atm.systemState = q ∧ (run (clock g) t js).atm.startDecrypt = true ∧
      (run (clock g) t js).atm.deInput = t.atm.deInput ∧
      Cipher.WorkingAt 0xC6EF3720 decryptCycle t.atm.deInput true (js.length - 1)
        (run (clock g) t js).atm.decrypter := by
  cases js with
  | nil => exact absurd rfl h0
  | cons p js =>
    have hde (p : Pins) (u : TopLevel) (hu : (u.edge p).debouncedReset = false) :
        (clock g p u).atm.decrypter =
          Decrypter.clock ⟨false, u.atm.startDecrypt, u.atm.deInput⟩ u.atm.decrypter := by
      change Decrypter.clock ⟨(u.edge p).debouncedReset, _, _⟩ _ = _
      rw [hu]
    obtain ⟨hp, hr⟩ := hr
    obtain ⟨h₁, h₂, h₃⟩ := Atm.clock_deciphering (g := g) hq hs hp hi.2
    have hfirst : Cipher.WorkingAt 0xC6EF3720 decryptCycle t.atm.deInput true 0
        (clock g p t).atm.decrypter := by
      rw [hde p t hp, hst]
      exact (Cipher.clock_stop rfl rfl).workingAt true
    -- from the second edge on the decrypter works
    have hrest := hr.progress
      (P := fun k u => u.atm.systemState = q ∧ u.atm.startDecrypt = true ∧
        u.atm.deInput = t.atm.deInput ∧
        Cipher.WorkingAt 0xC6EF3720 decryptCycle t.atm.deInput true k u.atm.decrypter)
      (m := 33) (n := 0) (fun k hk p u hp ⟨h₁, h₂, h₃, hw⟩ => by
        have hnd : u.atm.decryptionOver = false := by
          rw [Atm.decryptionOver, hw.1.2.1]
          exact decide_eq_false (by omega)
        obtain ⟨h₁', h₂', h₃'⟩ := Atm.clock_deciphering (g := g) hq h₁ hp hnd
        refine ⟨h₁', h₂', h₃'.trans h₃, ?_⟩
        rw [hde p u hp, h₂, h₃]
        exact hw.clock) ⟨h₁, h₂, h₃, hfirst⟩ (by rw [List.length_cons] at hl; omega)
    rw [Nat.zero_add] at hrest
    exact hrest

end TopLevel

end AtmController.Frontend
