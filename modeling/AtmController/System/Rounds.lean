import AtmController.System.Dialogue
import AtmController.System.Exchange

namespace AtmController.System

open Clocked Slice Backend Frontend Frontend.TopLevel

namespace Sys

variable (g : Generics) (bankID : BitVec 5) {c : Cycle} {s : Sys}

theorem exists_regained {b : BitVec 7} {d : Durable} {a : NoteAllocator} {rows : List Row}
    (h : s.Pausing) (hh : s.host = ⟨.head, rows, rows⟩) (hc : s.chanAddr = b)
    (hb : b ≠ 0) (hp : s.top.atm.Parked g b d a) (hm : d.cacheMode = true) :
    ∃ u, Arrives g bankID (fun _ => True) s u ∧ u.Pausing ∧ u.host = ⟨.head, rows, rows⟩ ∧
      u.top.atm.Entering 0 d.cache := by
  obtain ⟨u, m, hsu, hu, -, hpm, hhost, hq⟩ := exists_access g bankID
    (R := fun _ => True) (o := .read 0) (P := fun _ m => m.Parked g b d a)
    (Q := fun m => m.Entering 0 d.cache) h (by rw [hh]; rfl)
    (fun _ _ m hm => hm.clock (by rw [hc]; exact quiet_edge _ _ _ rfl) rfl rfl)
    (fun m hpm => (hpm.reconnect hm hb rfl rfl).1)
    (fun _ _ v _ hm => ⟨fresh_of_parked hm, trivial⟩) hp
  have hz : m.f2hData (transferEdge (.read 0)) = 0 := by
    simp only [Frontend.Atm.f2hData, hpm.state]
    rfl
  refine ⟨u, hsu, hu, ?_, hq⟩
  rw [hhost, hh, hz]
  rfl

section Round

open Frontend.Atm

variable {k : Nat} {d : Cache} {rows : List Row} {a : Answer} {m : Frontend.Atm}

structure Shown (k : Nat) (d : Cache) (m : Frontend.Atm) : Prop where
  presenting : ∀ r, Presenting k d r 0 m
  enOutput : m.enOutput = encipher d.cache1

variable {g} in
theorem Shown.clock {i : AtmEdge} (h : Shown k d m) (hr : i.debouncedReset = false)
    (hv : i.h2fValid = false) : Shown k d (m.clock g i) where
  presenting := fun r => (h.presenting r).clock hr (by decide) (by
    rw [Main.collect_of_not_valid 10 i m.toMain hv]
    exact (h.presenting r).collected)
  enOutput := (Cipher.clock_output_of_stop hr (h.presenting 0).startEncrypt).trans h.enOutput

abbrev Underway (s : Sys) : Prop := s.top.atm.systemState ≠ .communicationRegained

theorem underway_of_state {q : SystemState} (h : s.top.atm.systemState = q) (hq : q ≠ .ready)
    (hq' : q ≠ .communicationRegained) : Fresh s.top.atm ∧ Underway s :=
  ⟨fresh_of_ne h hq, by rw [Underway, h]; exact hq'⟩

theorem exists_answer (h : s.Pausing) (hh : s.host = ⟨.head, rows, rows⟩)
    (hm : Shown k d s.top.atm) (ha : reconcile bankID rows (words d.cache1) = some a) :
    ∃ u, Arrives g bankID Underway s u ∧ u.Pausing ∧ u.host = ⟨.writeReply 0 a, rows, rows⟩ ∧
      Shown k d u.top.atm := by
  have hread : ∀ i < 11, ∀ s : Sys, s.Pausing → s.host.op = some (.read (.ofNat 7 (i - 2))) →
      Shown k d s.top.atm → ∃ u, Arrives g bankID Underway s u ∧ u.Pausing ∧
        u.host = s.host.complete bankID
          (if i < 3 then 5 else byte (encipher d.cache1) (i - 3)) ∧ Shown k d u.top.atm := by
    intro i hi s h ho hm
    obtain ⟨u, m, hsu, hu, -, hs, hhost, hq⟩ := exists_access g bankID
      (R := Underway) (o := .read (.ofNat 7 (i - 2))) (P := fun _ m => Shown k d m)
      (Q := fun m => Shown k d m) h ho
      (fun _ _ m hm => hm.clock rfl rfl) (fun m hm => hm.clock rfl rfl)
      (fun _ _ v _ hm => underway_of_state (hm.presenting 0).state (by decide) (by decide)) hm
    refine ⟨u, hsu, hu, ?_, hq⟩
    rw [hhost]
    congr 1
    have hst := (hs.presenting 0).state
    split_ifs with hi₃
    · rw [show i - 2 = 0 by omega]
      simp only [Frontend.Atm.f2hData, hst]
      rfl
    · rw [f2hData_of_message hi hi₃ (.inr hst), hs.enOutput]
  obtain ⟨u, hsu, hu, hhost, hmu⟩ := exists_taken g bankID (X := fun _ s => Shown k d s.top.atm)
    (.inr (.inr rfl)) hread h hh hm
  refine ⟨u, hsu, hu, ?_, hmu⟩
  simp only [hhost, Host.answer, decrypt64_readUpTo, if_true, ha, Host.reply, reconcile_status ha]

theorem exists_write {j : Nat} {Q : Frontend.Atm → Prop} (h : s.Pausing) (hj : j < 8)
    (hh : s.host = ⟨.writeReply j a, rows, rows⟩) (hm : Presenting k d a.message j s.top.atm)
    (hQ : ∀ m i, Presenting k d a.message j m → i.debouncedReset = false →
      (m.collect 10 i).Collected (byte a.message) (j + 1) → Q (m.clock g i)) :
    ∃ u b, Arrives g bankID Underway s u ∧ u.Pausing ∧ u.host = s.host.complete bankID b ∧
      Q u.top.atm := by
  obtain ⟨u, m, hsu, hu, -, -, hhost, hq⟩ := exists_access g bankID
    (R := Underway) (o := .write (.ofNat 7 (10 + j)) (replyByte a.befEncSen j))
    (P := fun _ m => Presenting k d a.message j m) (Q := Q) h (by rw [hh]; rfl)
    (fun _ _ m hm => hm.clock rfl hj (by
      rw [Main.collect_of_not_valid 10 _ m.toMain rfl]
      exact hm.collected))
    (fun m hm => hQ m _ hm rfl (hm.collected.collect hj rfl
      (by change (BitVec.ofNat 7 (10 + j)).toNat = _; rw [BitVec.toNat_ofNat]; omega)
      (by rw [Answer.message, ← replyByte_eq]; rfl)))
    (fun _ _ v _ hm => underway_of_state hm.state (by decide) (by decide)) hm
  exact ⟨u, _, hsu, hu, hhost, hq⟩

theorem exists_settled (h : s.Pausing) (hh : s.host = ⟨.writeReply 0 a, rows, rows⟩)
    (hm : Presenting k d a.message 0 s.top.atm) :
    ∃ u, Arrives g bankID Underway s u ∧ u.Pausing ∧
      u.host = ⟨.head, a.settled rows, a.settled rows⟩ ∧
      Updating k d a.message 0 u.top.atm := by
  obtain ⟨s₁, h₁, hs₁, hh₁, hm₁⟩ := exists_replied g bankID
    (X := fun j s => Presenting k d a.message j s.top.atm)
    (fun j hj s h hh hm => exists_write g bankID h (by omega) hh hm
      fun m i hm hr hcol => hm.clock hr (by omega) hcol) h hh hm
  obtain ⟨u, b, hsu, hu, hhost, hmu⟩ := exists_write g bankID
    (Q := Updating k d a.message 0) hs₁ (by decide) hh₁ hm₁ fun m i hm hr hcol => hm.take hr hcol
  refine ⟨u, h₁.trans hsu, hu, ?_, hmu⟩
  have hset : u.host = (⟨.writeReply 7 a, rows, rows⟩ : Host).settle a := by
    rw [hhost, hh₁]
    rfl
  have hh₇ : (⟨.writeReply 7 a, rows, rows⟩ : Host).Holds rows := ⟨rfl, rfl⟩
  obtain ⟨⟨hd, hc⟩, hpc⟩ := hh₇.settle (a := a)
  rw [hset, ← hd, ← hpc]
  generalize Host.settle a _ = v at hd hc
  cases v
  simp_all

theorem exists_rotated (h : s.Pausing) (hm : Updating k d a.message 0 s.top.atm) :
    ∃ u : TopLevel, Arrives g bankID Underway s { s with top := u, gap := s.gap + 35 } ∧
      u.Settled {} ∧ Entering (k + 1) (d.exchanged a.message) u.atm := by
  obtain ⟨u, hsu, hu, hmu⟩ := exists_pause g bankID (R := Underway) 35 h
    (P := fun n m => (n < 35 → Updating k d a.message n m) ∧
      (n = 35 → Entering (k + 1) (d.exchanged a.message) m))
    (fun n hn m hm => by
      have hx := hm.1 hn
      refine ⟨fun hlt => hx.clock (by omega) rfl, fun heq => ?_⟩
      obtain rfl : n = 34 := by omega
      exact hx.rotate rfl)
    (fun n hn v _ hm => underway_of_state (hm.1 hn).state (by decide) (by decide))
    ⟨fun _ => hm, fun h0 => absurd h0 (by decide)⟩
  exact ⟨u, hsu, hu, hmu.2 rfl⟩

theorem exists_shown (h : s.Pausing) (hm : Entering k d s.top.atm) (hk : k ≠ 4) :
    ∃ (u : TopLevel) (c : Cycle), Arrives g bankID (fun _ => True) s
        { s with top := u, gap := s.gap + 34 } ∧
      u.atm.systemState = .communicationRegained ∧
      Orderly (fun _ => True) c { s with top := u, gap := s.gap + 34 } ∧
      (clock g bankID c { s with top := u, gap := s.gap + 34 }).Pausing ∧
      (clock g bankID c { s with top := u, gap := s.gap + 34 }).host = s.host ∧
      Shown k d (clock g bankID c { s with top := u, gap := s.gap + 34 }).top.atm := by
  obtain ⟨u, hsu, hu, hmu⟩ := exists_pause g bankID (R := fun _ => True) 34 h
    (P := fun n m => (n = 0 → Entering k d m) ∧ (1 ≤ n → Encrypting k d (n - 1) m))
    (fun n hn m hm => by
      refine ⟨fun h0 => absurd h0 (by omega), fun _ => ?_⟩
      rcases Nat.eq_zero_or_pos n with rfl | hpos
      · exact (hm.1 rfl).clock hk rfl
      · have hx := (hm.2 hpos).clock (g := g)
          (i := Buttons.edge {} (idlePins s.chanAddr {} 0)) hk (by omega) rfl
        rwa [Nat.sub_add_cancel hpos] at hx)
    (fun n hn v _ hm => by
      refine ⟨?_, trivial⟩
      rcases Nat.eq_zero_or_pos n with rfl | hpos
      · exact fresh_of_ne (hm.1 rfl).state (by decide)
      · exact fresh_of_ne (hm.2 hpos).state (by decide))
    ⟨fun _ => hm, fun h0 => absurd h0 (by decide)⟩
  have hx : Encrypting k d 33 u.atm := hmu.2 (by decide)
  obtain ⟨hs, ha⟩ := hu.step (g := g) (p := idlePins s.chanAddr {} 0) rfl
  have hpins : pins ⟨{}, 0, .idle⟩ { s with top := u, gap := s.gap + 34 } =
      idlePins s.chanAddr {} 0 := pins_of_ne (by decide)
  refine ⟨u, ⟨{}, 0, .idle⟩, hsu, hx.state, ?_, ⟨?_, h.selected⟩, rfl, ?_⟩
  · exact orderly hu (by simp [Enabled]) (by simp) (fresh_of_ne hx.state (by decide)) trivial
  · simp only [Sys.clock, hpins]
    exact hs
  · simp only [Sys.clock, hpins]
    rw [ha]
    exact ⟨fun r => (hx.present hk rfl).1, (hx.present (r := 0) hk rfl).2⟩

theorem exists_round (h : s.Pausing) (hh : s.host = ⟨.head, rows, rows⟩)
    (hm : Entering k d s.top.atm) (hk : k ≠ 4)
    (ha : reconcile bankID rows (words d.cache1) = some a) :
    ∃ (s₁ : Sys) (c : Cycle) (u : Sys), Arrives g bankID (fun _ => True) s s₁ ∧
      s₁.top.atm.systemState = .communicationRegained ∧ Orderly (fun _ => True) c s₁ ∧
      Shown k d (clock g bankID c s₁).top.atm ∧
      (clock g bankID c s₁).host = ⟨.head, rows, rows⟩ ∧
      Arrives g bankID Underway (clock g bankID c s₁) u ∧ u.Pausing ∧
      u.host = ⟨.head, a.settled rows, a.settled rows⟩ ∧
      Entering (k + 1) (d.exchanged a.message) u.top.atm := by
  obtain ⟨t, c, h₁, hst, hc, hs₂, hh₂, hm₂⟩ := exists_shown g bankID h hm hk
  replace hh₂ := hh₂.trans hh
  obtain ⟨s₃, h₃, hs₃, hh₃, hm₃⟩ := exists_answer g bankID hs₂ hh₂ hm₂ ha
  obtain ⟨s₄, h₄, hs₄, hh₄, hm₄⟩ := exists_settled g bankID hs₃ hh₃
    (hm₃.presenting a.message)
  obtain ⟨t₅, h₅, hs₅, hm₅⟩ := exists_rotated g bankID hs₄ hm₄
  exact ⟨_, c, _, h₁, hst, hc, hm₂, hh₂, (h₃.trans h₄).trans h₅, ⟨hs₅, hs₄.selected⟩, hh₄, hm₅⟩

end Round

end Sys

end AtmController.System
