import AtmController.System.Online

namespace AtmController.System

open Clocked Backend Frontend Frontend.TopLevel

namespace Sys

variable {g : Generics} {bankID : BitVec 5} {c : Cycle} {s : Sys}

def TakesUp (c : Cycle) (s : Sys) : Prop :=
  c.act = .transfer ∧ s.host.pc = .confirm (s.data c) 2

def Offers (g : Generics) (c : Cycle) (s : Sys) : Prop :=
  s.top.atm.systemState ≠ .communicating ∧
    (s.top.clock g (s.pins c)).atm.systemState = .communicating

instance (g : Generics) (c : Cycle) (s : Sys) : Decidable (s.Offers g c) :=
  inferInstanceAs (Decidable (_ ∧ _))

def Accepts (g : Generics) (c : Cycle) (s : Sys) : Prop :=
  s.top.atm.systemState = .communicating ∧
    (s.top.clock g (s.pins c)).atm.systemState = .decrypt

/-- In cache mode the host takes up no transaction, and none is offered to a host that is still
answering an earlier message. -/
structure Synchronising (g : Generics) (c : Cycle) (s : Sys) : Prop where
  enabled : s.Enabled c
  takesUp : s.TakesUp c → s.top.atm.systemState = .communicating → s.top.atm.cacheMode = false
  offers : s.Offers g c → s.top.atm.cacheMode = true → ¬ s.host.pc.Exchanging

structure BitmapInv (s : Sys) : Prop extends s.Wf where
  fresh : s.top.atm.FreshInv
  bitmap : s.top.atm.systemState = .communicating →
    s.top.atm.checksumForBackendResponse ≠ 0b11111111

/-- In cache mode no transaction is in the hands of the host. -/
structure SynchronisedInv (s : Sys) : Prop extends s.BitmapInv where
  waiting : s.top.atm.systemState = .communicating → s.top.atm.cacheMode = true →
    ¬ s.host.pc.Exchanging

theorem fresh_of_offers (hs : s.top.atm.systemState = .encrypt) (hf : s.top.atm.FreshInv)
    (hn : (s.top.clock g (s.pins c)).atm.systemState = .communicating) :
    (s.top.clock g (s.pins c)).atm.checksumForBackendResponse = 0 ∧
      (s.top.clock g (s.pins c)).atm.cacheMode = s.top.atm.cacheMode := by
  have hr := Atm.reset_of_not_ready (g := g) (i := s.top.edge (s.pins c)) (s := s.top.atm)
    (by change (s.top.clock g (s.pins c)).atm.systemState ≠ _; rw [hn]; decide)
  obtain ⟨l, hm⟩ := Atm.clock_encrypt (g := g) hs hr
  simp only [Main.FreshInv, hs] at hf
  exact ⟨(congrArg Main.checksumForBackendResponse hm).trans hf.1,
    (congrArg Main.cacheMode hm).trans rfl⟩

theorem enters (hn : (s.top.clock g (s.pins c)).atm.systemState = .communicating) :
    s.top.atm.systemState = .encrypt ∨ s.top.atm.systemState = .communicating := by
  have hmem := Atm.mem_successors g (s.top.edge (s.pins c)) s.top.atm
  rw [show (s.top.atm.clock g _).systemState = .communicating from hn] at hmem
  exact SystemState.communicating_mem_successors hmem

theorem BitmapInv.clock (h : s.BitmapInv) (he : s.Enabled c) : (s.clock g bankID c).BitmapInv := by
  refine { h.toWf.clock he with fresh := Atm.freshInv_clock h.fresh, bitmap := fun hn => ?_ }
  rcases enters hn with hs | hs
  · intro hF
    have hz := (fresh_of_offers hs h.fresh hn).1.symm.trans hF
    exact absurd hz (by decide)
  · obtain ⟨-, hc, hne, -, -⟩ := Atm.communicating_stays hs hn
    exact fun hF => hne (hc.symm.trans hF)

theorem bitmapInv_powerUp (rows : List Row) : (powerUp rows).BitmapInv :=
  { wf_powerUp rows with
    fresh := trivial
    bitmap := fun h => SystemState.noConfusion h }

theorem Accepts.reply (h : s.Accepts g c) (hi : s.BitmapInv) (he : s.Enabled c) :
    c.act = .transfer ∧ ∃ k a, s.host.pc = .writeReply k a := by
  obtain ⟨hs, hn⟩ := h
  obtain ⟨-, -, hF⟩ := Atm.communicating_accepts hs hn
  obtain ⟨hv, hlo, hhi⟩ := Atm.valid_of_collect (i := s.top.edge (s.pins c)) (s := s.top.atm)
    (by rw [hF]; exact (hi.bitmap hs).symm)
  obtain ⟨hact, a, hpc, -⟩ := hi.reply he hv hlo hhi
  exact ⟨hact, _, a, hpc⟩

theorem exchanging_clock (hw : s.Wf) (hx : (s.clock g bankID c).host.pc.Exchanging) :
    s.host.pc.Exchanging ∨ s.TakesUp c := by
  unfold Sys.clock at hx
  cases hact : c.act with
  | transfer =>
    simp only [hact] at hx
    exact (Host.exchanging_complete hw.bounded hx).imp_right fun h => ⟨hact, h⟩
  | stop => simp only [hact] at hx; exact hx.elim
  | restart => simp only [hact] at hx; exact hx.elim
  | _ => simp only [hact] at hx; exact .inl hx

theorem TakesUp.state (h : s.TakesUp c) (hw : s.Wf) (he : s.Enabled c) :
    s.top.atm.systemState ≠ .encrypt := by
  obtain ⟨hact, hpc⟩ := h
  intro hs
  simp only [Enabled, hact] at he
  obtain ⟨op, ho, ha⟩ := hw.addressed he
  have hb := hw.bounded
  simp only [Host.op, hpc] at ho
  have hz : (s.top.edge (s.pins c)).chanAddr = 0 := by
    rw [show (s.top.edge (s.pins c)).chanAddr = s.chanAddr from rfl, ha, ← Option.some.inj ho]
    rfl
  have hd : s.data c = 0 := by
    simp only [data, TopLevel.f2hData, Atm.f2hData, hz, if_true, hs]
  rw [hpc, hd] at hb
  exact absurd hb.1 (by unfold IsMessage; decide)

theorem SynchronisedInv.clock (h : s.SynchronisedInv) (hc : s.Synchronising g c) :
    (s.clock g bankID c).SynchronisedInv := by
  refine { h.toBitmapInv.clock hc.enabled with waiting := fun hn hm hx => ?_ }
  have hx' := exchanging_clock h.toWf hx
  rcases enters hn with hs | hs
  · rw [show (s.clock g bankID c).top.atm.cacheMode = _ from (fresh_of_offers hs h.fresh hn).2] at hm
    rcases hx' with hx' | ht
    · exact hc.offers ⟨by rw [hs]; decide, hn⟩ hm hx'
    · exact ht.state h.toWf hc.enabled hs
  · obtain ⟨-, -, -, -, hcm⟩ := Atm.communicating_stays hs hn
    rw [show (s.clock g bankID c).top.atm.cacheMode = _ from hcm] at hm
    rcases hx' with hx' | ht
    · exact h.waiting hs hm hx'
    · exact Bool.noConfusion ((hc.takesUp ht hs).symm.trans hm)

/-- The host has taken up no message, or the ATM waits for its answer out of cache mode. -/
def Attentive (s : Sys) : Prop :=
  s.host.pc.Free ∨ s.top.atm.systemState = .communicating ∧ s.top.atm.cacheMode = false

theorem Attentive.not_exchanging (h : s.Attentive) (ho : s.Offers g c) :
    ¬ s.host.pc.Exchanging := by
  rcases h with h | h
  · revert h
    cases s.host.pc <;> simp [Pc.Free, Pc.Exchanging]
  · exact absurd h.1 ho.1

theorem exists_answered_withdrawal : ∃ s c, Reaches (clock {} 0) (fun c u => u.Enabled c ∧ u.Attentive)
    (powerUp [⟨0, 0, 0, 1000⟩]) s ∧ (s.Enabled c ∧ s.Attentive) ∧ s.Accepts {} c := by
  have hN : debounceTime ≤ ({} : Generics).N := by rw [debounceTime_eq]; decide
  have hlate : 2 * ({} : Generics).N + 4000 < 31 * (({} : Generics).N + 1) := by decide
  obtain ⟨s₁, h₁, hs₁, hh₁, hp₁⟩ := exists_configured {} 0 [⟨0, 0, 0, 1000⟩]
  obtain ⟨s₂, a, w, h₂, hs₂, hh₂, -, hfin, -, hw, hm₂⟩ := exists_entered {} 0 (v := 1) hN hs₁ hp₁ rfl
    (show (0 : BitVec 5) = bankBits 1 by decide)
  have hR {u : Sys} (hs : u.top.atm.systemState = .communicating)
      (hd : u.top.atm.durable = booted (decipher (ofWords befEncSenInit))) : u.Attentive :=
    .inr ⟨hs, congrArg Durable.cacheMode hd⟩
  obtain ⟨s₃, h₃, hs₃, hh₃, hm₃⟩ := exists_asked {} 0 hfin (R := Attentive) 1 rfl
    (by cases a.allocationPossible <;> rfl) hs₂ (hh₂.trans hh₁) hm₂ (by omega) fun _ => hR
  obtain ⟨s₄, h₄, hs₄, hh₄, hm₄⟩ := exists_answered {} 0 hfin (R := Attentive) (.inl rfl) hs₃ hh₃ hm₃
    (by omega) fun _ => hR
  obtain ⟨s₅, h₅, ho, hd, hs, -, -, -, hn⟩ := exists_accepted {} 0 hfin (R := Attentive) hs₄ hh₄ hm₄
    (by omega) fun _ _ => hR
  have hhead {u : Sys} (hu : u.host = s₁.host) : u.host.pc.Free := by rw [hu, hh₁]; trivial
  have hfree : Reaches (clock {} 0) (fun c u => u.Enabled c ∧ u.Attentive)
      (powerUp [⟨0, 0, 0, 1000⟩]) s₂ :=
    (h₁.mono fun _ _ h => ⟨h.1.enabled, .inl h.2⟩).trans
      (h₂.mono fun _ _ h => ⟨h.1.enabled, .inl (hhead h.2)⟩)
  have hanswer : Arrives {} 0 Attentive s₂ s₅ := (h₃.trans h₄).trans h₅
  exact ⟨s₅, _, hfree.trans (hanswer.mono fun _ _ h => ⟨h.enabled, h.meets⟩),
    ⟨ho.enabled, hR hs hd⟩, hs, hn.state⟩

abbrev Leads (g : Generics) (bankID : BitVec 5) : Sys → Sys → Prop :=
  Reaches (clock g bankID) fun c s => s.Enabled c

end Sys

end AtmController.System
