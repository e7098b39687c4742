import AtmController.System.Dialogue

namespace AtmController.System

open Clocked Slice Backend Frontend Frontend.TopLevel

namespace Sys

variable (g : Generics) (bankID : BitVec 5) {s : Sys} {R : Sys → Prop} {d : Durable}
  {a : NoteAllocator} {v : BitVec 64} {r : Nat → BitVec 8} {k w : Nat} {acc adm : Bool}
  {o : Op} {rows : List Row} {ans : Answer}

theorem exists_configured (rows : List Row) :
    ∃ u, Proceeds g bankID (fun u => u.host.pc.Free) (powerUp rows) u ∧ u.Pausing ∧
      u.host = ⟨.head, rows, rows⟩ ∧
      u.top.atm.Parked g u.chanAddr (booted (decipher (ofWords befEncSenInit)))
        NoteAllocator.powerUp := by
  obtain ⟨hs₁, hm₁⟩ := settingUp_clock_powerUp g 0 (byte (ofWords befEncSenInit))
  have hone : Orderly (fun u => u.host.pc.Free) ⟨{}, 0, .idle⟩ (powerUp rows) :=
    ⟨⟨trivial, fun h => SystemState.noConfusion h.2.1.2.2.2⟩, rfl, rfl, by simp, trivial⟩
  have h₁ : Arrives g bankID _ (powerUp rows) ⟨TopLevel.powerUp.clock g (idlePins 0 {} 0),
      ⟨.setup 0, rows, rows⟩, 0, false, 1⟩ := Reaches.single _ hone
  obtain ⟨s₂, h₂, hs₂, hh₂, hm₂⟩ := exists_setup g bankID
    (s := ⟨TopLevel.powerUp.clock g (idlePins 0 {} 0), ⟨.setup 0, rows, rows⟩, 0, false, 1⟩)
    (X := fun k s => (k < 8 → s.top.atm.SettingUp g s.chanAddr (booted 0) NoteAllocator.powerUp
      (byte (ofWords befEncSenInit)) k) ∧ (k = 8 → s.top.atm.DecryptingSetup g s.chanAddr
        (booted 0) NoteAllocator.powerUp (ofWords befEncSenInit) 0))
    (fun k hk s h hh ⟨hm, _⟩ => by
      obtain ⟨u, m, hsu, hu, hc, -, hhost, hq⟩ := exists_access g bankID
        (R := fun u => u.host.pc.Free)
        (o := .write (.ofNat 7 (18 + k)) (replyByte befEncSenInit k))
        (P := fun _ m => m.SettingUp g s.chanAddr (booted 0) NoteAllocator.powerUp
          (byte (ofWords befEncSenInit)) k)
        (Q := fun m => (k < 7 → m.SettingUp g (.ofNat 7 (18 + k)) (booted 0) NoteAllocator.powerUp
          (byte (ofWords befEncSenInit)) (k + 1)) ∧ (k = 7 → m.DecryptingSetup g
            (.ofNat 7 (18 + k)) (booted 0) NoteAllocator.powerUp (ofWords befEncSenInit) 0)) h
        (by rw [hh]; rfl)
        (fun _ _ m hm => hm.idle (i := Buttons.edge {} (idlePins s.chanAddr {} 0)) rfl hk rfl)
        (fun m hm => ⟨fun h7 => hm.receive (i := transferEdge (.write (.ofNat 7 (18 + k)) _)) rfl h7
          (toNat_setupChan hk) rfl (replyByte_eq befEncSenInit k), fun h7 => by
            subst h7
            exact hm.lastByte (i := transferEdge (.write 25 _)) rfl rfl rfl
              (replyByte_eq befEncSenInit 7)⟩)
        (fun _ _ v hv hm => ⟨fresh_of_ne hm.state (by decide), by rw [hv, hh]; trivial⟩) (hm hk)
      refine ⟨u, _, hsu, hu, hhost, fun h7 => ?_, fun h7 => ?_⟩
      · rw [hc]
        exact hq.1 (by omega)
      · rw [hc]
        exact hq.2 (by omega))
    ⟨hs₁, rfl⟩ rfl ⟨fun _ => hm₁, fun h0 => absurd h0 (by decide)⟩
  obtain ⟨t₃, h₃, hs₃, hp₃⟩ := exists_limited (c := s₂.chanAddr) hs₂.settled (hm₂.2 rfl)
  obtain ⟨n, hn⟩ := exists_alone g bankID (brings_of_calm h₃) (hm₂.2 rfl).addr
  have hhead {v : Sys} (hv : v.host = s₂.host) : v.host.pc.Free := by rw [hv, hh₂]; trivial
  exact ⟨_, ((proceeds_of_arrives h₁).trans (proceeds_of_arrives h₂)).trans
    (hn.mono fun _ _ h => ⟨h.1, hhead h.2⟩), ⟨hs₃, hs₂.selected⟩, hh₂, hp₃⟩

theorem exists_entered (hN : debounceTime ≤ g.N) (h : s.Pausing)
    (hp : s.top.atm.Parked g s.chanAddr d a) (ha : a.binarysearchStart = false)
    (hb : d.bankId = bankBits v) :
    ∃ u a' w, Proceeds g bankID (fun u => u.host = s.host) s u ∧ u.Pausing ∧ u.host = s.host ∧
      u.chanAddr = s.chanAddr ∧ a'.systemState = .finished ∧ a'.binarysearchStart = false ∧
      w ≤ 2 * g.N ∧
      u.top.atm.Waiting g u.chanAddr d a' v (fun _ => 0) 0 false false w := by
  obtain ⟨t, n, w, ht, hs, hn, hw, hm⟩ := exists_waiting hN h.settled hp hb fun _ => 0
  obtain ⟨m, hm'⟩ := exists_alone g bankID (brings_of_calm ht) hp.addr
  have hfin := allocating_finished (d := d) (v := v) ha hn
  exact ⟨_, _, w, hm', ⟨hs, h.selected⟩, rfl, rfl, hfin.state, hfin.search, hw, hm⟩

section Waiting

variable (ha : a.systemState = .finished)

include ha

theorem waiting_idle {c : BitVec 7} {m : Frontend.Atm} (hm : m.Waiting g c d a v r k acc adm w)
    (hk : k < 8) (hw : w + 1 < 31 * (g.N + 1)) :
    (m.clock g (Buttons.edge {} (idlePins c {} 0))).Waiting g c d a v r k acc adm (w + 1) := by
  have hn := hm.idle (i := Buttons.edge {} (idlePins c {} 0)) rfl hk rfl hw
  rwa [NoteAllocator.clock_finished rfl rfl ha] at hn

theorem exists_waited {Q : Frontend.Atm → Prop} (h : s.Pausing) (ho : s.host.op = some o)
    (hm : s.top.atm.Waiting g s.chanAddr d a v r k acc adm w) (hk : k < 8)
    (hw : w + 101 < 31 * (g.N + 1))
    (hR : ∀ u : Sys, u.host = s.host → u.top.atm.systemState = .communicating →
      u.top.atm.durable = d → R u)
    (hlast : ∀ m, Frontend.Atm.Waiting g s.chanAddr d a v r k acc adm (w + 101) m →
      Q (m.clock g (transferEdge o))) :
    ∃ u m, Arrives g bankID R s u ∧ u.Pausing ∧ u.chanAddr = o.chan ∧
      Frontend.Atm.Waiting g s.chanAddr d a v r k acc adm (w + 101) m ∧
      u.host = s.host.complete bankID (m.f2hData (transferEdge o)) ∧ Q u.top.atm :=
  exists_access g bankID (P := fun j m => m.Waiting g s.chanAddr d a v r k acc adm (w + j)) h ho
    (fun j _ m hm => waiting_idle g ha hm hk (show w + j + 1 < _ by omega)) hlast
    (fun j _ u hu hm => ⟨fresh_of_ne hm.state (by decide), hR u hu hm.state hm.durable⟩) hm

theorem exists_asked {b : BitVec 8} (st : BitVec 8) (hb : b = if a.allocationPossible then 1 else 2)
    (hst : (transact bankID rows b (words v)).status = some st) (h : s.Pausing)
    (hh : s.host = ⟨.head, rows, rows⟩) (hm : s.top.atm.Waiting g s.chanAddr d a v r 0 acc adm w)
    (hw : w + 1122 < 31 * (g.N + 1))
    (hR : ∀ u : Sys, u.top.atm.systemState = .communicating → u.top.atm.durable = d → R u) :
    ∃ u, Arrives g bankID R s u ∧ u.Pausing ∧
      u.host = ⟨.writeStatus st (transact bankID rows b (words v)), rows, rows⟩ ∧
      u.top.atm.Waiting g u.chanAddr d a v r 0 acc adm (w + 1122) := by
  have hb' : IsMessage b ∧ b ≠ 5 := by
    rw [hb]
    cases a.allocationPossible <;> exact ⟨by unfold IsMessage; decide, by decide⟩
  obtain ⟨u, hsu, hu, hhost, hmu⟩ := exists_taken g bankID (R := R) (x := encipher v)
    (X := fun i s => s.top.atm.Waiting g s.chanAddr d a v r 0 acc adm (w + 102 * i)) hb'.1
    (fun i hi s h ho hm => by
      obtain ⟨u, m, hsu, hu, hc, hmm, hhost, hq⟩ := exists_waited g bankID ha (R := R)
        (Q := fun m => m.Waiting g (.ofNat 7 (i - 2)) d a v r 0 acc adm (w + 102 * i + 102)) h
        ho hm (by decide) (by omega) (fun u _ => hR u)
        (fun m hm => by
          have hn := hm.idle (i := transferEdge (.read (.ofNat 7 (i - 2)))) rfl (by decide) rfl
            (by omega)
          rwa [NoteAllocator.clock_finished rfl rfl ha] at hn)
      refine ⟨u, hsu, hu, ?_, by rw [hc]; exact hq⟩
      rw [hhost]
      congr 1
      split_ifs with hi₃
      · rw [show i - 2 = 0 by omega, hb, ← hmm.allocator]
        simp only [Frontend.Atm.f2hData, hmm.state]
        rfl
      · rw [f2hData_of_message hi hi₃ (.inl hmm.state),
          show m.enOutput = _ from hmm.encrypter.output.trans (result_encrypt v)]) h hh hm
  refine ⟨u, hsu, hu, ?_, hmu⟩
  simp only [hhost, Host.answer, decrypt64_readUpTo, if_neg hb'.2, Host.reply, hst]

theorem exists_answered {b : BitVec 8} (hb : b = 1 ∨ b = 2 ∨ b = 3) (h : s.Pausing)
    (hh : s.host = ⟨.writeStatus b ans, rows, rows⟩)
    (hm : s.top.atm.Waiting g s.chanAddr d a v r 0 acc adm w) (hw : w + 102 < 31 * (g.N + 1))
    (hR : ∀ u : Sys, u.top.atm.systemState = .communicating → u.top.atm.durable = d → R u) :
    ∃ u, Arrives g bankID R s u ∧ u.Pausing ∧ u.host = ⟨.writeReply 0 ans, rows, rows⟩ ∧
      u.top.atm.Waiting g u.chanAddr d a v r 0
        (if b = 1 then true else if b = 2 then false else acc) (decide (b = 3)) (w + 102) := by
  obtain ⟨u, m, hsu, hu, hc, -, hhost, hq⟩ := exists_waited g bankID ha (R := R)
    (o := .write 9 b) (Q := fun m => m.Waiting g 9 d a v r 0
      (if b = 1 then true else if b = 2 then false else acc) (decide (b = 3)) (w + 102)) h
    (by rw [hh]; rfl) hm (by decide) (by omega) (fun u _ => hR u)
    (fun m hm => by
      have hn := hm.answer (i := transferEdge (.write 9 b)) rfl (by decide) rfl rfl hb (by omega)
      rwa [NoteAllocator.clock_finished rfl rfl ha] at hn)
  refine ⟨u, hsu, hu, ?_, by rw [hc]; exact hq⟩
  rw [hhost, hh]
  rfl

theorem exists_accepted (h : s.Pausing) (hh : s.host = ⟨.writeReply 0 ans, rows, rows⟩)
    (hm : s.top.atm.Waiting g s.chanAddr d a v r 0 acc adm w)
    (hw : w + 816 < 31 * (g.N + 1))
    (hR : ∀ u : Sys, (∃ k, u.host.pc = .writeReply k ans) →
      u.top.atm.systemState = .communicating → u.top.atm.durable = d → R u) :
    ∃ u, Arrives g bankID R s u ∧ Orderly R ⟨{}, 0, .transfer⟩ u ∧ u.top.atm.durable = d ∧
      u.top.atm.systemState = .communicating ∧
      (u.clock g bankID ⟨{}, 0, .transfer⟩).Pausing ∧
      (u.clock g bankID ⟨{}, 0, .transfer⟩).chanAddr = 17 ∧
      (u.clock g bankID ⟨{}, 0, .transfer⟩).host = Host.settle ans ⟨.writeReply 7 ans, rows, rows⟩ ∧
      Frontend.Atm.Decrypting g 17 d a v (ofWords ans.befEncSen) acc adm 0
        (u.clock g bankID ⟨{}, 0, .transfer⟩).top.atm := by
  have hm₀ : s.top.atm.Waiting g s.chanAddr d a v (byte (ofWords ans.befEncSen)) 0 acc adm w :=
    { hm with collected := ⟨hm.collected.present, fun j hj => absurd hj (Nat.not_lt_zero j)⟩ }
  obtain ⟨s₁, h₁, hs₁, hh₁, hm₁⟩ := exists_replied g bankID (R := R)
    (X := fun j s => s.top.atm.Waiting g s.chanAddr d a v (byte (ofWords ans.befEncSen)) j acc adm
      (w + 102 * j))
    (fun j hj s h hh hm => by
      obtain ⟨u, m, hsu, hu, hc, -, hhost, hq⟩ := exists_waited g bankID ha (R := R)
        (o := .write (.ofNat 7 (10 + j)) (replyByte ans.befEncSen j))
        (Q := fun m => m.Waiting g (.ofNat 7 (10 + j)) d a v (byte (ofWords ans.befEncSen)) (j + 1)
          acc adm (w + 102 * j + 102)) h (by rw [hh]; rfl) hm (by omega) (by omega)
        (fun u hu => hR u ⟨j, by rw [hu, hh]⟩)
        (fun m hm => by
          have hn := hm.receive
            (i := transferEdge (.write (.ofNat 7 (10 + j)) (replyByte ans.befEncSen j))) rfl hj
            (by change (BitVec.ofNat 7 (10 + j)).toNat = _; rw [BitVec.toNat_ofNat]; omega) rfl
            (replyByte_eq ans.befEncSen j) (by omega)
          rwa [NoteAllocator.clock_finished rfl rfl ha] at hn)
      exact ⟨u, _, hsu, hu, hhost, by rw [hc]; exact hq⟩) h hh hm₀
  obtain ⟨u, h₂, hu, hhost, hc, ho, hm₂⟩ := exists_selected g bankID (R := R)
    (o := .write 17 (replyByte ans.befEncSen 7))
    (P := fun i m => m.Waiting g s₁.chanAddr d a v (byte (ofWords ans.befEncSen)) 7 acc adm
      (w + 714 + i)) hs₁ (by rw [hh₁]; rfl)
    (fun i _ m hm => waiting_idle g ha hm (by decide) (show w + 714 + i + 1 < _ by omega))
    (fun i _ u hu hm => ⟨fresh_of_ne hm.state (by decide),
      hR u ⟨7, by rw [hu, hh₁]⟩ hm.state hm.durable⟩) hm₁
  have hop : u.host.op = some (.write 17 (replyByte ans.befEncSen 7)) := by
    rw [hhost, hh₁]
    rfl
  obtain ⟨hu', hc', hhost', hat⟩ := clock_transfer g bankID hu hop hc
  refine ⟨u, h₁.trans h₂, ho, hm₂.durable, hm₂.state, hu', hc', ?_, ?_⟩
  · rw [hhost', hhost, hh₁]
    rfl
  · have hn := hm₂.lastByte (i := transferEdge (.write 17 (replyByte ans.befEncSen 7))) rfl rfl rfl
      (replyByte_eq ans.befEncSen 7) (by omega)
    rw [NoteAllocator.clock_finished rfl rfl ha] at hn
    rwa [hat]

end Waiting

end Sys

end AtmController.System
