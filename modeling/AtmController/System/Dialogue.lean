import AtmController.Backend.Polling
import AtmController.System.System
import AtmController.System.WireFormat

namespace AtmController.System

open Clocked Slice Backend Frontend Frontend.TopLevel

def transferPins : Op → Pins
  | .read c => idlePins c {} 0
  | .write c b => writePins c b

theorem transferPins_buttons (o : Op) : (transferPins o).buttons = {} := by cases o <;> rfl

abbrev transferEdge (o : Op) : AtmEdge := Buttons.edge {} (transferPins o)

namespace Sys

/-- The host may do what it likes, and no reconnection is recognised while `start_encrypt` stands. -/
structure Synced (c : Cycle) (s : Sys) : Prop where
  enabled : s.Enabled c
  fresh : ¬ StaleReconnect (s.pins c) s.top

/-- A cycle without a reset in a state that meets `R`; the process goes on. -/
structure Orderly (R : Sys → Prop) (c : Cycle) (s : Sys) : Prop extends s.Synced c where
  noReset : NoReset (s.pins c) s.top
  released : c.buttons.reset = false
  goesOn : c.act ≠ .stop ∧ c.act ≠ .restart
  meets : R s

structure Uninterrupted (c : Cycle) (s : Sys) : Prop where
  enabled : s.Enabled c
  released : c.buttons.reset = false
  goesOn : c.act ≠ .stop ∧ c.act ≠ .restart

variable (g : Generics) (bankID : BitVec 5) {c : Cycle} {s : Sys} {u : TopLevel}
  {R : Sys → Prop} {o : Op}

abbrev Proceeds (R : Sys → Prop) : Sys → Sys → Prop :=
  Reaches (clock g bankID) fun c v => v.Uninterrupted c ∧ R v

theorem exists_user {ok : Pins → TopLevel → Prop}
    (hok : ∀ p t, ok p t → Silent s.chanAddr p t) (h : Reaches (TopLevel.clock g) ok s.top u)
    (hp : s.top.atm.prevChanAddr = s.chanAddr) :
    ∃ n, Reaches (clock g bankID) (fun c v => v.Synced c ∧ c.act = .idle ∧ v.host = s.host ∧
      ok (v.pins c) v.top) s { s with top := u, gap := s.gap + n } := by
  obtain ⟨ps, hr, hu⟩ := h
  induction ps generalizing s with
  | nil => exact ⟨0, by rw [← hu]; exact .refl⟩
  | cons p ps ih =>
    obtain ⟨hp', hr⟩ := hr
    obtain ⟨hv, hd, ha⟩ := hok p s.top hp'
    have hpins : s.pins ⟨p.buttons, p.swIn, .idle⟩ = p := by
      cases p
      simp_all [pins, written, Pins.buttons]
    have hclock : s.clock g bankID ⟨p.buttons, p.swIn, .idle⟩ =
        { s with top := s.top.clock g p, gap := s.gap + 1 } := by
      simp only [Sys.clock, hpins]
    obtain ⟨n, hn⟩ := ih (s := { s with top := s.top.clock g p, gap := s.gap + 1 }) hok ha hr hu
    rw [← hclock] at hn
    have hone : s.Synced ⟨p.buttons, p.swIn, .idle⟩ :=
      ⟨by simp [Enabled], fun hs => hs.2.1.2.2.1 hp⟩
    refine ⟨1 + n, ?_⟩
    rw [← Nat.add_assoc]
    exact (Reaches.single _ ⟨hone, rfl, rfl, by rw [hpins]; exact hp'⟩).trans hn

theorem exists_alone (h : Brings g s.chanAddr s.top u) (hp : s.top.atm.prevChanAddr = s.chanAddr) :
    ∃ n, Proceeds g bankID (fun v => v.host = s.host) s { s with top := u, gap := s.gap + n } := by
  obtain ⟨n, hn⟩ := exists_user g bankID (fun _ _ h => h.1) h hp
  exact ⟨n, hn.mono fun c v ⟨hv, hact, hh, ha⟩ => ⟨⟨hv.enabled, ha.2, by simp [hact]⟩, hh⟩⟩

/-- Nothing is being enciphered in Ready, so that a reconnection would be fresh. -/
def Fresh (m : Frontend.Atm) : Prop := m.systemState = .ready → m.startEncrypt = false

theorem fresh_of_ne {m : Frontend.Atm} {q : SystemState} (h : m.systemState = q)
    (hq : q ≠ .ready) : Fresh m :=
  fun h' => absurd (h.symm.trans h') hq

abbrev Arrives (R : Sys → Prop) : Sys → Sys → Prop := Reaches (clock g bankID) (Orderly R)

variable {g bankID} in
theorem proceeds_of_arrives {t : Sys} (h : Arrives g bankID R s t) : Proceeds g bankID R s t :=
  h.mono fun _ _ h => ⟨⟨h.enabled, h.released, h.goesOn⟩, h.meets⟩

structure Pausing (s : Sys) : Prop where
  settled : s.top.Settled {}
  selected : s.selected = false

theorem orderly {a : Act} (hs : s.top.Settled {}) (he : s.Enabled ⟨{}, 0, a⟩)
    (ha : a ≠ .stop ∧ a ≠ .restart) (hf : Fresh s.top.atm) (hR : R s) :
    Orderly R ⟨{}, 0, a⟩ s where
  enabled := he
  fresh := fun h => Bool.noConfusion ((hf h.2.1.2.2.2).symm.trans h.2.2)
  noReset := by
    rw [NoReset, hs.edge]
    rfl
  released := rfl
  goesOn := ha
  meets := hR

theorem exists_pause {P : Nat → Frontend.Atm → Prop} (n : Nat) (h : s.Pausing)
    (hstep : ∀ k < n, ∀ m, P k m →
      P (k + 1) (m.clock g (Buttons.edge {} (idlePins s.chanAddr {} 0))))
    (hR : ∀ k < n, ∀ v : Sys, v.host = s.host → P k v.top.atm → Fresh v.top.atm ∧ R v)
    (hP : P 0 s.top.atm) :
    ∃ u : TopLevel, Arrives g bankID R s { s with top := u, gap := s.gap + n } ∧ u.Settled {} ∧
      P n u.atm := by
  induction n with
  | zero => exact ⟨s.top, .refl, h.settled, hP⟩
  | succ n ih =>
    obtain ⟨u, hsu, hu, hPu⟩ := ih (fun k hk => hstep k (by omega)) fun k hk => hR k (by omega)
    obtain ⟨hs, ha⟩ := hu.step (g := g) (p := idlePins s.chanAddr {} 0) rfl
    obtain ⟨hf, hRu⟩ := hR n (by omega) { s with top := u, gap := s.gap + n } rfl hPu
    have hone : Orderly R ⟨{}, 0, .idle⟩ { s with top := u, gap := s.gap + n } :=
      orderly hu (by simp [Enabled]) (by simp) hf hRu
    refine ⟨_, hsu.trans (Reaches.single _ hone), hs, ?_⟩
    change P (n + 1) (u.clock g (idlePins s.chanAddr {} 0)).atm
    rw [ha]
    exact hstep n (by omega) _ hPu

theorem pins_of_ne {a : Act} (h : a ≠ .transfer) :
    s.pins ⟨{}, 0, a⟩ = idlePins s.chanAddr {} 0 := by
  cases a <;> simp_all [pins, written, idlePins]

theorem pins_transfer (ho : s.host.op = some o) (ha : s.chanAddr = o.chan) :
    s.pins ⟨{}, 0, .transfer⟩ = transferPins o := by
  cases o with
  | read c => simp [pins, written, ho, ha, transferPins, idlePins, Op.chan]
  | write c b => simp [pins, written, ho, ha, transferPins, writePins, idlePins, Op.chan]

theorem exists_selected {P : Nat → Frontend.Atm → Prop} (h : s.Pausing)
    (ho : s.host.op = some o)
    (hstep : ∀ k < 101, ∀ m, P k m →
      P (k + 1) (m.clock g (Buttons.edge {} (idlePins s.chanAddr {} 0))))
    (hR : ∀ k ≤ 101, ∀ v : Sys, v.host = s.host → P k v.top.atm → Fresh v.top.atm ∧ R v)
    (hP : P 0 s.top.atm) :
    ∃ v : Sys, Arrives g bankID R s v ∧ v.top.Settled {} ∧ v.host = s.host ∧
      v.chanAddr = o.chan ∧ Orderly R ⟨{}, 0, .transfer⟩ v ∧ P 101 v.top.atm := by
  obtain ⟨u, hsu, hu, hPu⟩ := exists_pause g bankID (R := R) 100 h
    (fun k hk => hstep k (by omega)) (fun k hk => hR k (by omega)) hP
  obtain ⟨hu₁, ha₁⟩ := hu.step (g := g) (p := idlePins s.chanAddr {} 0) rfl
  have hP₁ := hstep 100 (by omega) _ hPu
  rw [← ha₁] at hP₁
  have hpc : s.host.pc ≠ .stopped := fun hpc => by simp [Host.op, hpc] at ho
  obtain ⟨hf, hRu⟩ := hR 100 (by omega) { s with top := u, gap := s.gap + 100 } rfl hPu
  have hsel : Orderly R ⟨{}, 0, .select⟩ { s with top := u, gap := s.gap + 100 } :=
    orderly hu ⟨h.selected, by simp, hpc⟩ (by simp) hf hRu
  have hone : Arrives g bankID R _ _ := Reaches.single _ hsel
  have hclock : Sys.clock g bankID ⟨{}, 0, .select⟩ { s with top := u, gap := s.gap + 100 } =
      ⟨u.clock g (idlePins s.chanAddr {} 0), s.host, o.chan, true, s.gap + 101⟩ := by
    simp only [Sys.clock, pins_of_ne (show Act.select ≠ .transfer by decide), ho]
  rw [hclock] at hone
  obtain ⟨hf₂, hR₂⟩ := hR 101 le_rfl
    ⟨u.clock g (idlePins s.chanAddr {} 0), s.host, o.chan, true, s.gap + 101⟩ rfl hP₁
  exact ⟨_, hsu.trans hone, hu₁, rfl, rfl, orderly hu₁ (by simp [Enabled]) (by simp) hf₂ hR₂, hP₁⟩

theorem clock_transfer (hs : s.top.Settled {}) (ho : s.host.op = some o)
    (ha : s.chanAddr = o.chan) :
    let v := clock g bankID ⟨{}, 0, .transfer⟩ s
    v.Pausing ∧ v.chanAddr = o.chan ∧
      v.host = s.host.complete bankID (s.top.atm.f2hData (transferEdge o)) ∧
      v.top.atm = s.top.atm.clock g (transferEdge o) := by
  have hp := pins_transfer ho ha
  obtain ⟨hu, hat⟩ := hs.step (g := g) (transferPins_buttons o)
  refine ⟨⟨?_, rfl⟩, ha, ?_, ?_⟩
  · simp only [Sys.clock, hp]
    exact hu
  · simp only [Sys.clock, data, hp, TopLevel.f2hData, hs.edge]
  · simp only [Sys.clock, hp]
    exact hat

theorem exists_access {P : Nat → Frontend.Atm → Prop} {Q : Frontend.Atm → Prop} (h : s.Pausing)
    (ho : s.host.op = some o)
    (hstep : ∀ k < 101, ∀ m, P k m →
      P (k + 1) (m.clock g (Buttons.edge {} (idlePins s.chanAddr {} 0))))
    (hlast : ∀ m, P 101 m → Q (m.clock g (transferEdge o)))
    (hR : ∀ k ≤ 101, ∀ v : Sys, v.host = s.host → P k v.top.atm → Fresh v.top.atm ∧ R v)
    (hP : P 0 s.top.atm) :
    ∃ (u : Sys) (m : Frontend.Atm), Arrives g bankID R s u ∧ u.Pausing ∧ u.chanAddr = o.chan ∧
      P 101 m ∧ u.host = s.host.complete bankID (m.f2hData (transferEdge o)) ∧ Q u.top.atm := by
  obtain ⟨v, hsv, hv, hh, ha, htr, hPv⟩ := exists_selected g bankID h ho hstep hR hP
  obtain ⟨hu, hc, hhost, hat⟩ := clock_transfer g bankID hv (by rw [hh, ho]) ha
  refine ⟨_, v.top.atm, hsv.trans (Reaches.single _ htr), hu, hc, hPv, by rw [hhost, hh], ?_⟩
  rw [hat]
  exact hlast _ hPv

/-! ### The loops of the host -/

section Loops

variable {X : Nat → Sys → Prop} {rows : List Row} {a : Answer} {b : BitVec 8} {x : BitVec 64}

theorem exists_setup
    (hX : ∀ k < 8, ∀ s : Sys, s.Pausing → s.host = ⟨.setup k, rows, rows⟩ → X k s →
      ∃ u b, Arrives g bankID R s u ∧ u.Pausing ∧ u.host = s.host.complete bankID b ∧ X (k + 1) u)
    (h : s.Pausing) (hh : s.host = ⟨.setup 0, rows, rows⟩) (h0 : X 0 s) :
    ∃ u, Arrives g bankID R s u ∧ u.Pausing ∧ u.host = ⟨.head, rows, rows⟩ ∧ X 8 u :=
  exists_reaches
    (P := fun k (s : Sys) => s.Pausing ∧
      s.host = ⟨if k < 8 then .setup k else .head, rows, rows⟩ ∧ X k s) 8
    (fun k hk s ⟨h, hh, hx⟩ => by
      rw [if_pos hk] at hh
      obtain ⟨u, b, hsu, hu, hhost, hx'⟩ := hX k hk s h hh hx
      refine ⟨u, hsu, hu, ?_, hx'⟩
      rw [hhost, hh]
      simp only [Host.complete, Nat.lt_sub_iff_add_lt.symm]) ⟨h, hh, h0⟩

theorem f2hData_of_message {m : Frontend.Atm} {i : Nat} (hi : i < 11) (hi₃ : ¬ i < 3)
    (hs : m.systemState = .communicating ∨ m.systemState = .communicateCache) :
    m.f2hData (transferEdge (.read (.ofNat 7 (i - 2)))) = byte m.enOutput (i - 3) := by
  have hc : (transferEdge (.read (.ofNat 7 (i - 2)))).chanAddr = .ofNat 7 (i - 2) := rfl
  have hr : (transferEdge (.read (.ofNat 7 (i - 2)))).debouncedReset = false := rfl
  have hv : (BitVec.ofNat 7 (i - 2)).toNat = i - 2 := by
    rw [BitVec.toNat_ofNat]
    omega
  have hne : BitVec.ofNat 7 (i - 2) ≠ 0 := fun h0 => by
    have h := hv.symm.trans (congrArg BitVec.toNat h0)
    simp at h
    omega
  simp only [Frontend.Atm.f2hData, hc, hr, if_neg hne, hv, Bool.false_eq_true, if_false]
  rw [if_pos ⟨by omega, by omega, hs⟩, Nat.sub_sub]

theorem exists_taken (hb : IsMessage b)
    (hX : ∀ i < 11, ∀ s : Sys, s.Pausing → s.host.op = some (.read (.ofNat 7 (i - 2))) → X i s →
      ∃ u, Arrives g bankID R s u ∧ u.Pausing ∧
        u.host = s.host.complete bankID (if i < 3 then b else byte x (i - 3)) ∧ X (i + 1) u)
    (h : s.Pausing) (hh : s.host = ⟨.head, rows, rows⟩) (h0 : X 0 s) :
    ∃ u, Arrives g bankID R s u ∧ u.Pausing ∧
      u.host = Host.answer bankID b (readUpTo x 8) ⟨.readInput b 7 (readUpTo x 7), rows, rows⟩ ∧
      X 11 u := by
  obtain ⟨t, hst, ht, hht, hxt⟩ : ∃ t, Arrives g bankID R s t ∧ t.Pausing ∧
      t.host = ⟨taking b x 10, rows, rows⟩ ∧ X 10 t := exists_reaches
    (P := fun i (s : Sys) => s.Pausing ∧ s.host = ⟨taking b x i, rows, rows⟩ ∧ X i s) 10
    (fun i hi s ⟨h, hh, hx⟩ => by
      obtain ⟨u, hsu, hu, hhost, hx'⟩ := hX i (by omega) s h (by rw [hh, op_taking]) hx
      refine ⟨u, hsu, hu, ?_, hx'⟩
      rw [hhost, hh, complete_taking bankID hb hi]) ⟨h, hh, h0⟩
  obtain ⟨u, htu, hu, hhost, hx⟩ := hX 10 (by decide) t ht (by rw [hht, op_taking]) hxt
  refine ⟨u, hst.trans htu, hu, ?_, hx⟩
  rw [hhost, hht, readUpTo_succ]
  rfl

theorem exists_replied
    (hX : ∀ k < 7, ∀ s : Sys, s.Pausing → s.host = ⟨.writeReply k a, rows, rows⟩ → X k s →
      ∃ u b, Arrives g bankID R s u ∧ u.Pausing ∧ u.host = s.host.complete bankID b ∧ X (k + 1) u)
    (h : s.Pausing) (hh : s.host = ⟨.writeReply 0 a, rows, rows⟩) (h0 : X 0 s) :
    ∃ u, Arrives g bankID R s u ∧ u.Pausing ∧ u.host = ⟨.writeReply 7 a, rows, rows⟩ ∧ X 7 u :=
  exists_reaches
    (P := fun k (s : Sys) => s.Pausing ∧ s.host = ⟨.writeReply k a, rows, rows⟩ ∧ X k s) 7
    (fun k hk s ⟨h, hh, hx⟩ => by
      obtain ⟨u, b, hsu, hu, hhost, hx'⟩ := hX k hk s h hh hx
      refine ⟨u, hsu, hu, ?_, hx'⟩
      rw [hhost, hh]
      simp only [Host.complete, if_pos hk]) ⟨h, hh, h0⟩

end Loops

/-! ### The host starts -/

section Parked

variable {b : BitVec 7} {d : Durable} {a : NoteAllocator} {rows : List Row}

variable {g} in
theorem fresh_of_parked {m : Frontend.Atm} (h : m.Parked g b d a) : Fresh m :=
  fun _ => congrArg Session.startEncrypt h.session

theorem toNat_setupChan {k : Nat} (hk : k < 8) : (BitVec.ofNat 7 (18 + k)).toNat = 18 + k := by
  rw [BitVec.toNat_ofNat]
  omega

theorem exists_started (h : s.Pausing) (hh : s.host = ⟨.setup 0, rows, rows⟩)
    (hp : s.top.atm.Parked g s.chanAddr d a) :
    ∃ u, Arrives g bankID (fun _ => True) s u ∧ u.Pausing ∧ u.host = ⟨.head, rows, rows⟩ ∧
      u.chanAddr = 25 ∧ u.top.atm.Parked g 25 d a := by
  obtain ⟨u, hsu, hu, hhost, hc, hp'⟩ := exists_setup g bankID
    (X := fun k s => (k = 8 → s.chanAddr = 25) ∧ s.top.atm.Parked g s.chanAddr d a)
    (fun k hk s h hh ⟨_, hp⟩ => by
      have hne : BitVec.ofNat 7 (18 + k) ≠ 0 := fun h0 => by
        have hv := (toNat_setupChan hk).symm.trans (congrArg BitVec.toNat h0)
        exact absurd hv (by simp)
      obtain ⟨u, m, hsu, hu, hc, -, hhost, hq⟩ := exists_access g bankID
        (R := fun _ => True) (o := .write (.ofNat 7 (18 + k)) (replyByte befEncSenInit k))
        (P := fun _ m => m.Parked g s.chanAddr d a)
        (Q := fun m => m.Parked g (.ofNat 7 (18 + k)) d a) h (by rw [hh]; rfl)
        (fun _ _ m hm => hm.clock (quiet_edge _ _ _ rfl) rfl rfl)
        (fun m hm => hm.move (i := Buttons.edge {} (transferPins (.write (.ofNat 7 (18 + k)) _)))
          (fun hr => hne hr.2.1) rfl rfl rfl)
        (fun _ _ v _ hm => ⟨fresh_of_parked hm, trivial⟩) hp
      refine ⟨u, _, hsu, hu, hhost, fun h8 => ?_, by rw [hc]; exact hq⟩
      rw [hc, show k = 7 by omega]
      rfl) h hh ⟨fun h8 => absurd h8 (by decide), hp⟩
  exact ⟨u, hsu, hu, hhost, hc rfl, by rw [← hc rfl]; exact hp'⟩

end Parked

end Sys

end AtmController.System
