import AtmController.Frontend.Session

namespace AtmController.Frontend

open Clocked Slice

namespace Atm

open Main Cipher

variable {g : Generics} {c : BitVec 7} {d : Durable} {a : NoteAllocator} {x : BitVec 64}
  {r : Nat → BitVec 8} {k n : Nat} {i : AtmEdge} {s : Atm} {m : Main}

structure Unstarted (g : Generics) (c : BitVec 7) (d : Durable) (a : NoteAllocator) (s : Atm) :
    Prop where
  durable : s.durable = d
  addr : s.prevChanAddr = c
  timeCounter : s.timeCounter ≤ g.N
  startNoteAllocation : s.startNoteAllocation = false
  allocator : s.noteAllocator = a.stopped

theorem Unstarted.clock {d' : Durable} (h : Unstarted g c d a s) (hr : i.debouncedReset = false)
    (hm : (s.clock g i).toMain = tick g i m) (hd : m.durable = d')
    (ht : m.timeCounter = s.timeCounter) (hn : m.startNoteAllocation = s.startNoteAllocation) :
    Unstarted g i.chanAddr d' a (s.clock g i) where
  durable := by rw [hm]; exact hd
  addr := by rw [hm]; rfl
  timeCounter := by rw [hm]; exact tick_timeCounter_le (by rw [ht]; exact h.timeCounter)
  startNoteAllocation := by rw [hm]; exact hn.trans h.startNoteAllocation
  allocator := by
    rw [← NoteAllocator.stopped_stopped, ← h.allocator]
    exact NoteAllocator.clock_eq_stopped hr h.startNoteAllocation

theorem Unstarted.holding (h : Unstarted g c d a s) : s.Holding a.binarysearchStart :=
  .inr (by rw [h.allocator]; rfl)

structure SettingUp (g : Generics) (c : BitVec 7) (d : Durable) (a : NoteAllocator)
    (r : Nat → BitVec 8) (k : Nat) (s : Atm) : Prop extends Unstarted g c d a s where
  state : s.systemState = .setup
  collected : s.Collected r k
  startDecrypt : s.startDecrypt = false
  decrypter : s.decrypter.Idle

theorem SettingUp.clock (h : SettingUp g c d a r k s) (hr : i.debouncedReset = false) {k' : Nat}
    (hk : k' < 8) (hcol : (s.collect 18 i).Collected r k') :
    SettingUp g i.chanAddr d a r k' (s.clock g i) := by
  have hm := clock_of_not_ready (g := g) hr (s := s) (by simp [h.state])
  obtain ⟨r', c', hc⟩ := exists_collect 18 i s.toMain
  rw [hc] at hcol
  have hN : c' ≠ 0b11111111 := hcol.incomplete hk
  have hbr : s.branch g i = s.setup g i := by simp only [branch, h.state]
  rw [hbr, setup, hc] at hm
  simp only at hm
  rw [if_neg hN, blink] at hm
  exact { h.toUnstarted.clock hr hm h.durable rfl rfl with
    state := by rw [hm]; exact h.state
    collected := by rw [hm]; exact hcol.congr rfl rfl
    startDecrypt := by rw [hm]; exact h.startDecrypt
    decrypter := clock_stop hr h.startDecrypt }

theorem SettingUp.idle (h : SettingUp g c d a r k s) (hr : i.debouncedReset = false) (hk : k < 8)
    (hv : i.h2fValid = false) : SettingUp g i.chanAddr d a r k (s.clock g i) := by
  refine h.clock hr hk ?_
  rw [Main.collect_of_not_valid _ _ _ hv]
  exact h.collected

theorem SettingUp.receive (h : SettingUp g c d a r k s) (hr : i.debouncedReset = false)
    (hk : k < 7) (hc : i.chanAddr.toNat = 18 + k) (hv : i.h2fValid = true)
    (hb : i.h2fData = r k) : SettingUp g i.chanAddr d a r (k + 1) (s.clock g i) :=
  h.clock hr (by omega) (h.collected.collect (by omega) hv hc hb)

structure DecryptingSetup (g : Generics) (c : BitVec 7) (d : Durable) (a : NoteAllocator)
    (x : BitVec 64) (n : Nat) (s : Atm) : Prop extends Unstarted g c d a s where
  state : s.systemState = .decryptSetup
  deInput : s.deInput = x
  startDecrypt : s.startDecrypt = decide (1 ≤ n)
  decrypter : WorkingAt 0xC6EF3720 decryptCycle x s.startDecrypt (n - 1) s.decrypter

theorem SettingUp.lastByte (h : SettingUp g c d a (fun j => byte x j) 7 s)
    (hr : i.debouncedReset = false) (hc : i.chanAddr.toNat = 25) (hv : i.h2fValid = true)
    (hb : i.h2fData = byte x 7) : DecryptingSetup g i.chanAddr d a x 0 (s.clock g i) := by
  have hm := clock_of_not_ready (g := g) hr (s := s) (by simp [h.state])
  obtain ⟨r', c', hcc⟩ := exists_collect 18 i s.toMain
  have hcol := h.collected.collect (by omega) hv hc hb
  rw [hcc] at hcol
  have hF : c' = 0b11111111 := hcol.complete
  have hx : r' = x := ext_bytes (m := 8) fun j hj => hcol.bytes j hj
  have hbr : s.branch g i = s.setup g i := by simp only [branch, h.state]
  rw [hbr, setup, hcc] at hm
  simp only at hm
  rw [if_pos hF, hx, blink] at hm
  have hsd : (s.clock g i).startDecrypt = false := by rw [hm]; exact h.startDecrypt
  have hidle : (s.clock g i).decrypter.Idle := clock_stop hr h.startDecrypt
  exact { h.toUnstarted.clock hr hm h.durable rfl rfl with
    state := by rw [hm]; rfl
    deInput := by rw [hm]; rfl
    startDecrypt := hsd
    decrypter := hidle.workingAt _ }

theorem DecryptingSetup.clock (h : DecryptingSetup g c d a x n s) (hn : n < 34)
    (hr : i.debouncedReset = false) : DecryptingSetup g i.chanAddr d a x (n + 1) (s.clock g i) := by
  have hm := clock_of_not_ready (g := g) hr (s := s) (by simp [h.state])
  have hd : s.decryptionOver = false := by
    rw [decryptionOver, h.decrypter.1.2.1]
    exact decide_eq_false (by omega)
  simp only [branch, h.state, decryptSetup, hd, blink, Bool.false_eq_true, if_false] at hm
  have hsd : (s.clock g i).startDecrypt = true := by rw [hm]; rfl
  have hw := clock_decrypter_at (g := g) h.decrypter h.startDecrypt h.deInput hr
  exact { h.toUnstarted.clock hr hm h.durable rfl rfl with
    state := by rw [hm]; rfl
    deInput := by rw [hm]; exact h.deInput
    startDecrypt := by rw [hsd, decide_eq_true (show 1 ≤ n + 1 by omega)]
    decrypter := by rw [hsd]; exact hw }

theorem DecryptingSetup.ready (h : DecryptingSetup g c d a x 34 s) (hr : i.debouncedReset = false) :
    Unstarted g i.chanAddr
        { d with limits := ⟨high (decipher x), noteBytes (decipher x)⟩ } a (s.clock g i) ∧
      (s.clock g i).systemState = .ready := by
  have hm := clock_of_not_ready (g := g) hr (s := s) (by simp [h.state])
  have hd : s.decryptionOver = true := by
    rw [decryptionOver, h.decrypter.1.2.1]
    rfl
  have hf : Finished 0xC6EF3720 decryptCycle x s.decrypter := ⟨33, le_rfl, h.decrypter.1⟩
  have hx : s.deOutput = decipher x := hf.output.trans (result_decrypt x)
  simp only [branch, h.state, decryptSetup, hd, hx, blink, if_true] at hm
  refine ⟨h.toUnstarted.clock hr hm ?_ rfl rfl, by rw [hm]; rfl⟩
  rw [← h.durable]
  rfl

theorem Unstarted.parked {j : AtmEdge} (h : Unstarted g c d a s) (hs : s.systemState = .ready)
    (hi : i.Quiet c) (hj : j.Quiet c) (hil : i.debouncedLoadBankId = false)
    (his : i.debouncedStart = false) (hjl : j.debouncedLoadBankId = false)
    (hjs : j.debouncedStart = false) : Parked g c d a ((s.clock g i).clock g j) := by
  have hp := parked_of_ready hs h.timeCounter h.addr hi hj hil his hjl hjs
  rw [h.durable, NoteAllocator.clock_eq_stopped rfl h.startNoteAllocation, h.allocator] at hp
  exact { hp with }

theorem timeCounter_clock_eq (hr : i.debouncedReset = false) :
    (s.clock g i).timeCounter = if s.timeCounter = g.N then 0 else s.timeCounter + 1 := by
  have he := clock_cases g i s
  generalize (s.clock g i).toMain = m at he
  cases he with
  | reset hr' => exact absurd (hr.symm.trans hr') Bool.noConfusion
  | reconnect hr' hc => rfl
  | branch m hr' hc hb => cases hb <;> rfl

theorem timeCounter_clock_mod (hr : i.debouncedReset = false) (h : s.timeCounter ≤ g.N) :
    (s.clock g i).timeCounter = (s.timeCounter + 1) % (g.N + 1) := by
  rw [timeCounter_clock_eq hr]
  split_ifs with hN
  · rw [hN, Nat.mod_self]
  · rw [Nat.mod_eq_of_lt (by omega)]

end Atm

namespace TopLevel

open Atm

variable {g : Generics} {c : BitVec 7} {d : Durable} {a : NoteAllocator} {v x : BitVec 64}
  {t u : TopLevel}

abbrev Leads (g : Generics) : TopLevel → TopLevel → Prop := Reaches (clock g) fun _ _ => True

theorem leads_of_reaches {ok : Pins → TopLevel → Prop} (h : Reaches (clock g) ok t u) :
    Leads g t u := h.mono fun _ _ _ => trivial

theorem Leads.trans {ok : Pins → TopLevel → Prop} {w : TopLevel} (h : Leads g t u)
    (h' : Reaches (clock g) ok u w) : Leads g t w := Reaches.trans h (leads_of_reaches h')

theorem Leads.step (h : Leads g t u) (p : Pins) : Leads g t (clock g p u) :=
  Reaches.trans h (.single p trivial)

def writePins (c : BitVec 7) (b : BitVec 8) : Pins :=
  { idlePins c {} 0 with h2fValid := true, h2fData := b }

theorem Settled.step {p : Pins} {b : Buttons} (h : t.Settled b) (hp : p.buttons = b) :
    (TopLevel.clock g p t).Settled b ∧
      (TopLevel.clock g p t).atm = Atm.clock g (b.edge p) t.atm := by
  rw [← hp] at h ⊢
  exact h.iterate 1

theorem Settled.steps {P : Nat → Atm → Prop} {Q : Atm → Prop} {p : Nat → Pins} (n : Nat)
    (hp : ∀ k < n, (p k).buttons = {})
    (hstep : ∀ k < n, ∀ s, P k s → P (k + 1) (s.clock g (Buttons.edge {} (p k))))
    (hQ : ∀ k < n, ∀ s, P k s → Q s) (h : t.Settled {}) (hP : P 0 t.atm) :
    ∃ u, Reaches (TopLevel.clock g) (Tended Q) t u ∧ u.Settled {} ∧ P n u.atm := by
  induction n with
  | zero => exact ⟨t, .refl, h, hP⟩
  | succ n ih =>
    obtain ⟨u, htu, hu, hPu⟩ := ih (fun k hk => hp k (by omega)) (fun k hk => hstep k (by omega))
      fun k hk => hQ k (by omega)
    obtain ⟨hs, ha⟩ := hu.step (g := g) (hp n (by omega))
    refine ⟨_, htu.trans (.single (p n) ⟨congrArg _ (hu.edge (p n)), hQ n (by omega) _ hPu⟩), hs,
      ?_⟩
    rw [ha]
    exact hstep n (by omega) _ hPu

theorem Settled.tended {Q : Atm → Prop} {p : Pins} (h : t.Settled {}) (hp : p.buttons = {})
    (hQ : Q t.atm) : ∃ u, Reaches (TopLevel.clock g) (Tended Q) t u ∧ u.Settled {} ∧
      u.atm = t.atm.clock g (Buttons.edge {} p) := by
  obtain ⟨hs, ha⟩ := h.step (g := g) hp
  exact ⟨_, .single p ⟨congrArg _ (h.edge p), hQ⟩, hs, ha⟩

theorem exists_replied {b : BitVec 8} {w : Nat} (h : t.Settled {})
    (hw : t.atm.Waiting g c d a v (byte x) 0 false false w) (ha : a.systemState = .finished)
    (hb : b = 1 ∨ b = 2 ∨ b = 3) (hlt : w + 8 < 31 * (g.N + 1)) :
    ∃ u c, Reaches (clock g) (Tended (Asking false)) t u ∧ u.Settled {} ∧
      u.atm.Waiting g c d a v (byte x) 7 (decide (b = 1)) (decide (b = 3)) (w + 8) := by
  have hfin : NoteAllocator.clock ⟨false, true, d.stock, d.limits, low v⟩ a = a :=
    NoteAllocator.clock_finished rfl rfl ha
  obtain ⟨t₁, h₁, hs₁, hw₁⟩ : ∃ u, Reaches (clock g) (Tended (Asking false)) t u ∧ u.Settled {} ∧
      ∃ c, u.atm.Waiting g c d a v (byte x) 0 (decide (b = 1)) (decide (b = 3)) (w + 1) := by
    obtain ⟨u, htu, hs, hat⟩ := h.tended (g := g) (Q := Asking false) (p := writePins 9 b) rfl
      hw.asking
    refine ⟨u, htu, hs, 9, ?_⟩
    have hn := hw.answer (i := Buttons.edge {} (writePins 9 b)) rfl (by omega) rfl rfl hb (by omega)
    rw [hfin] at hn
    rw [hat]
    convert hn using 1
    all_goals rcases hb with rfl | rfl | rfl <;> rfl
  obtain ⟨t₂, h₂, hs₂, c₂, hw₂⟩ := hs₁.steps (g := g) 7
    (P := fun k s => ∃ c, s.Waiting g c d a v (byte x) k (decide (b = 1)) (decide (b = 3))
      (w + 1 + k))
    (p := fun k => writePins (BitVec.ofNat 7 (10 + k)) (byte x k)) (fun _ _ => rfl)
    (fun k hk s ⟨c, hs⟩ => by
      have hn := hs.receive (i := Buttons.edge {} (writePins (BitVec.ofNat 7 (10 + k)) (byte x k)))
        rfl hk (by change (BitVec.ofNat 7 (10 + k)).toNat = _; rw [BitVec.toNat_ofNat]; omega) rfl
        rfl (by omega)
      rw [hfin] at hn
      exact ⟨_, hn⟩) (fun _ _ _ ⟨_, hs⟩ => hs.asking) hw₁
  exact ⟨t₂, c₂, h₁.trans h₂, hs₂, hw₂⟩

theorem exists_waited {r : Nat → BitVec 8} {acc adm : Bool} {k w n : Nat} (h : t.Settled {})
    (hw : t.atm.Waiting g c d a v r k acc adm w) (ha : a.systemState = .finished) (hk : k < 8)
    (hn : w ≤ n) (hlt : n < 31 * (g.N + 1)) :
    ∃ u c, Reaches (clock g) (Tended (Asking false)) t u ∧ u.Settled {} ∧
      u.atm.Waiting g c d a v r k acc adm n := by
  obtain ⟨u, hu, hs, c', hp⟩ := h.steps (g := g) (n - w) (Q := Asking false)
    (P := fun j s => ∃ c, s.Waiting g c d a v r k acc adm (w + j))
    (p := fun _ => idlePins c {} 0) (fun _ _ => rfl)
    (fun j hj s ⟨c', hs⟩ => by
      have hi := hs.idle (i := Buttons.edge {} (idlePins c {} 0)) rfl hk rfl (by omega)
      rw [NoteAllocator.clock_finished rfl rfl ha] at hi
      exact ⟨_, hi⟩) (fun _ _ _ ⟨_, hs⟩ => hs.asking) ⟨_, hw⟩
  rw [Nat.add_sub_cancel' hn] at hp
  exact ⟨u, c', hu, hs, hp⟩

theorem exists_deciphered {acc adm : Bool} (h : t.Settled {})
    (hd : t.atm.Decrypting g c d a v x acc adm 0) (ha : a.systemState = .finished) :
    ∃ u c, Reaches (clock g) (Tended (Answered acc adm)) t u ∧ u.Settled {} ∧
      u.atm.Decrypting g c d a v x acc adm 34 ∧
      u.atm.timeCounter = (t.atm.timeCounter + 34) % (g.N + 1) := by
  obtain ⟨u, hu, hs, ⟨c', hp⟩, ht⟩ := h.steps (g := g) 34 (Q := Answered acc adm)
    (P := fun k s => (∃ c, s.Decrypting g c d a v x acc adm k) ∧
      s.timeCounter = (t.atm.timeCounter + k) % (g.N + 1))
    (p := fun _ => idlePins c {} 0) (fun _ _ => rfl)
    (fun k hk s ⟨⟨c', hs⟩, ht⟩ => by
      have hn := hs.clock (i := Buttons.edge {} (idlePins c {} 0)) hk rfl
      rw [NoteAllocator.clock_finished rfl rfl ha] at hn
      refine ⟨⟨_, hn⟩, ?_⟩
      rw [timeCounter_clock_mod rfl hs.timeCounter, ht, Nat.mod_add_mod]
      rfl) (fun _ _ _ ⟨⟨_, hs⟩, _⟩ => hs.answered)
    ⟨⟨_, hd⟩, (Nat.mod_eq_of_lt (Nat.lt_succ_of_le hd.timeCounter)).symm⟩
  exact ⟨u, c', hu, hs, hp, ht⟩

theorem exists_settling {b : BitVec 8} {w : Nat} (h : t.Settled {})
    (hw : t.atm.Waiting g c d a v (byte x) 0 false false w) (ha : a.systemState = .finished)
    (hb : b = 1 ∨ b = 2 ∨ b = 3) (hlt : w + 9 < 31 * (g.N + 1)) :
    ∃ u, Reaches (clock g) (Tended fun s => s.Asking false ∨
        s.Answered (decide (b = 1)) (decide (b = 3))) t u ∧ u.Settled {} ∧
      u.atm.Settling g c d a v x (decide (b = 1))
        (if b = 3 then .loadingCash else .dispensingCash) := by
  have hfin : NoteAllocator.clock ⟨false, true, d.stock, d.limits, low v⟩ a = a :=
    NoteAllocator.clock_finished rfl rfl ha
  obtain ⟨t₂, c₂, h₂, hs₂, hw₂⟩ := exists_replied h hw ha hb (by omega)
  obtain ⟨t₃, h₃, hs₃, hat₃⟩ := hs₂.tended (g := g) (Q := Asking false)
    (p := writePins 17 (byte x 7)) rfl hw₂.asking
  have hd₃ := hw₂.lastByte (i := Buttons.edge {} (writePins 17 (byte x 7))) rfl rfl rfl rfl
    (by omega)
  rw [hfin, ← hat₃] at hd₃
  obtain ⟨t₄, c₄, h₄, hs₄, hd₄, -⟩ := exists_deciphered hs₃ hd₃ ha
  obtain ⟨t₅, h₅, hs₅, hat₅⟩ := hs₄.tended (g := g)
    (Q := Answered (decide (b = 1)) (decide (b = 3))) (p := idlePins c {} 0) rfl hd₄.answered
  have hset := hd₄.settling (i := Buttons.edge {} (idlePins c {} 0)) rfl
  rw [hfin, ← hat₅] at hset
  refine ⟨t₅, (Tended.mono (fun _ => .inl) (h₂.trans h₃)).trans
    (Tended.mono (fun _ => .inr) (h₄.trans h₅)), hs₅, ?_⟩
  simp only [decide_eq_true_eq] at hset
  exact hset

theorem exists_loaded (hN : debounceTime ≤ g.N) (hmax : 0 < g.maxNoOfBlinks) (h : t.Settled {})
    (hp : t.atm.Parked g c d a) (ha : a.binarysearchStart = false) (hb : d.bankId = bankBits v)
    (y : BitVec 64) :
    ∃ u n, Reaches (clock g) (Tended Served) t u ∧ u.Settled {} ∧ 42 ≤ n ∧
      u.atm.Parked g c { d with stock := noteBytes y } (allocating d v a n) := by
  obtain ⟨t₁, n, w, h₁, hs₁, hn, hw, hw₁⟩ := exists_waiting hN h hp hb (byte (encipher y))
  have hfin := allocating_finished (d := d) (v := v) ha hn
  obtain ⟨t₂, h₂, hs₂, hset⟩ := exists_settling (b := 3) hs₁ hw₁ hfin.state (by decide) (by omega)
  obtain ⟨t₃, h₃, hs₃, ho⟩ := exists_over_of_loading hs₂ (hset.load hmax) hfin.state
  rw [decipher_encipher] at ho
  obtain ⟨t₄, h₄, hs₄, hp₄⟩ := exists_parked hs₃ ho hfin.state
  rw [ha] at h₁
  rw [hfin.search] at h₄
  refine ⟨t₄, n, (((tended_of_calm (fun _ => Opening.served) h₁).trans
    (Tended.mono (fun _ hs => hs.elim Asking.served (·.served (.inr rfl))) h₂)).trans
    (tended_of_calm (fun _ hs => served_of_loadingCash hs.1 hs.2) h₃)).trans
    (tended_of_calm (fun _ => Closing.served) h₄), hs₄, hn, hp₄⟩

theorem exists_granted (hN : debounceTime ≤ g.N) (h : t.Settled {}) (hp : t.atm.Parked g c d a)
    (ha : a.binarysearchStart = false) (hb : d.bankId = bankBits v)
    (hatm : NoteAllocator.Granted ⟨false, true, d.stock, d.limits, low v⟩) (x : BitVec 64) :
    ∃ t₂ u n, Reaches (clock g) (Tended Served) t t₂ ∧ Reaches (clock g) (Tended Served) t₂ u ∧
      t₂.Settled {} ∧ u.Settled {} ∧ 42 ≤ n ∧
      t₂.atm.Settling g c d (allocating d v a n) v (encipher x) true .dispensingCash ∧
      u.atm.Parked g c t₂.atm.outcome (allocating d v a n) := by
  obtain ⟨t₁, n, w, h₁, hs₁, hn, hw, hw₁⟩ := exists_waiting hN h hp hb (byte (encipher x))
  have hfin := allocating_finished (d := d) (v := v) ha hn
  obtain ⟨t₂, h₂, hs₂, hset⟩ := exists_settling (b := 1) hs₁ hw₁ hfin.state (by decide) (by omega)
  obtain ⟨t₃, h₃, hs₃, ho⟩ := exists_over hs₂ hset.toPending hset.state hfin.state
  obtain ⟨t₄, h₄, hs₄, hp₄⟩ := exists_parked hs₃ ho hfin.state
  have hpaid : t₂.atm.adequateCashInAtm = true := by
    rw [adequateCashInAtm, hset.allocator, hfin.allocationPossible]
    exact decide_eq_true hatm
  rw [ha] at h₁
  rw [hset.account, hpaid] at h₃
  rw [hfin.search] at h₄
  exact ⟨t₂, t₄, n, (tended_of_calm (fun _ => Opening.served) h₁).trans
    (Tended.mono (fun _ hs => hs.elim Asking.served (·.served (.inl rfl))) h₂),
    (tended_of_calm (fun _ => Dispensing.served) h₃).trans
    (tended_of_calm (fun _ => Closing.served) h₄), hs₂, hs₄, hn, hset, hp₄⟩

def booted (y : BitVec 64) : Durable :=
  ⟨0, ⟨0, 0, 0, 0⟩, ⟨high y, noteBytes y⟩, ⟨0, 0, 0, 0⟩, false⟩

theorem settingUp_clock_powerUp (g : Generics) (c : BitVec 7) (r : Nat → BitVec 8) :
    (clock g (idlePins c {} 0) powerUp).Settled {} ∧
      (clock g (idlePins c {} 0) powerUp).atm.SettingUp g c (booted 0) NoteAllocator.powerUp r 0 := by
  have hb : powerUp.atm.SettingUp g 0 (booted 0) NoteAllocator.powerUp r 0 :=
    { durable := by decide
      addr := rfl
      timeCounter := Nat.zero_le _
      startNoteAllocation := rfl
      allocator := rfl
      state := rfl
      collected := .zero rfl
      startDecrypt := rfl
      decrypter := ⟨rfl, rfl⟩ }
  exact ⟨⟨⟨rfl, rfl⟩, ⟨rfl, rfl⟩, ⟨rfl, rfl⟩, ⟨rfl, rfl⟩, ⟨rfl, rfl⟩⟩,
    hb.idle (i := powerUp.edge (idlePins c {} 0)) rfl (by omega) rfl⟩

theorem exists_unconfigured (g : Generics) (c : BitVec 7) :
    ∃ u a, Reaches (clock g) (Silent c) powerUp u ∧ u.Settled {} ∧ a.binarysearchStart = false ∧
      u.atm.Parked g c (booted 0) a := by
  obtain ⟨hs₁, hp₁⟩ := settingUp_clock_powerUp g c fun _ => 0
  obtain ⟨u, s, a, hu, hs, hset, ha, hp⟩ := exists_reset (c := c) (g := g)
    (P := Atm.SettingUp g c (booted 0) NoteAllocator.powerUp (fun _ => 0) 0) hs₁
    (fun _ hs => hs.idle (i := Buttons.edge {} (idlePins c { reset := true } 0)) rfl (by omega)
      rfl) hp₁
  rw [hset.durable] at hp
  exact ⟨u, a, (silent_of_alone (brings_iterate g c {} 0 1 powerUp)).trans hu, hs, ha, hp⟩

theorem exists_refused_of_parked {y : BitVec 64} (h : t.Settled {})
    (hp : t.atm.Parked {} c (booted y) a) (ha : a.binarysearchStart = false) :
    ∃ u d a, Brings {} c t u ∧ u.Settled {} ∧ a.systemState = .finished ∧
      a.binarysearchStart = false ∧ d.bankId = 0 ∧ d.cacheMode = true ∧ d.cache = ⟨0, 0, 0, 0⟩ ∧
      u.atm.Over {} c d a 1 := by
  have hN : debounceTime ≤ ({} : Generics).N := by rw [debounceTime_eq]; decide
  obtain ⟨t₂, n, h₂, hs₂, hn, hp₂, hdis, hacc⟩ := exists_served (v := 1) hN h hp ha
    (show (0 : BitVec 5) = bankBits 1 by decide) (show high 1 = high (0 : BitVec 64) by decide)
  have hfin := allocating_finished (d := booted y) (v := 1) ha hn
  obtain ⟨t₃, h₃, hs₃, hp₃⟩ := exists_over hs₂ hp₂ hdis hfin.state
  have hca : t₂.atm.cache = ⟨0, 0, 0, 0⟩ := congrArg Durable.cache hp₂.durable
  have hcm : t₂.atm.cacheMode = true := congrArg Durable.cacheMode hp₂.durable
  have hb : t₂.atm.bankId = 0 := congrArg Durable.bankId hp₂.durable
  have hout : t₂.atm.outcome = { t₂.atm.durable with cache := t₂.atm.refuseCache } := by
    rw [Atm.outcome, if_neg fun h => ?_]
    exact absurd (hacc.symm.trans h.1) (show decide (low 1 ≤ low (0 : BitVec 64)) ≠ true by decide)
  rw [hout] at hp₃
  refine ⟨t₃, _, _, h₂.trans (brings_of_calm h₃), hs₃, hfin.state, hfin.search, hb, hcm, ?_, hp₃⟩
  simp only [Atm.refuseCache, Atm.frontRecord, hca, hcm, hp₂.enInput, if_true]
  rw [if_pos (by decide)]
  decide

theorem exists_refused (c : BitVec 7) :
    ∃ u d a, Reaches (clock {}) (Silent c) powerUp u ∧ u.Settled {} ∧ a.systemState = .finished ∧
      d.cacheMode = true ∧ d.cache = ⟨0, 0, 0, 0⟩ ∧ u.atm.Over {} c d a 1 := by
  obtain ⟨t, a, ht, hs, ha, hp⟩ := exists_unconfigured {} c
  obtain ⟨u, d, a, hu, hs, hfin, -, -, hcm, hca, ho⟩ := exists_refused_of_parked hs hp ha
  exact ⟨u, d, a, ht.trans (silent_of_alone hu), hs, hfin, hcm, hca, ho⟩

theorem exists_limited {c' : BitVec 7} (h : t.Settled {})
    (hd : t.atm.DecryptingSetup g c' d a x 0) :
    ∃ u, Reaches (clock g) (Calm c (Booting a.binarysearchStart)) t u ∧ u.Settled {} ∧
      u.atm.Parked g c { d with limits := ⟨high (decipher x), noteBytes (decipher x)⟩ } a := by
  have hi : (Buttons.edge {} (idlePins c {} 0)).Quiet c := quiet_edge _ {} 0 rfl
  obtain ⟨u, htu, hu, hpu⟩ := h.turnTo (g := g) (c := c)
    (P := fun n s => (∃ c', n ≤ 34 ∧ s.DecryptingSetup g c' d a x n) ∨
      n = 35 ∧ s.Unstarted g c
        { d with limits := ⟨high (decipher x), noteBytes (decipher x)⟩ } a ∧
        s.systemState = .ready ∨
      n = 36 ∧ s.Booting a.binarysearchStart ∧ (s.clock g _).Parked g c _ a ∨
      s.Parked g c { d with limits := ⟨high (decipher x), noteBytes (decipher x)⟩ } a)
    (Q := Booting a.binarysearchStart) rfl {} rfl 0
    (fun n _ s hs => by
      rcases hs with ⟨c', hn, hs⟩ | ⟨rfl, hs, hst⟩ | ⟨-, -, hs⟩ | hs
      · rcases Nat.lt_or_eq_of_le hn with hlt | rfl
        · exact .inl ⟨_, hlt, hs.clock hlt rfl⟩
        · exact .inr (.inl ⟨rfl, hs.ready (i := Buttons.edge {} (idlePins c {} 0)) rfl⟩)
      · refine .inr (.inr (.inl ⟨rfl, ?_, hs.parked hst hi hi rfl rfl rfl rfl⟩))
        have hm := clock_ready (g := g) hst hi hs.addr rfl
        have hn : Unstarted g c _ a (s.clock g _) :=
          hs.clock rfl hm hs.durable rfl hs.startNoteAllocation.symm
        exact ⟨hn.holding, .inr (.inr (congrArg Main.systemState hm))⟩
      · exact .inr (.inr (.inr hs))
      · exact .inr (.inr (.inr (hs.clock hi rfl rfl))))
    (fun n _ s hs => by
      rcases hs with ⟨_, -, hs⟩ | ⟨-, hs, hst⟩ | ⟨-, hs, -⟩ | hs
      · exact ⟨hs.holding, .inr (.inl hs.state)⟩
      · exact ⟨hs.holding, .inr (.inr hst)⟩
      · exact hs
      · exact ⟨hs.holding, .inr (.inr hs.state)⟩) (.inl ⟨c', Nat.zero_le _, hd⟩)
  refine ⟨u, htu, hu, ?_⟩
  rcases hpu with ⟨_, h0, -⟩ | ⟨h0, -⟩ | ⟨h0, -⟩ | hpu
  · rw [debounceTime_eq] at h0
    omega
  · rw [debounceTime_eq] at h0
    omega
  · rw [debounceTime_eq] at h0
    omega
  · exact hpu

theorem exists_booted (g : Generics) (c : BitVec 7) (x : BitVec 64) :
    ∃ u, Reaches (clock g) (Tended Served) powerUp u ∧ u.Settled {} ∧
      u.atm.Parked g c (booted (decipher x)) NoteAllocator.powerUp := by
  obtain ⟨hs₁, hb₁⟩ := settingUp_clock_powerUp g c (byte x)
  have h₁ : Reaches (clock g) (Tended (Booting false)) powerUp
      (clock g (idlePins c {} 0) powerUp) := .single _ ⟨rfl, .inr rfl, .inl rfl⟩
  obtain ⟨t₂, h₂, hs₂, c₂, hb₂⟩ := hs₁.steps (g := g) 7 (Q := Booting false)
    (P := fun k s => ∃ c, s.SettingUp g c (booted 0) NoteAllocator.powerUp (byte x) k)
    (p := fun k => writePins (BitVec.ofNat 7 (18 + k)) (byte x k)) (fun _ _ => rfl)
    (fun k hk s ⟨c, hs⟩ => ⟨_, hs.receive
      (i := Buttons.edge {} (writePins (BitVec.ofNat 7 (18 + k)) (byte x k))) rfl hk
      (by change (BitVec.ofNat 7 (18 + k)).toNat = _; rw [BitVec.toNat_ofNat]; omega) rfl rfl⟩)
    (fun _ _ _ ⟨_, hs⟩ => ⟨hs.holding, .inl hs.state⟩) ⟨_, hb₁⟩
  obtain ⟨t₃, h₃, hs₃, hat₃⟩ := hs₂.tended (g := g) (Q := Booting false)
    (p := writePins 25 (byte x 7)) rfl ⟨hb₂.holding, .inl hb₂.state⟩
  have hd₃ := hb₂.lastByte (i := Buttons.edge {} (writePins 25 (byte x 7))) rfl rfl rfl rfl
  rw [← hat₃] at hd₃
  obtain ⟨u, hu, hs, hp⟩ := exists_limited (c := c) hs₃ hd₃
  exact ⟨u, Tended.mono (fun _ => Booting.served)
    (((h₁.trans h₂).trans h₃).trans (tended_of_calm (fun _ hs => hs) hu)), hs, hp⟩

def filled : Durable := { booted 0xffffffffffffffff with stock := noteBytes 0xffffffff }

abbrev filledAllocator : NoteAllocator :=
  allocating (booted 0xffffffffffffffff) 0 NoteAllocator.powerUp 42

theorem exists_filled : ∃ u, Reaches (clock {}) (Tended Served) powerUp u ∧ u.Settled {} ∧
    u.atm.Parked {} 25 filled filledAllocator := by
  have hN : debounceTime ≤ ({} : Generics).N := by rw [debounceTime_eq]; decide
  obtain ⟨t₁, h₁, hs₁, hp₁⟩ := exists_booted {} 25 (encipher 0xffffffffffffffff)
  rw [decipher_encipher] at hp₁
  obtain ⟨t₂, n, h₂, hs₂, hn, hp₂⟩ := exists_loaded (v := 0) hN (by decide) hs₁ hp₁ rfl
    (by decide) 0xffffffff
  rw [allocating_of_finished (k := 42) (by decide) hn] at hp₂
  exact ⟨t₂, h₁.trans h₂, hs₂, hp₂⟩

theorem filledAllocator_search : filledAllocator.binarysearchStart = false :=
  (allocating_finished rfl le_rfl).search

def withdrawn : Durable :=
  { filled with stock := ⟨255, 255, 255, 254⟩, cache := ⟨0x00201234000003e8, 0, 0, 0⟩ }

theorem exists_withdrawn : ∃ t u a, Reaches (clock {}) (Tended Served) powerUp t ∧
    Reaches (clock {}) (Tended Served) t u ∧ t.atm.systemState = .dispensingCash ∧
    t.atm.Served ∧ u.Settled {} ∧ a.binarysearchStart = false ∧
    u.atm.Parked {} 25 withdrawn a := by
  have hN : debounceTime ≤ ({} : Generics).N := by rw [debounceTime_eq]; decide
  obtain ⟨t₁, h₁, hs₁, hp₁⟩ := exists_filled
  obtain ⟨t₂, t₃, n, h₂, h₃, hs₂, hs₃, hn, hset, hp₃⟩ := exists_granted
    (v := 0x0020123400000064) hN hs₁ hp₁ filledAllocator_search (by decide) (by decide) 1000
  have hfin := allocating_finished (v := 0x0020123400000064) (d := filled) filledAllocator_search hn
  have hatm : t₂.atm.adequateCashInAtm = true := by
    rw [adequateCashInAtm, hset.allocator, hfin.allocationPossible]
    decide
  have hout : t₂.atm.outcome = withdrawn := by
    have hst : t₂.atm.stock = filled.stock := congrArg Durable.stock hset.durable
    have hca : t₂.atm.cache = filled.cache := congrArg Durable.cache hset.durable
    have hcm : t₂.atm.cacheMode = false := congrArg Durable.cacheMode hset.durable
    have hcache : t₂.atm.dispenseCache = withdrawn.cache := by
      simp only [dispenseCache, frontRecord, hca, hcm, hset.enInput, hset.deOutput,
        decipher_encipher]
      decide
    rw [outcome, if_pos ⟨hset.account, hatm⟩, hset.durable, hcache]
    simp only [removeNotes, allocated, hst, hset.allocator, hfin.out]
    decide
  rw [hout] at hp₃
  exact ⟨t₂, t₃, _, h₁.trans h₂, h₃, hset.state,
    Dispensing.served ⟨hset.startNoteAllocation, hset.state, hset.account, hatm⟩, hs₃, hfin.search,
    hp₃⟩

theorem exists_left_alone : ∃ u a, Reaches (clock {}) (Tended Served) powerUp u ∧ u.Settled {} ∧
    a.systemState = .finished ∧ a.allocationPossible = true ∧
    u.atm.Lost {} 25 withdrawn a 0x0020123400000064 := by
  have hN : debounceTime ≤ ({} : Generics).N := by rw [debounceTime_eq]; decide
  obtain ⟨_, t₁, a, h₀, h₁, -, -, hs₁, ha, hp₁⟩ := exists_withdrawn
  obtain ⟨t₂, n, w, h₂, hs₂, hn, hw, hp₂⟩ := exists_waiting (v := 0x0020123400000064) hN hs₁ hp₁
    (by decide) fun _ => 0
  have hfin := allocating_finished (d := withdrawn) (v := 0x0020123400000064) ha hn
  obtain ⟨t₃, h₃, hs₃, hp₃⟩ := exists_lost hs₂ hp₂ hfin.state (by omega)
  rw [ha] at h₂
  refine ⟨t₃, _, ((h₀.trans h₁).trans (tended_of_calm (fun _ => Opening.served) h₂)).trans
    (tended_of_calm (fun _ => Asking.served) (h₃ false)), hs₃, hfin.state, ?_, hp₃⟩
  rw [hfin.allocationPossible]
  decide

end TopLevel

end AtmController.Frontend
