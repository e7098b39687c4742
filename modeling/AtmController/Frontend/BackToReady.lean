import AtmController.Frontend.Stays
import Mathlib.Data.Prod.Lex

namespace AtmController.Frontend

open Clocked Slice

namespace Debouncer

variable {b : Bool} {d : Debouncer}

theorem clock_of_eq (h : d.oldbutton = b) : d.clock b =
    if d.count + 1 = waitCycles then ⟨b, waitCycles, b⟩ else ⟨b, d.count + 1, d.buttonDeb⟩ := by
  simp only [clock, h, ne_eq, not_true_eq_false, if_false]
  split_ifs with hc
  · rw [hc]
  · rfl

theorem exists_follows_of_eq (h : d.oldbutton = b) : ∃ n, ((clock b)^[n] d).buttonDeb = b := by
  obtain ⟨n, -, hn⟩ := exists_iterate_of_measure (f := clock b) (P := fun d => d.oldbutton = b)
    (Q := fun d => d.buttonDeb = b) (fun d => (waitCycles - d.count - 1).toNat) (fun d hd => by
      rw [clock_of_eq hd]
      split_ifs with hc
      · exact .inl rfl
      · refine .inr ⟨rfl, ?_⟩
        have hne : waitCycles - d.count - 1 ≠ 0 := by
          intro h0
          apply hc
          bv_omega
        change (waitCycles - (d.count + 1) - 1).toNat < _
        bv_omega) h
  exact ⟨n, hn⟩

theorem exists_follows (b : Bool) (d : Debouncer) : ∃ n, ((clock b)^[n] d).buttonDeb = b := by
  by_cases h : d.oldbutton = b
  · exact exists_follows_of_eq h
  · have hold : (d.clock b).oldbutton = b := by simp [clock, h]
    obtain ⟨n, hn⟩ := exists_follows_of_eq hold
    exact ⟨n + 1, hn⟩

theorem buttonDeb_clock (h : d.buttonDeb = b) : (d.clock b).buttonDeb = b := by
  by_cases hold : d.oldbutton = b
  · rw [clock_of_eq hold]
    split_ifs
    · rfl
    · exact h
  · simp [clock, hold, h]

end Debouncer

namespace Atm

open Main

variable {g : Generics} {i : AtmEdge} {s : Atm}

def Nearer (g : Generics) (s' s : Atm) : Prop :=
  s'.rank < s.rank ∨ s'.rank = s.rank ∧ s'.stayLeft g < s.stayLeft g

/-- Nothing has changed that counts. -/
structure Same (g : Generics) (s' s : Atm) : Prop where
  state : s'.systemState = s.systemState
  rank : s'.rank = s.rank
  stayLeft : s'.stayLeft g = s.stayLeft g

theorem nearer_or_same (h : s.Live g) (hr : i.debouncedReset = false)
    (hs : s.systemState ≠ .ready) :
    Nearer g (s.clock g i) s ∨ s.systemState.Waits ∧ Same g (s.clock g i) s := by
  rcases clock_progress h hr hs with hstay | hadv
  · by_cases hw : s.systemState.Waits
    · rcases Nat.lt_or_eq_of_le hstay.le with hlt | heq
      · exact .inl (.inr ⟨hstay.rank, hlt⟩)
      · exact .inr ⟨hw, hstay.state, hstay.rank, heq⟩
    · exact .inl (.inr ⟨hstay.rank, hstay.lt hw⟩)
  · exact .inl (.inl hadv.2)

theorem ready_of_done (hs : s.systemState = .dummy ∨ s.systemState = .ethernet)
    (hr : i.debouncedReset = false) (hd : i.debouncedDone = true) :
    (s.clock g i).systemState = .ready := by
  have hm := clock_of_not_ready (g := g) hr (s := s) (by rcases hs with hs | hs <;> simp [hs])
  rcases hs with hs | hs
  · simp only [branch, hs, dummy, hd, if_true] at hm
    rw [hm]
    rfl
  · simp only [branch, hs, ethernet, hd, blink, if_true] at hm
    rw [hm]
    rfl

theorem notTaken_of_released (hs : s.systemState = .takingInput) (hr : i.debouncedReset = false)
    (hn : i.debouncedNextData = false) : (s.clock g i).inputTakenAlready = false := by
  have hm := clock_of_not_ready (g := g) hr (s := s) (by simp [hs])
  simp only [branch, hs, takingInput, hn, blink, Bool.false_eq_true, false_and, if_false,
    if_true] at hm
  rw [hm]
  rfl

theorem nearer_of_key (h : s.Live g) (hs : s.systemState = .takingInput)
    (hr : i.debouncedReset = false) (hn : i.debouncedNextData = true)
    (ht : s.inputTakenAlready = false) : Nearer g (s.clock g i) s := by
  have hk := h.keys hs
  have hm := clock_of_not_ready (g := g) hr (s := s) (by simp [hs])
  by_cases h7 : s.inputByteCount + 1 = 8
  · simp only [branch, hs, takingInput, hn, ht, blink, hk, h7, and_self, if_true] at hm
    exact .inl (by simp [rank, hm, hs, tick])
  · simp only [branch, hs, takingInput, hn, ht, blink, hk, h7, and_self, if_true, if_false] at hm
    refine .inr ⟨by simp [rank, hm, hs, tick], ?_⟩
    simp only [stayLeft, hm, hs, tick]
    omega

theorem exists_missing_bit {c : BitVec 8} (hc : c ≠ 0b11111111) :
    ∃ k < 8, c.toNat < (assign c k (1 : BitVec 1)).toNat := by
  have hbit : ∃ k < 8, c.getLsbD k = false := by
    by_contra hall
    simp only [not_exists, not_and, Bool.not_eq_false] at hall
    refine hc (BitVec.eq_of_getLsbD_eq fun k hk => ?_)
    rw [hall k hk, show (0b11111111 : BitVec 8) = .allOnes 8 from rfl, BitVec.getLsbD_allOnes,
      decide_eq_true hk]
  obtain ⟨k, hk, hck⟩ := hbit
  refine ⟨k, hk, ?_⟩
  have hle : c.toNat ≤ (assign c k (1 : BitVec 1)).toNat := by
    rw [assign_bit, BitVec.toNat_or]
    exact Nat.left_le_or
  refine Nat.lt_of_le_of_ne hle fun heq => ?_
  have hset : (assign c k (1 : BitVec 1)).getLsbD k = true := by
    rw [getLsbD_assign _ _ _ _ hk, if_pos ⟨le_rfl, Nat.lt_succ_self k⟩]
    simp
  rw [← BitVec.toNat_inj.mp heq, hck] at hset
  cases hset

def Collecting (first : Nat) (s : Atm) : Prop :=
  first = 18 ∧ s.systemState = .setup ∨ first = 10 ∧ s.systemState = .communicateCache

theorem exists_nearer_of_byte {first : Nat} (h : s.Live g) (hc : s.Collecting first) :
    ∃ k < 8, ∀ i : AtmEdge, i.debouncedReset = false → i.h2fValid = true →
      i.chanAddr = .ofNat 7 (first + k) → Nearer g (s.clock g i) s := by
  have hw : s.systemState.Waits := by rcases hc with ⟨-, hs⟩ | ⟨-, hs⟩ <;> rw [hs] <;> trivial
  have hready : s.systemState ≠ .ready := by rcases hc with ⟨-, hs⟩ | ⟨-, hs⟩ <;> simp [hs]
  -- a full checksum ends the state with any edge
  have hleft (i : AtmEdge) (c : BitVec 8) (hr : i.debouncedReset = false)
      (hcol : (s.collect first i).checksumForBackendResponse = c)
      (hlt : s.checksumForBackendResponse.toNat < c.toNat ∨ c = 0b11111111) :
      Nearer g (s.clock g i) s := by
    rcases nearer_or_same h hr hready with hn | ⟨-, hsame⟩
    · exact hn
    exfalso
    have hm := clock_of_not_ready (g := g) hr hready
    have hstate := hsame.state
    have hle := hsame.stayLeft
    have hb := c.isLt
    rcases hc with ⟨rfl, hs⟩ | ⟨rfl, hs⟩
    · simp only [branch, hs, setup, hcol] at hm
      by_cases hF : c = 0b11111111
      · rw [if_pos hF] at hm
        rw [hm, hs] at hstate
        cases hstate
      · rw [if_neg hF] at hm
        have hchk : (s.clock g i).checksumForBackendResponse = c := by
          rw [hm]
          exact hcol
        simp only [stayLeft, hstate.trans hs, hs, hchk] at hle
        have := hlt.resolve_right hF
        omega
    · simp only [branch, hs, communicateCache, blink, hcol] at hm
      by_cases hF : c = 0b11111111
      · rw [if_pos hF] at hm
        rw [hm, hs] at hstate
        cases hstate
      · rw [if_neg hF] at hm
        have hchk : (s.clock g i).checksumForBackendResponse = c := by
          rw [hm]
          rfl
        simp only [stayLeft, hstate.trans hs, hs, hchk] at hle
        have := hlt.resolve_right hF
        omega
  by_cases hF : s.checksumForBackendResponse = 0b11111111
  · refine ⟨0, by decide, fun i hr _ _ => hleft i _ hr rfl (.inr ?_)⟩
    have hge := checksum_collect_le first i s.toMain
    rw [hF] at hge
    exact BitVec.toNat_inj.mp (Nat.le_antisymm (Nat.le_of_lt_succ (BitVec.isLt _)) hge)
  · obtain ⟨k, hk, hlt⟩ := exists_missing_bit hF
    refine ⟨k, hk, fun i hr hv ha => hleft i _ hr rfl (.inl ?_)⟩
    have hfirst : first ≤ 18 := by rcases hc with ⟨rfl, -⟩ | ⟨rfl, -⟩ <;> decide
    have haddr : i.chanAddr.toNat = first + k := by
      rw [ha, BitVec.toNat_ofNat]
      omega
    simp only [collect, haddr, hv, true_and]
    rw [if_pos (by omega), Nat.add_sub_cancel_left]
    exact hlt

end Atm

namespace TopLevel

open Atm

variable {g : Generics} {p : Pins} {t u : TopLevel}

def Unreset (p : Pins) (_ : TopLevel) : Prop := p.reset = false

/-- The reset is released, and the state can end. -/
structure Able (g : Generics) (t : TopLevel) : Prop where
  live : t.atm.Live g
  reset : t.resetDebouncer.buttonDeb = false

theorem able_clock (hmax : 0 < g.maxNoOfBlinks) (h : Able g t) (hp : p.reset = false) :
    Able g (clock g p t) :=
  ⟨live_clock hmax h.live, Debouncer.buttonDeb_clock (b := p.reset) (h.reset.trans hp.symm) |>.trans hp⟩

def Gains (g : Generics) (t : TopLevel) : Prop :=
  ∃ u, Reaches (clock g) Unreset t u ∧
    (u.atm.systemState = .ready ∨ Able g u ∧ Nearer g u.atm t.atm)

theorem Gains.of_clock (hmax : 0 < g.maxNoOfBlinks) (h : Able g t) (hp : p.reset = false)
    (hn : Nearer g (t.atm.clock g (t.edge p)) t.atm) : Gains g t :=
  ⟨_, .single p hp, .inr ⟨able_clock hmax h hp, hn⟩⟩

theorem Gains.of_reaches (htu : Reaches (clock g) Unreset t u) (hs : Same g u.atm t.atm)
    (hu : Gains g u) : Gains g t := by
  obtain ⟨v, huv, hv⟩ := hu
  refine ⟨v, htu.trans huv, hv.imp id fun hv => ⟨hv.1, ?_⟩⟩
  have hn := hv.2
  rwa [Nearer, hs.rank, hs.stayLeft] at hn

theorem reaches_iterate_unreset (hp : p.reset = false) (n : Nat) (t : TopLevel) :
    Reaches (clock g) Unreset t ((clock g p)^[n] t) :=
  ⟨List.replicate n p, runs_replicate fun _ _ => hp, run_replicate n p⟩

theorem gains_or_same {P : TopLevel → Prop} (hmax : 0 < g.maxNoOfBlinks) (h : Able g t)
    (hs : t.atm.systemState ≠ .ready) (hp : p.reset = false) (n : Nat) (hP : P t)
    (hstep : ∀ k < n, Able g ((clock g p)^[k] t) → Same g ((clock g p)^[k] t).atm t.atm →
      P ((clock g p)^[k] t) → P (clock g p ((clock g p)^[k] t))) :
    Gains g t ∨ Able g ((clock g p)^[n] t) ∧ Same g ((clock g p)^[n] t).atm t.atm ∧
      P ((clock g p)^[n] t) := by
  induction n with
  | zero => exact .inr ⟨h, ⟨rfl, rfl, rfl⟩, hP⟩
  | succ n ih =>
    rcases ih fun k hk => hstep k (Nat.lt_succ_of_lt hk) with hg | ⟨hable, hsame, hPn⟩
    · exact .inl hg
    rw [Function.iterate_succ_apply']
    rcases nearer_or_same (i := ((clock g p)^[n] t).edge p) hable.live hable.reset
        (hsame.state ▸ hs) with hn | ⟨-, hsame'⟩
    · exact .inl (.of_reaches (reaches_iterate_unreset hp n t) hsame (.of_clock hmax hable hp hn))
    · exact .inr ⟨able_clock hmax hable hp, ⟨hsame'.state.trans hsame.state,
        hsame'.rank.trans hsame.rank, hsame'.stayLeft.trans hsame.stayLeft⟩,
        hstep n (Nat.lt_succ_self n) hable hsame hPn⟩

theorem gains_of_done (hmax : 0 < g.maxNoOfBlinks) (h : Able g t)
    (hs : t.atm.systemState = .dummy ∨ t.atm.systemState = .ethernet) : Gains g t := by
  have hready : t.atm.systemState ≠ .ready := by rcases hs with hs | hs <;> simp [hs]
  obtain ⟨n, hn⟩ := Debouncer.exists_follows true t.doneDebouncer
  rcases gains_or_same (p := idlePins 0 { done := true } 0) (P := fun _ => True) hmax h hready rfl n
    trivial fun _ _ _ _ _ => trivial with hg | ⟨hable, hsame, -⟩
  · exact hg
  have hrun := reaches_iterate_unreset (g := g) (p := idlePins 0 { done := true } 0) rfl n t
  refine ⟨_, hrun.trans (.single (idlePins 0 { done := true } 0) rfl), .inl ?_⟩
  refine ready_of_done (hsame.state ▸ hs) hable.reset ?_
  obtain ⟨-, -, -, -, hdone⟩ := iterate_debouncers g (idlePins 0 { done := true } 0) t n
  exact (congrArg Debouncer.buttonDeb hdone).trans hn

structure KeyUp (t : TopLevel) : Prop where
  taken : t.atm.inputTakenAlready = false
  key : t.dataInDebouncer.buttonDeb = false

theorem gains_of_press (hmax : 0 < g.maxNoOfBlinks) (h : Able g t)
    (hs : t.atm.systemState = .takingInput) (hk : t.KeyUp) : Gains g t := by
  have hex := Debouncer.exists_follows true t.dataInDebouncer
  have hdata (k : Nat) : ((clock g (idlePins 0 { nextDataIn := true } 0))^[k] t).dataInDebouncer =
      (Debouncer.clock true)^[k] t.dataInDebouncer :=
    (iterate_debouncers g (idlePins 0 { nextDataIn := true } 0) t k).2.1
  rcases gains_or_same (p := idlePins 0 { nextDataIn := true } 0)
    (P := fun u => u.atm.inputTakenAlready = false) hmax h (by simp [hs]) rfl (Nat.find hex)
    hk.taken (fun k hlt hable hsame _ => notTaken_of_released (hsame.state.trans hs) hable.reset (by
      have hmin := Nat.find_min hex hlt
      rw [← hdata] at hmin
      exact Bool.eq_false_of_not_eq_true hmin)) with hg | ⟨hable, hsame, htaken⟩
  · exact hg
  refine .of_reaches (reaches_iterate_unreset rfl (Nat.find hex) t) hsame
    (.of_clock (p := idlePins 0 { nextDataIn := true } 0) hmax hable rfl ?_)
  refine nearer_of_key hable.live (hsame.state.trans hs) hable.reset ?_ htaken
  have hfind := Nat.find_spec hex
  rw [← hdata] at hfind
  exact hfind

theorem gains_of_key (hmax : 0 < g.maxNoOfBlinks) (h : Able g t)
    (hs : t.atm.systemState = .takingInput) : Gains g t := by
  have hready : t.atm.systemState ≠ .ready := by simp [hs]
  obtain ⟨n, hn⟩ := Debouncer.exists_follows false t.dataInDebouncer
  rcases gains_or_same (p := idlePins 0 {} 0) (P := fun _ => True) hmax h hready rfl n
    trivial fun _ _ _ _ _ => trivial with hg | ⟨hable, hsame, -⟩
  · exact hg
  have hrun := reaches_iterate_unreset (g := g) (p := idlePins 0 {} 0) rfl n t
  have hup : ((clock g (idlePins 0 {} 0))^[n] t).dataInDebouncer.buttonDeb = false := by
    rw [(iterate_debouncers g (idlePins 0 {} 0) t n).2.1]
    exact hn
  generalize (clock g (idlePins 0 {} 0))^[n] t = u at hable hsame hrun hup
  refine .of_reaches hrun hsame ?_
  rcases gains_or_same (p := idlePins 0 {} 0) (P := fun _ => True) hmax hable
    (hsame.state ▸ hready) rfl 1 trivial fun _ _ _ _ _ => trivial with hg | ⟨hable', hsame', -⟩
  · exact hg
  refine .of_reaches (.single (idlePins 0 {} 0) rfl) hsame'
    (gains_of_press hmax hable' (hsame'.state.trans (hsame.state.trans hs)) ⟨?_, ?_⟩)
  · exact notTaken_of_released (hsame.state.trans hs) hable.reset hup
  · exact Debouncer.buttonDeb_clock hup

theorem gains_of_byte {first : Nat} (hmax : 0 < g.maxNoOfBlinks) (h : Able g t)
    (hc : t.atm.Collecting first) : Gains g t := by
  obtain ⟨k, -, hk⟩ := exists_nearer_of_byte h.live hc
  exact .of_clock (p := { idlePins (.ofNat 7 (first + k)) {} 0 with h2fValid := true }) hmax h rfl
    (hk _ h.reset rfl rfl)

theorem gains (hmax : 0 < g.maxNoOfBlinks) (h : Able g t) (hs : t.atm.systemState ≠ .ready) :
    Gains g t := by
  rcases nearer_or_same (i := t.edge (idlePins 0 {} 0)) h.live h.reset hs with hn | ⟨hw, -⟩
  · exact .of_clock hmax h rfl hn
  cases hq : t.atm.systemState <;> rw [hq] at hw
  case ready => exact absurd hq hs
  case takingInput => exact gains_of_key hmax h hq
  case dummy => exact gains_of_done hmax h (.inl hq)
  case ethernet => exact gains_of_done hmax h (.inr hq)
  case setup => exact gains_of_byte hmax h (.inl ⟨rfl, hq⟩)
  case communicateCache => exact gains_of_byte hmax h (.inr ⟨rfl, hq⟩)
  all_goals exact hw.elim

theorem exists_ready (hmax : 0 < g.maxNoOfBlinks) (h : Able g t) :
    ∃ u, Reaches (clock g) Unreset t u ∧ u.atm.systemState = .ready := by
  -- the rank falls, or for the same rank what is still waited for
  refine exists_reaches_of_measure (fun u => toLex (u.atm.rank, u.atm.stayLeft g)) ?_ h
  intro s hs
  by_cases hready : s.atm.systemState = .ready
  · exact ⟨s, .refl, .inl hready⟩
  · obtain ⟨u, hsu, hu⟩ := gains hmax hs hready
    exact ⟨u, hsu, hu.imp id fun hu => ⟨hu.1, Prod.Lex.toLex_lt_toLex.mpr hu.2⟩⟩

/-- From every state of every run Ready can be reached, and nobody has to press the reset. -/
theorem ready_again (g : Generics) (hmax : 0 < g.maxNoOfBlinks) (ps : List Pins) :
    ∃ qs, (∀ q ∈ qs, q.reset = false) ∧ (after g (ps ++ qs)).atm.systemState = .ready := by
  have hlive : (after g ps).atm.Live g :=
    atm_invariant (P := Live g) (fun _ _ => live_clock hmax) (live_powerUp g) ps
  cases hr : (after g ps).resetDebouncer.buttonDeb with
  | true =>
    -- the reset is still down, and the next edge leads to Ready
    refine ⟨[idlePins 0 {} 0], by simp [idlePins], ?_⟩
    rw [after_concat]
    have hm : (clock g (idlePins 0 {} 0) (after g ps)).atm.toMain =
        tick g ((after g ps).edge (idlePins 0 {} 0)) (after g ps).atm.reset := by
      change mainProcess g ((after g ps).edge (idlePins 0 {} 0)) (after g ps).atm = _
      rw [mainProcess, if_pos (show ((after g ps).edge (idlePins 0 {} 0)).debouncedReset = true
        from hr)]
    rw [hm]
    rfl
  | false =>
    obtain ⟨u, ⟨qs, hqs, rfl⟩, hu⟩ := exists_ready hmax (t := after g ps) ⟨hlive, hr⟩
    exact ⟨qs, hqs.forall_mem (p := fun q : Pins => q.reset = false), by rw [after_append]; exact hu⟩

theorem ready_again_configuring :
    ∃ qs, (∀ q ∈ qs, q.reset = false) ∧
      (after {} (configuring ++ qs)).atm.systemState = .ready :=
  ready_again {} (by decide) configuring

end TopLevel

end AtmController.Frontend
