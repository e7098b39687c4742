import AtmController.Frontend.Boot

namespace AtmController.Frontend

open Clocked Cipher

/-- The allocator has been started for `k` edges. The states that change its inputs are not
reached before the 42nd: the encrypter alone takes 33 of them, and then a timeout or the
decrypter takes more than the rest. -/
def Main.Held (k : Nat) (m : Main) (e d : Cipher) : Prop :=
  match m.systemState with
  | .encrypt => m.timeOutCounter = 0 ∧ m.startDecrypt = false ∧
    ∃ n ≤ k, WorkingAt 0 encryptCycle m.enInput m.startEncrypt n e
  | .communicating => m.startDecrypt = false ∧ 33 + m.timeOutCounter ≤ k
  | .decrypt => ∃ n, 33 + n ≤ k ∧ WorkingAt 0xC6EF3720 decryptCycle m.deInput m.startDecrypt n d
  | .ethernet | .ready | .communicationRegained | .communicateCache | .updateCache => True
  | .takingInput | .noteAllocation | .setup | .decryptSetup => False
  | _ => 42 ≤ k

namespace Atm

open Main

variable {g : Generics} {i : AtmEdge} {s : Atm}

theorem held_clock {k : Nat} (hi : s.Held k s.encrypter s.decrypter)
    (hr : i.debouncedReset = false) (hs : (s.clock g i).startNoteAllocation = true) :
    (s.clock g i).Held (k + 1) (s.clock g i).encrypter (s.clock g i).decrypter := by
  have he := clock_cases g i s
  change (s.clock g i).toMain.startNoteAllocation = true at hs
  change (s.clock g i).Held (k + 1)
    (Encrypter.clock ⟨i.debouncedReset, s.startEncrypt, s.enInput⟩ s.encrypter)
    (Decrypter.clock ⟨i.debouncedReset, s.startDecrypt, s.deInput⟩ s.decrypter)
  generalize (s.clock g i).toMain = m at he hs
  cases he with
  | reset hr' => exact absurd hr' (by simp [hr])
  | reconnect _ hc => trivial
  | branch m _ hc hb =>
    rw [hr]
    change m.Held (k + 1) _ _
    cases hb with
    | ready b l h => exact Bool.noConfusion hs
    | encrypt l h =>
      simp only [Main.Held, h] at hi
      simp only [Main.Held]
      obtain ⟨ht, hd, n, hn, hw⟩ := hi
      cases ho : s.encryptionOver with
      | false =>
        refine ⟨ht, hd, _, ?_, hw.clock⟩
        split <;> omega
      | true =>
        have h33 := (hw.finished ho).2
        by_cases hb : s.bankId = bankBits s.enInput
        · simp only [if_true, if_pos hb]
          exact ⟨hd, by omega⟩
        · simp only [if_true, if_neg hb]
    | communicating l a u r c t h ht =>
      simp only [Main.Held, h] at hi
      simp only [Main.Held]
      obtain ⟨hd, hk⟩ := hi
      have htle : t ≤ s.timeOutCounter + 1 := by rw [ht]; split <;> omega
      have hidle : (Decrypter.clock ⟨false, s.startDecrypt, s.deInput⟩ s.decrypter).Idle :=
        clock_stop rfl hd
      by_cases h31 : t = 31
      · simp only [if_pos h31]
        omega
      · simp only [if_neg h31]
        split_ifs
        · exact ⟨0, by omega, hidle.workingAt _⟩
        · trivial
        · exact ⟨hd, by omega⟩
    | decrypt l h =>
      simp only [Main.Held, h] at hi
      simp only [Main.Held]
      obtain ⟨n, hn, hw⟩ := hi
      cases ho : s.decryptionOver with
      | false =>
        refine ⟨_, ?_, hw.clock⟩
        split <;> omega
      | true =>
        have h33 := (hw.finished ho).2
        simp only [if_true]
        cases s.userIsAdmin <;> (simp; omega)
    | loadingCash l n q h hq =>
      simp only [Main.Held, h] at hi
      rcases hq with rfl | rfl <;> (simp only [Main.Held]; omega)
    | dispense l n k b q h hq =>
      simp only [Main.Held, h] at hi
      rcases hq with rfl | rfl <;> (simp only [Main.Held]; omega)
    | refuse l n k q h hq =>
      simp only [Main.Held, h] at hi
      rcases hq with rfl | rfl <;> (simp only [Main.Held]; omega)
    | dispensed l n k b j q h hq =>
      simp only [Main.Held, h] at hi
      rcases hq with rfl | rfl <;> (simp only [Main.Held]; omega)
    | userNotInCache l n q h hq =>
      simp only [Main.Held, h] at hi
      rcases hq with rfl | rfl
      · simp only [Main.Held]; omega
      · trivial
    | _ =>
      simp only [Main.Held, *] at hi ⊢
      try split_ifs
      all_goals first
        | trivial
        | omega

theorem allocatorEdge_clock_of_held {k : Nat} (hi : s.Held k s.encrypter s.decrypter)
    (hk : k < 42) (hr : i.debouncedReset = false)
    (hs : (s.clock g i).startNoteAllocation = true) :
    (s.clock g i).allocatorEdge = s.allocatorEdge := by
  have he := clock_cases g i s
  change (s.clock g i).toMain.startNoteAllocation = true at hs
  change (s.clock g i).toMain.allocatorEdge = _
  generalize (s.clock g i).toMain = m at he hs
  cases he with
  | reset hr' => exact absurd hr' (by simp [hr])
  | reconnect _ hc => rfl
  | branch m _ hc hb =>
    change m.allocatorEdge = _
    cases hb with
    | ready b l h => exact Bool.noConfusion hs
    | _ =>
      simp only [Main.Held, *] at hi
      try first
        | rfl
        | omega

end Atm

structure NoteAllocator.Unused (c : NoteAllocator) : Prop where
  search : c.binarysearchStart = false
  amount : 0 ≤ c.amountAskedInt
  out : c.out = ⟨0, 0, 0, 0⟩

theorem NoteAllocator.dispensable_of_no_stock {i : AllocatorEdge} (hs : i.stock = ⟨0, 0, 0, 0⟩)
    (d : Denomination) : dispensable i d = 0 := by
  rw [dispensable_eq, hs]
  cases d <;> exact Nat.zero_min _

theorem NoteAllocator.Unused.clock {i : AllocatorEdge} {c : NoteAllocator} (h : c.Unused)
    (hs : i.stock = ⟨0, 0, 0, 0⟩) : (clock i c).Unused := by
  have h0 := dispensable_of_no_stock hs
  have hset (d : Denomination) : Notes.set ⟨0, 0, 0, 0⟩ d (BitVec.ofNat 8 0) = ⟨0, 0, 0, 0⟩ := by
    cases d <;> rfl
  cases hr : i.reset with
  | true =>
    simp only [NoteAllocator.clock, hr, if_true]
    exact ⟨rfl, le_rfl, h.out⟩
  | false =>
    simp only [NoteAllocator.clock, hr, Bool.false_eq_true, if_false]
    split
    · split
      · exact ⟨h.search, Int.natCast_nonneg _, h.out⟩
      · have hn : ¬ c.amountAskedInt < 0 := Int.not_lt.mpr h.amount
        simp only [allocate, h0, Nat.cast_zero, mul_zero, hn, if_false, Int.sub_zero, h.out, hset]
        exact ⟨h.search, h.amount, rfl⟩
      · exact ⟨h.search, h.amount, h.out⟩
      · exact h
    · exact ⟨h.search, h.amount, h.out⟩

structure Main.Empty (m : Main) : Prop where
  stock : m.stock = ⟨0, 0, 0, 0⟩
  admin : m.userIsAdmin = false
  state : m.systemState ≠ .loadingCash

theorem Atm.empty_clock {i : AtmEdge} {s : Atm} (h : s.Empty) (ha : s.noteAllocator.Unused)
    (hv : i.h2fValid = false) : (s.clock g i).Empty ∧ (s.clock g i).noteAllocator.Unused := by
  refine ⟨?_, ha.clock h.stock⟩
  have he := clock_cases g i s
  change Main.Empty (s.clock g i).toMain
  generalize (s.clock g i).toMain = m at he
  obtain ⟨hst, had, hsy⟩ := h
  cases he with
  | reset => exact ⟨hst, rfl, by simp [tick, Atm.reset]⟩
  | reconnect => exact ⟨hst, had, by simp [tick, Atm.reconnect]⟩
  | branch m _ _ hb =>
    suffices hm : m.Empty from ⟨hm.stock, hm.admin, hm.state⟩
    cases hb with
    | communicating l a u r c t hs _ hcol =>
      rw [status_of_not_valid _ _ hv, Main.collect_of_not_valid _ _ _ hv] at hcol
      refine ⟨hst, (congrArg Main.userIsAdmin hcol).symm.trans had, ?_⟩
      simp only
      split_ifs <;> decide
    | dispense l n k b q hs hq =>
      refine ⟨?_, had, ?_⟩
      · simp only [removeNotes, hst, ha.out, allocated]
        rfl
      · rcases hq with rfl | rfl <;> simp
    | loadingCash l n q hs => exact absurd hs hsy
    | refuse l n k q hs hq => rcases hq with rfl | rfl <;> exact ⟨hst, had, by simp⟩
    | dispensed l n k b j q hs hq => rcases hq with rfl | rfl <;> exact ⟨hst, had, by simp⟩
    | userNotInCache l n q hs hq => rcases hq with rfl | rfl <;> exact ⟨hst, had, by simp⟩
    | ready => exact ⟨hst, rfl, by simp only; split <;> decide⟩
    | _ =>
      refine ⟨hst, had, ?_⟩
      simp only [*, ne_eq]
      try split_ifs
      all_goals first
        | decide
        | exact hsy
        | simp_all

theorem NoteAllocator.finished_iterate {i : AllocatorEdge} (hr : i.reset = false)
    (hs : i.start = true) {c : NoteAllocator} (h : c.systemState = .initial)
    (hb : c.binarysearchStart = false) : Finished i ((NoteAllocator.clock i)^[42] c) := by
  obtain ⟨k, hk, hf⟩ := exists_finished hr hs h hb
  have := hf.iterate hr hs (42 - k)
  rwa [← Function.iterate_add_apply, Nat.sub_add_cancel hk] at this

namespace TopLevel

variable {g : Generics}

def Starts (p : Pins) (t : TopLevel) : Prop :=
  t.atm.startNoteAllocation = true ∧ (t.edge p).debouncedReset = false

def Withdraws (p : Pins) (t : TopLevel) : Prop :=
  t.atm.startNoteAllocation = false ∧ (t.edge p).debouncedReset = false ∧
    t.atm.noteAllocator.binarysearchStart = true

theorem held_run {t : TopLevel} (hh : t.atm.Held 0 t.atm.encrypter t.atm.decrypter)
    (hs : t.atm.startNoteAllocation = true) (ha : t.atm.noteAllocator.systemState = .initial)
    (hb : t.atm.noteAllocator.binarysearchStart = false) {rs : List Pins}
    (hr : Runs (clock g) Starts t rs) :
    let u := run (clock g) t rs
    let i := t.atm.allocatorEdge
    (u.atm.startNoteAllocation = true → u.atm.Held rs.length u.atm.encrypter u.atm.decrypter ∧
      (rs.length ≤ 42 → u.atm.allocatorEdge = i)) ∧
    (rs.length ≤ 42 → u.atm.noteAllocator =
      (NoteAllocator.clock i)^[rs.length] t.atm.noteAllocator) ∧
    (42 ≤ rs.length → NoteAllocator.Finished i u.atm.noteAllocator) := by
  induction rs using List.reverseRecOn with
  | nil => exact ⟨fun _ => ⟨hh, fun _ => rfl⟩, fun _ => rfl, fun h => absurd h (by simp)⟩
  | append_singleton rs q ih =>
    obtain ⟨hr, hs', hres⟩ := (runs_concat rs q).mp hr
    simp only [run_concat, List.length_append, List.length_singleton]
    have ih := ih hr
    generalize run (clock g) t rs = u at *
    obtain ⟨ih₁, ih₂, ih₃⟩ := ih
    obtain ⟨hheld, hedge⟩ := ih₁ hs'
    have hna : (clock g q u).atm.noteAllocator =
        NoteAllocator.clock u.atm.allocatorEdge u.atm.noteAllocator := by
      change NoteAllocator.clock ⟨(u.edge q).debouncedReset, _, _, _, _⟩ _ = _
      rw [hres]
      rfl
    have hiter (h42 : rs.length + 1 ≤ 42) : (clock g q u).atm.noteAllocator =
        (NoteAllocator.clock t.atm.allocatorEdge)^[rs.length + 1] t.atm.noteAllocator := by
      rw [hna, hedge (by omega), ih₂ (by omega), Function.iterate_succ_apply']
    refine ⟨fun hs'' => ⟨Atm.held_clock hheld hres hs'', fun h42 => ?_⟩, hiter, fun h42 => ?_⟩
    · exact (Atm.allocatorEdge_clock_of_held hheld (by omega) hres hs'').trans
        (hedge (by omega))
    · rcases Nat.lt_or_ge 41 rs.length with hge | hlt
      · have hf := ih₃ (by omega)
        rw [hna, NoteAllocator.clock_finished rfl hs' hf.state]
        exact hf
      · have h41 : rs.length + 1 = 42 := by omega
        rw [hiter (by omega), h41]
        exact NoteAllocator.finished_iterate rfl hs ha hb

theorem held_of_start {ps : List Pins} {p : Pins}
    (h₀ : (after g ps).atm.startNoteAllocation = false)
    (h₁ : (clock g p (after g ps)).atm.startNoteAllocation = true) :
    ((after g ps).edge p).debouncedReset = false ∧
      (clock g p (after g ps)).atm.Held 0 (clock g p (after g ps)).atm.encrypter
        (clock g p (after g ps)).atm.decrypter := by
  have hen := encrypterInv (g := g) ps
  have hde := decrypterInv (g := g) ps
  have hfr := freshInv (g := g) ps
  generalize after g ps = t at *
  have he := Atm.clock_cases g (t.edge p) t.atm
  change (t.atm.clock g (t.edge p)).toMain.startNoteAllocation = true at h₁
  change _ ∧ (t.atm.clock g (t.edge p)).toMain.Held 0
    (Encrypter.clock ⟨(t.edge p).debouncedReset, t.atm.startEncrypt, t.atm.enInput⟩
      t.atm.encrypter) (t.atm.clock g (t.edge p)).decrypter
  generalize (t.atm.clock g (t.edge p)).toMain = m at he h₁
  cases he with
  | reset hr => exact Bool.noConfusion h₁
  | reconnect hr hc => exact absurd (h₀.symm.trans h₁) (by simp)
  | branch m hr hc hb =>
    refine ⟨hr, ?_⟩
    cases hb with
    | noteAllocation l h =>
      simp only [Main.EncrypterInv, Main.DecrypterInv, Main.FreshInv, h] at hen hde hfr
      refine ⟨hfr.2.2, hde.1, 0, le_rfl, ?_⟩
      exact Idle.workingAt (clock_stop hr hen.1) _
    | ready b l h => exact Bool.noConfusion h₁
    | _ => exact absurd (h₀.symm.trans h₁) (by simp)

/-- What a power-up allocator gives for the inputs of `i` after 42 edges. -/
def fromPowerUp (i : AllocatorEdge) : NoteAllocator :=
  (NoteAllocator.clock i)^[42] NoteAllocator.powerUp

/-- As long as `start` is not withdrawn in the middle of a search, every transaction that holds
it for 42 edges gets what a power-up allocator gives for its stock, limits and amount. -/
theorem allocation_isolated (g : Generics) (ps : List Pins)
    (h : Runs (clock g) (fun p t => ¬ t.Withdraws p) powerUp ps) (qs : List Pins) (p : Pins)
    (rs : List Pins) (hps : ps = qs ++ p :: rs)
    (h₀ : (after g qs).atm.startNoteAllocation = false)
    (h₁ : (after g (qs ++ [p])).atm.startNoteAllocation = true)
    (hr : Runs (clock g) Starts (after g (qs ++ [p])) rs) (h42 : 42 ≤ rs.length) :
    (after g ps).atm.noteAllocator.systemState = .finished ∧
      (after g ps).atm.allocated =
        (fromPowerUp (after g (qs ++ [p])).atm.allocatorEdge).out ∧
      (after g ps).atm.adequateCashInAtm =
        (fromPowerUp (after g (qs ++ [p])).atm.allocatorEdge).allocationPossible := by
  simp only [after_concat] at h₁ hr ⊢
  obtain ⟨hreset, hheld⟩ := held_of_start h₀ h₁
  have hna : (clock g p (after g qs)).atm.noteAllocator = NoteAllocator.clock
      ⟨((after g qs).edge p).debouncedReset, (after g qs).atm.startNoteAllocation,
        (after g qs).atm.stock, (after g qs).atm.limits, (after g qs).atm.amountToBeAllocated⟩
      (after g qs).atm.noteAllocator := rfl
  have hidle : (clock g p (after g qs)).atm.noteAllocator.systemState = .initial := by
    rw [hna]
    exact (NoteAllocator.clock_stop h₀).state
  have hbs : (clock g p (after g qs)).atm.noteAllocator.binarysearchStart = false := by
    have hw : ¬ (after g qs).Withdraws p := by
      rw [hps, runs_append] at h
      exact h.2.1
    have hoff : (after g qs).atm.noteAllocator.binarysearchStart = false := by
      simpa [Withdraws, h₀, hreset] using hw
    rw [hna, hreset, h₀]
    exact hoff
  have hrun := (held_run hheld h₁ hidle hbs hr).2.2 h42
  have hend : after g ps = run (clock g) (clock g p (after g qs)) rs := by
    rw [hps, after_append]
    rfl
  have hp : NoteAllocator.Finished (clock g p (after g qs)).atm.allocatorEdge
      (fromPowerUp (clock g p (after g qs)).atm.allocatorEdge) :=
    NoteAllocator.finished_iterate rfl h₁ rfl rfl
  rw [hend]
  exact ⟨hrun.state, hrun.out.trans hp.out.symm,
    hrun.allocationPossible.trans hp.allocationPossible.symm⟩

theorem starts_of_typing {c : BitVec 7} {d : Durable} {a : NoteAllocator} {v : BitVec 64} {f : Bool}
    {t : TopLevel} (hN : debounceTime ≤ g.N) (h : t.Settled { nextDataIn := true, done := f })
    (hp : t.atm.Typing g c d a v 7 false) (hb : d.bankId = bankBits v) :
    let p := lastPins c f v
    (clock g p t).atm.startNoteAllocation = false ∧
      ((clock g p)^[2] t).atm.startNoteAllocation = true ∧
      ((clock g p)^[2] t).atm.allocatorEdge = ⟨false, true, d.stock, d.limits, Slice.low v⟩ ∧
      Runs (clock g) Starts ((clock g p)^[2] t) (List.replicate 42 p) ∧
      ((clock g p)^[44] t).atm.noteAllocator = allocating d v a 42 := by
  intro p
  have hent {n : Nat} := iterate_entered h hp (n := n)
  have hwait {n : Nat} := iterate_waiting hN h hp hb (fun _ => 0) (n := n)
  have h1 := hent (n := 1) (by omega)
  have hs1 : ((clock g p)^[2] t).atm.startNoteAllocation = true :=
    congrArg Session.startNoteAllocation h1.session
  refine ⟨congrArg Session.startNoteAllocation (hent (n := 0) (by omega)).session, hs1, ?_,
    runs_replicate fun k hk => ?_, ?_⟩
  · have hd : ((clock g p)^[2] t).atm.durable = d := h1.durable
    have ha : ((clock g p)^[2] t).atm.amountToBeAllocated = Slice.low v := h1.amount
    rw [Main.allocatorEdge, hs1, ha, ← hd]
    rfl
  · rw [← Function.iterate_add_apply]
    refine ⟨?_, ?_⟩
    · rcases Nat.lt_or_ge k 35 with hlt | hge
      · exact (congrArg Session.startNoteAllocation (hent (n := k + 1) (by omega)).session).trans
          (decide_eq_true (show 1 ≤ k + 1 by omega))
      · obtain ⟨w, -, hw⟩ := hwait (n := k - 35) (by rw [debounceTime_eq]; omega)
        rw [show 37 + (k - 35) = k + 2 by omega] at hw
        exact hw.startNoteAllocation
    · rw [h.edge_iterate (by rw [debounceTime_eq]; omega)]
      rfl
  · obtain ⟨w, -, hw⟩ := hwait (n := 7) (by rw [debounceTime_eq]; omega)
    exact hw.allocator

theorem runs_of_silent {c : BitVec 7} {ps : List Pins} {ok : Pins → TopLevel → Prop}
    (h : Runs (clock g) (Silent c) powerUp ps)
    (hok : ∀ p t, t.atm.Empty → t.atm.noteAllocator.Unused → ok p t) :
    Runs (clock g) ok powerUp ps :=
  h.strengthen (P := fun t : TopLevel => t.atm.Empty ∧ t.atm.noteAllocator.Unused)
    (fun p t hp hi => ⟨hok p t hi.1 hi.2, Atm.empty_clock hi.1 hi.2 (i := t.edge p) hp.1⟩)
    ⟨⟨rfl, rfl, by decide⟩, ⟨rfl, le_rfl, rfl⟩⟩

theorem not_withdraws_of_holding {p : Pins} {t : TopLevel} (h : t.atm.Holding false) :
    ¬ t.Withdraws p := by
  rintro ⟨hn, -, hs⟩
  rcases h with h | h
  · exact Bool.noConfusion (hn.symm.trans h)
  · exact Bool.noConfusion (h.symm.trans hs)

/-- After a withdrawal of 100 the user asks for 3600. -/
theorem allocation_isolated_of_withdrawal : ∃ ps qs p rs, ps = qs ++ p :: rs ∧ 42 ≤ rs.length ∧
    (after {} (qs ++ [p])).atm.allocatorEdge.amountAsked = 3600 ∧
    (after {} (qs ++ [p])).atm.allocatorEdge.stock = ⟨255, 255, 255, 254⟩ ∧
    (after {} ps).atm.noteAllocator.systemState = .finished ∧
      (after {} ps).atm.allocated =
        (fromPowerUp (after {} (qs ++ [p])).atm.allocatorEdge).out ∧
      (after {} ps).atm.adequateCashInAtm =
        (fromPowerUp (after {} (qs ++ [p])).atm.allocatorEdge).allocationPossible := by
  have hN : debounceTime ≤ ({} : Generics).N := by rw [debounceTime_eq]; decide
  obtain ⟨_, t₂, a, h₁, h₂, -, -, hs₂, ha, hp₂⟩ := exists_withdrawn
  obtain ⟨t₃, h₃, hs₃, hp₃⟩ := exists_typed hs₂ hp₂ 0x0020123400000e10
  rw [ha] at h₃
  obtain ⟨qs, hqs, hrun⟩ := (h₁.trans h₂).trans (tended_of_calm (fun _ => Atm.Opening.served) h₃)
  generalize hL : lastPins 25 false 0x0020123400000e10 = p
  have hstart := starts_of_typing hN hs₃ hp₃ (by decide)
  rw [hL] at hstart
  obtain ⟨hst₀, hst₁, hedge, hruns, -⟩ := hstart
  have hafter (n : Nat) : after {} (qs ++ List.replicate n p) = (clock {} p)^[n] t₃ := by
    rw [after_append, run_replicate, show after {} qs = t₃ from hrun]
  have htwo : after {} (qs ++ List.replicate 1 p ++ [p]) = (clock {} p)^[2] t₃ := by
    rw [List.append_assoc]
    exact hafter 2
  have hhold : ∀ n < 44, ¬ ((clock {} p)^[n] t₃).Withdraws p := by
    intro n hn
    have hask := iterate_asking hN hs₃ hp₃ (by decide) (n := n) (by rw [debounceTime_eq]; omega)
    rw [hL, ha] at hask
    exact not_withdraws_of_holding hask.1
  have hall : Runs (clock {}) (fun p t => ¬ t.Withdraws p) powerUp
      (qs ++ List.replicate 44 p) :=
    (runs_append ..).mpr ⟨hqs.mono fun _ _ h => not_withdraws_of_holding h.meets.holding, by
      rw [show run (clock {}) powerUp qs = t₃ from hrun]
      exact runs_replicate hhold⟩
  refine ⟨qs ++ List.replicate 44 p, qs ++ List.replicate 1 p, p, List.replicate 42 p,
    by simp [List.replicate], by simp, ?_, ?_,
    allocation_isolated {} _ hall _ p (List.replicate 42 p) (by simp [List.replicate]) ?_ ?_ ?_
      (by simp)⟩
  · rw [htwo, hedge]
    decide
  · rw [htwo, hedge]
    decide
  · rw [hafter]; exact hst₀
  · rw [htwo]; exact hst₁
  · rw [htwo]; exact hruns

/-- With full limits and a full stock, 3600 asked from another bank and its exit confirmed at
once, the search for 20000 begins where the one for 3600 was left. -/
theorem allocation_not_isolated :
    ¬ ∀ (g : Generics) (ps qs : List Pins) (p : Pins) (rs : List Pins), ps = qs ++ p :: rs →
      (after g qs).atm.startNoteAllocation = false →
      (after g (qs ++ [p])).atm.startNoteAllocation = true →
      Runs (clock g) Starts (after g (qs ++ [p])) rs → 42 ≤ rs.length →
        (after g ps).atm.noteAllocator.systemState = .finished ∧
          (after g ps).atm.allocated =
            (fromPowerUp (after g (qs ++ [p])).atm.allocatorEdge).out ∧
          (after g ps).atm.adequateCashInAtm =
            (fromPowerUp (after g (qs ++ [p])).atm.allocatorEdge).allocationPossible := by
  intro hall
  have hN : debounceTime ≤ ({} : Generics).N := by rw [debounceTime_eq]; decide
  obtain ⟨t₂, h₂, hs₂, hp₂⟩ := exists_filled
  obtain ⟨t₃, h₃, hs₃, hp₃⟩ := hs₂.press (c := 25) { done := true } 0
    (fun _ hs => hs.clock (quiet_edge _ _ _ rfl) rfl rfl) hp₂
  obtain ⟨t₄, h₄, hs₄, hp₄⟩ := exists_rejected (v := 0x0001000000000e10) hs₃ hp₃ (by decide)
  obtain ⟨t₅, h₅, hs₅, hp₅⟩ := exists_typed hs₄ hp₄ 20000
  obtain ⟨qs, -, hqs⟩ := (((leads_of_reaches h₂).trans h₃).trans h₄).trans h₅
  obtain ⟨hst₀, hst₁, hedge, hruns, halloc⟩ := starts_of_typing hN hs₅ hp₅ rfl
  generalize hL : lastPins 25 true 20000 = p at hst₀ hst₁ hedge hruns halloc
  have hafter (n : Nat) : after {} (qs ++ List.replicate n p) = (clock {} p)^[n] t₅ := by
    rw [after_append, run_replicate, show after {} qs = t₅ from hqs]
  have hcall := hall {} (qs ++ List.replicate 44 p) (qs ++ List.replicate 1 p) p
    (List.replicate 42 p) (by simp [List.replicate])
  rw [List.append_assoc, show List.replicate 1 p ++ [p] = List.replicate 2 p from rfl, hafter,
    hafter, hafter, hedge, Atm.allocated, halloc] at hcall
  obtain ⟨-, hout, -⟩ := hcall hst₀ hst₁ hruns (by simp)
  exact absurd hout (by decide +kernel)

end TopLevel

end AtmController.Frontend
