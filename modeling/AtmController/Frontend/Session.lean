import AtmController.Frontend.Settlement

namespace AtmController.Frontend

open Clocked

/-- How long a button has to be held until its debouncer follows. -/
def debounceTime : Nat := waitCycles.toNat + 1

theorem debounceTime_eq : debounceTime = 999998 + 1 + 1 := rfl

attribute [irreducible] debounceTime

namespace Debouncer

variable {b l : Bool} {d : Debouncer}

structure Settled (b : Bool) (d : Debouncer) : Prop where
  oldbutton : d.oldbutton = b
  buttonDeb : d.buttonDeb = b

theorem Settled.clock (h : d.Settled b) : (d.clock b).Settled b := by
  simp only [Debouncer.clock, h.oldbutton, ne_eq, not_true_eq_false, if_false]
  split
  · exact ⟨rfl, rfl⟩
  · exact ⟨rfl, h.buttonDeb⟩

theorem Settled.iterate (h : d.Settled b) (n : Nat) : ((Debouncer.clock b)^[n] d).Settled b := by
  induction n generalizing d with
  | zero => exact h
  | succ n ih => exact ih h.clock

theorem Settled.turning (h : d.Settled l) (hb : l ≠ b) {n : Nat} (hn : n + 1 < debounceTime) :
    (Debouncer.clock b)^[n + 1] d = ⟨b, BitVec.ofNat 20 n, l⟩ := by
  rw [debounceTime_eq] at hn
  induction n with
  | zero =>
    rw [Nat.zero_add, Function.iterate_one, Debouncer.clock, if_pos (by rw [h.oldbutton]; exact hb),
      ← h.buttonDeb]
    rfl
  | succ n ih =>
    rw [Function.iterate_succ_apply', ih (by omega), Debouncer.clock, if_neg (by simp)]
    have hadd : BitVec.ofNat 20 n + 1 = BitVec.ofNat 20 (n + 1) := (BitVec.ofNat_add n 1).symm
    have hne : BitVec.ofNat 20 (n + 1) ≠ waitCycles := by
      intro he
      have hv := congrArg BitVec.toNat he
      rw [BitVec.toNat_ofNat, Nat.mod_eq_of_lt (by omega)] at hv
      change n + 1 = 999999 at hv
      omega
    simp only [hadd, hne, if_false]

theorem Settled.hold (h : d.Settled l) (b : Bool) {n : Nat} (hn : n < debounceTime) :
    ((Debouncer.clock b)^[n] d).buttonDeb = l := by
  rcases eq_or_ne l b with rfl | hb
  · exact (h.iterate n).buttonDeb
  · cases n with
    | zero => exact h.buttonDeb
    | succ n => rw [h.turning hb hn]

theorem Settled.turn (h : d.Settled l) (b : Bool) :
    ((Debouncer.clock b)^[debounceTime] d).Settled b := by
  rcases eq_or_ne l b with rfl | hb
  · exact h.iterate _
  · rw [debounceTime_eq, Function.iterate_succ_apply',
      h.turning hb (by rw [debounceTime_eq]; omega), Debouncer.clock, if_neg (by simp)]
    exact ⟨rfl, rfl⟩

end Debouncer

structure Buttons where
  loadBankId : Bool := false
  nextDataIn : Bool := false
  reset : Bool := false
  start : Bool := false
  done : Bool := false

def Pins.buttons (p : Pins) : Buttons := ⟨p.loadBankId, p.nextDataIn, p.reset, p.start, p.done⟩

def Buttons.edge (b : Buttons) (p : Pins) : AtmEdge where
  debouncedLoadBankId := b.loadBankId
  debouncedNextData := b.nextDataIn
  debouncedReset := b.reset
  debouncedStart := b.start
  debouncedDone := b.done
  swIn := p.swIn
  chanAddr := p.chanAddr
  h2fValid := p.h2fValid
  h2fData := p.h2fData

namespace TopLevel

variable {g : Generics} {b : Buttons} {p : Pins} {t : TopLevel}

structure Settled (b : Buttons) (t : TopLevel) : Prop where
  loadBankId : t.loadBankIdDebouncer.Settled b.loadBankId
  nextDataIn : t.dataInDebouncer.Settled b.nextDataIn
  reset : t.resetDebouncer.Settled b.reset
  start : t.startDebouncer.Settled b.start
  done : t.doneDebouncer.Settled b.done

theorem iterate_debouncers (g : Generics) (p : Pins) (t : TopLevel) (n : Nat) :
    ((clock g p)^[n] t).loadBankIdDebouncer =
        (Debouncer.clock p.loadBankId)^[n] t.loadBankIdDebouncer ∧
      ((clock g p)^[n] t).dataInDebouncer =
        (Debouncer.clock p.nextDataIn)^[n] t.dataInDebouncer ∧
      ((clock g p)^[n] t).resetDebouncer = (Debouncer.clock p.reset)^[n] t.resetDebouncer ∧
      ((clock g p)^[n] t).startDebouncer = (Debouncer.clock p.start)^[n] t.startDebouncer ∧
      ((clock g p)^[n] t).doneDebouncer = (Debouncer.clock p.done)^[n] t.doneDebouncer := by
  induction n generalizing t with
  | zero => exact ⟨rfl, rfl, rfl, rfl, rfl⟩
  | succ n ih => exact ih (clock g p t)

theorem Settled.edge_iterate (h : t.Settled b) {n : Nat} (hn : n < debounceTime) :
    ((clock g p)^[n] t).edge p = b.edge p := by
  obtain ⟨h₁, h₂, h₃, h₄, h₅⟩ := iterate_debouncers g p t n
  simp only [TopLevel.edge, h₁, h₂, h₃, h₄, h₅, h.loadBankId.hold _ hn, h.nextDataIn.hold _ hn,
    h.reset.hold _ hn, h.start.hold _ hn, h.done.hold _ hn]
  rfl

theorem Settled.edge (h : t.Settled b) (p : Pins) : t.edge p = b.edge p :=
  h.edge_iterate (g := {}) (n := 0) (by rw [debounceTime_eq]; omega)

theorem Settled.hold (h : t.Settled b) (p : Pins) {n : Nat} (hn : n ≤ debounceTime) :
    ((clock g p)^[n] t).atm = (Atm.clock g (b.edge p))^[n] t.atm := by
  induction n with
  | zero => rfl
  | succ n ih =>
    rw [Function.iterate_succ_apply', Function.iterate_succ_apply', ← ih (by omega),
      ← h.edge_iterate (g := g) (p := p) (show n < debounceTime by omega)]
    rfl

theorem Settled.turn (h : t.Settled b) (p : Pins) :
    ((clock g p)^[debounceTime] t).Settled p.buttons := by
  obtain ⟨h₁, h₂, h₃, h₄, h₅⟩ := iterate_debouncers g p t debounceTime
  constructor
  · rw [h₁]; exact h.loadBankId.turn _
  · rw [h₂]; exact h.nextDataIn.turn _
  · rw [h₃]; exact h.reset.turn _
  · rw [h₄]; exact h.start.turn _
  · rw [h₅]; exact h.done.turn _

theorem Settled.clock (h : t.Settled p.buttons) : (clock g p t).Settled p.buttons where
  loadBankId := h.loadBankId.clock
  nextDataIn := h.nextDataIn.clock
  reset := h.reset.clock
  start := h.start.clock
  done := h.done.clock

theorem Settled.iterate (h : t.Settled p.buttons) (n : Nat) :
    ((TopLevel.clock g p)^[n] t).Settled p.buttons ∧
      ((TopLevel.clock g p)^[n] t).atm = (Atm.clock g (p.buttons.edge p))^[n] t.atm := by
  induction n generalizing t with
  | zero => exact ⟨h, rfl⟩
  | succ n ih =>
    have hn := ih (h.clock (g := g))
    have ht : (TopLevel.clock g p t).atm = Atm.clock g (p.buttons.edge p) t.atm := by
      rw [← h.edge p]
      rfl
    rw [ht] at hn
    exact hn

/-! ### A transaction is typed in -/

/-- The host stays away from the channels and leaves the address at `c`. -/
def Silent (c : BitVec 7) (p : Pins) (_ : TopLevel) : Prop :=
  p.h2fValid = false ∧ p.h2fData = 0 ∧ p.chanAddr = c

def Alone (c : BitVec 7) (f : Bool) (p : Pins) (t : TopLevel) : Prop :=
  Silent c p t ∧ p.reset = f

structure Tended (Q : Atm → Prop) (p : Pins) (t : TopLevel) : Prop where
  noReset : NoReset p t
  meets : Q t.atm

/-- The user alone goes on. -/
structure Calm (c : BitVec 7) (Q : Atm → Prop) (p : Pins) (t : TopLevel) : Prop
    extends Tended Q p t where
  alone : Alone c false p t

theorem Calm.mono {c : BitVec 7} {Q Q' : Atm → Prop} {t u : TopLevel} (hQ : ∀ s, Q s → Q' s)
    (h : Reaches (clock g) (Calm c Q) t u) : Reaches (clock g) (Calm c Q') t u :=
  Reaches.mono h fun _ _ h => ⟨⟨h.noReset, hQ _ h.meets⟩, h.alone⟩

theorem Tended.mono {Q Q' : Atm → Prop} {t u : TopLevel} (hQ : ∀ s, Q s → Q' s)
    (h : Reaches (clock g) (Tended Q) t u) : Reaches (clock g) (Tended Q') t u :=
  Reaches.mono h fun _ _ h => ⟨h.noReset, hQ _ h.meets⟩

theorem tended_of_calm {c : BitVec 7} {Q Q' : Atm → Prop} {t u : TopLevel} (hQ : ∀ s, Q s → Q' s)
    (h : Reaches (clock g) (Calm c Q) t u) : Reaches (clock g) (Tended Q') t u :=
  Reaches.mono h fun _ _ h => ⟨h.noReset, hQ _ h.meets⟩

abbrev Brings (g : Generics) (c : BitVec 7) : TopLevel → TopLevel → Prop :=
  Reaches (clock g) (Alone c false)

theorem brings_of_calm {c : BitVec 7} {Q : Atm → Prop} {t u : TopLevel}
    (h : Reaches (clock g) (Calm c Q) t u) : Brings g c t u := h.mono fun _ _ h => h.alone

theorem silent_of_alone {c : BitVec 7} {f : Bool} {t u : TopLevel}
    (h : Reaches (clock g) (Alone c f) t u) : Reaches (clock g) (Silent c) t u :=
  h.mono fun _ _ h => h.1

def idlePins (c : BitVec 7) (b : Buttons) (sw : BitVec 8) : Pins where
  loadBankId := b.loadBankId
  nextDataIn := b.nextDataIn
  reset := b.reset
  start := b.start
  done := b.done
  swIn := sw
  chanAddr := c
  h2fValid := false
  h2fData := 0

theorem reaches_iterate (g : Generics) (c : BitVec 7) (b : Buttons) (sw : BitVec 8) (n : Nat)
    (t : TopLevel) : Reaches (clock g) (Alone c b.reset) t ((clock g (idlePins c b sw))^[n] t) := by
  induction n generalizing t with
  | zero => exact .refl
  | succ n ih => exact (Reaches.single _ ⟨⟨rfl, rfl, rfl⟩, rfl⟩).trans (ih _)

theorem brings_iterate (g : Generics) (c : BitVec 7) (b : Buttons) (sw : BitVec 8) (n : Nat)
    (t : TopLevel) (hr : b.reset = false := by rfl) :
    Brings g c t ((clock g (idlePins c b sw))^[n] t) := by
  have h := reaches_iterate g c b sw n t
  rwa [hr] at h

variable {c : BitVec 7} {d : Durable} {a : NoteAllocator} {v : BitVec 64} {f : Bool} {k : Nat}

theorem quiet_edge (b b' : Buttons) (sw : BitVec 8) (hr : b.reset = false) :
    (b.edge (idlePins c b' sw)).Quiet c := ⟨hr, rfl, rfl⟩

theorem Settled.reaches {P : Nat → Atm → Prop} {R : Pins → TopLevel → Prop} (h : t.Settled b)
    (b' : Buttons) (sw : BitVec 8)
    (hstep : ∀ n < debounceTime, ∀ s, P n s → P (n + 1) (s.clock g (b.edge (idlePins c b' sw))))
    (hok : ∀ n < debounceTime, ∀ u : TopLevel, u.edge (idlePins c b' sw) =
      b.edge (idlePins c b' sw) → P n u.atm → R (idlePins c b' sw) u) (hP : P 0 t.atm) :
    ∃ u, Reaches (TopLevel.clock g) R t u ∧ u.Settled b' ∧ P debounceTime u.atm := by
  have hrun : ∀ n ≤ debounceTime, P n ((TopLevel.clock g (idlePins c b' sw))^[n] t).atm := by
    intro n hn
    rw [h.hold _ hn]
    induction n with
    | zero => exact hP
    | succ n ih =>
      rw [Function.iterate_succ_apply']
      exact hstep n hn _ (ih (by omega))
  exact ⟨_, ⟨List.replicate debounceTime (idlePins c b' sw),
    runs_replicate fun n hn => hok n hn _ (h.edge_iterate hn) (hrun n hn.le), run_replicate ..⟩,
    h.turn (idlePins c b' sw), hrun _ le_rfl⟩

theorem Settled.press {P : Atm → Prop} (h : t.Settled b) (b' : Buttons) (sw : BitVec 8)
    (hstep : ∀ s, P s → P (s.clock g (b.edge (idlePins c b' sw)))) (hP : P t.atm) :
    ∃ u, Reaches (TopLevel.clock g) (Alone c b'.reset) t u ∧ u.Settled b' ∧ P u.atm :=
  h.reaches (P := fun _ => P) b' sw (fun _ _ => hstep) (fun _ _ _ _ _ => ⟨⟨rfl, rfl, rfl⟩, rfl⟩) hP

theorem Settled.turnTo {P : Nat → Atm → Prop} {Q : Atm → Prop} (h : t.Settled b)
    (hr : b.reset = false) (b' : Buttons) (hr' : b'.reset = false) (sw : BitVec 8)
    (hstep : ∀ n < debounceTime, ∀ s, P n s → P (n + 1) (s.clock g (b.edge (idlePins c b' sw))))
    (hQ : ∀ n < debounceTime, ∀ s, P n s → Q s) (hP : P 0 t.atm) :
    ∃ u, Reaches (TopLevel.clock g) (Calm c Q) t u ∧ u.Settled b' ∧ P debounceTime u.atm :=
  h.reaches b' sw hstep (fun n hn _ he hu =>
    ⟨⟨(congrArg _ he).trans hr, hQ n hn _ hu⟩, ⟨rfl, rfl, rfl⟩, hr'⟩) hP

theorem Settled.release {P Q : Atm → Prop} (k : Nat) (hk : k ≤ 100) (h : t.Settled b)
    (b' : Buttons) (sw : BitVec 8)
    (hfirst : ∀ s, P s → Q ((Atm.clock g (b.edge (idlePins c b' sw)))^[k] s))
    (hstep : ∀ s, Q s → Q (s.clock g (b.edge (idlePins c b' sw)))) (hP : P t.atm) :
    ∃ u, Reaches (TopLevel.clock g) (Alone c b'.reset) t u ∧ u.Settled b' ∧ Q u.atm := by
  refine ⟨_, reaches_iterate g c b' sw debounceTime t, h.turn (idlePins c b' sw), ?_⟩
  rw [h.hold _ le_rfl, show debounceTime = debounceTime - k + k by rw [debounceTime_eq]; omega,
    Function.iterate_add_apply]
  generalize debounceTime - k = n
  induction n with
  | zero => exact hfirst _ hP
  | succ n ih =>
    rw [Function.iterate_succ_apply']
    exact hstep _ ih

theorem exists_typing (h : t.Settled { done := f }) (hp : t.atm.Parked g c d a) (v : BitVec 64) :
    ∃ u, Reaches (clock g) (Calm c (Atm.Opening a.binarysearchStart)) t u ∧ u.Settled { done := f } ∧
      u.atm.Typing g c d a v 0 false := by
  obtain ⟨u, htu, hu, hpu⟩ := h.turnTo (g := g) (c := c) (P := fun _ => Atm.Parked g c d a)
    (Q := Atm.Opening a.binarysearchStart) rfl { start := true, done := f } rfl 0
    (fun _ _ s hs => hs.clock (quiet_edge _ _ _ rfl) rfl rfl) (fun _ _ s hs => hs.opening) hp
  obtain ⟨w, huw, hw, hpw⟩ := hu.turnTo (g := g) (c := c)
    (P := fun n s => n = 0 ∧ s.Parked g c d a ∨ s.Typing g c d a v 0 false)
    (Q := Atm.Opening a.binarysearchStart) rfl { done := f } rfl 0
    (fun n _ s hs => .inr <| hs.elim (fun hs => hs.2.start (quiet_edge _ _ _ rfl) rfl rfl)
      fun hs => hs.pause (quiet_edge _ _ _ rfl) rfl)
    (fun n _ s hs => hs.elim (fun hs => hs.2.opening) fun hs => .inr hs.asking)
    (.inl ⟨rfl, hpu⟩)
  exact ⟨w, htu.trans huw, hw, hpw.resolve_left fun h0 => absurd h0.1 (by
    rw [debounceTime_eq]
    decide)⟩

theorem exists_key {l : Bool} (h : t.Settled b) (hr : b.reset = false)
    (hn : b.nextDataIn = false) (hp : t.atm.Typing g c d a v k l) :
    ∃ u, Reaches (clock g) (Calm c (Atm.Asking a.binarysearchStart)) t u ∧
      u.Settled { nextDataIn := true, done := f } ∧ u.atm.Typing g c d a v k false := by
  obtain ⟨u, htu, hu, hpu⟩ := h.turnTo (g := g) (c := c)
    (P := fun n s => ∃ l, s.Typing g c d a v k l ∧ (0 < n → l = false))
    (Q := Atm.Asking a.binarysearchStart) hr { nextDataIn := true, done := f } rfl 0
    (fun n _ s ⟨_, hs, _⟩ => ⟨false, hs.pause (quiet_edge _ _ _ hr) hn, fun _ => rfl⟩)
    (fun n _ s ⟨_, hs, _⟩ => hs.asking) ⟨l, hp, fun h => absurd h (by decide)⟩
  obtain ⟨l', hl, hl'⟩ := hpu
  rw [hl' (by rw [debounceTime_eq]; decide)] at hl
  exact ⟨u, htu, hu, hl⟩

theorem exists_typed_of_typing (h : t.Settled b) (hr : b.reset = false)
    (hn : b.nextDataIn = false) (hp : t.atm.Typing g c d a v 0 false) :
    ∃ u, Reaches (clock g) (Calm c (Atm.Asking a.binarysearchStart)) t u ∧
      u.Settled { nextDataIn := true, done := f } ∧ u.atm.Typing g c d a v 7 false := by
  have hk : ∀ k ≤ 7, ∃ u, Reaches (clock g) (Calm c (Atm.Asking a.binarysearchStart)) t u ∧
      u.Settled { nextDataIn := true, done := f } ∧ u.atm.Typing g c d a v k false := by
    intro k
    induction k with
    | zero => exact fun _ => exists_key h hr hn hp
    | succ k ih =>
      intro hk7
      obtain ⟨u, htu, hu, hpu⟩ := ih (by omega)
      obtain ⟨w, huw, hw, hpw⟩ := hu.turnTo (g := g) (c := c)
        (P := fun n s => n = 0 ∧ s.Typing g c d a v k false ∨ s.Typing g c d a v (k + 1) true)
        (Q := Atm.Asking a.binarysearchStart) rfl { done := f } rfl (Slice.byte v (7 - k))
        (fun n _ s hs => .inr <| hs.elim
          (fun hs => hs.2.key (by omega) (quiet_edge _ _ _ rfl) rfl rfl)
          (fun hs => hs.hold (quiet_edge _ _ _ rfl) rfl))
        (fun n _ s hs => hs.elim (fun hs => hs.2.asking) (·.asking)) (.inl ⟨rfl, hpu⟩)
      have hpw := hpw.resolve_left fun h0 => absurd h0.1 (by rw [debounceTime_eq]; decide)
      obtain ⟨x, hwx, hx, hpx⟩ := exists_key hw rfl rfl hpw
      exact ⟨x, (htu.trans huw).trans hwx, hx, hpx⟩
  exact hk 7 le_rfl

theorem exists_typed (h : t.Settled { done := f }) (hp : t.atm.Parked g c d a) (v : BitVec 64) :
    ∃ u, Reaches (clock g) (Calm c (Atm.Opening a.binarysearchStart)) t u ∧
      u.Settled { nextDataIn := true, done := f } ∧ u.atm.Typing g c d a v 7 false := by
  obtain ⟨u, htu, hu, hpu⟩ := exists_typing h hp v
  obtain ⟨w, huw, hw, hpw⟩ := exists_typed_of_typing hu rfl rfl hpu
  exact ⟨w, htu.trans (Calm.mono (fun _ => .inr) huw), hw, hpw⟩

abbrev lastPins (c : BitVec 7) (f : Bool) (v : BitVec 64) : Pins :=
  idlePins c { done := f } (Slice.byte v 0)

theorem iterate_entered (h : t.Settled { nextDataIn := true, done := f })
    (hp : t.atm.Typing g c d a v 7 false) {n : Nat} (hn : n ≤ 35) :
    ((clock g (lastPins c f v))^[n + 1] t).atm.Entered g c d a v n := by
  rw [h.hold _ (by rw [debounceTime_eq]; omega)]
  exact hp.entered (quiet_edge { nextDataIn := true, done := f } { done := f } _ rfl) rfl rfl hn

abbrev allocating (d : Durable) (v : BitVec 64) (a : NoteAllocator) (n : Nat) : NoteAllocator :=
  (NoteAllocator.clock ⟨false, true, d.stock, d.limits, Slice.low v⟩)^[n] a.stopped

theorem allocating_finished (ha : a.binarysearchStart = false) {n : Nat} (hn : 42 ≤ n) :
    NoteAllocator.Finished ⟨false, true, d.stock, d.limits, Slice.low v⟩ (allocating d v a n) := by
  obtain ⟨k, hk, hf⟩ := NoteAllocator.exists_finished (c := a.stopped)
    (i := ⟨false, true, d.stock, d.limits, Slice.low v⟩) rfl rfl rfl ha
  rw [allocating, show n = n - k + k by omega, Function.iterate_add_apply]
  exact hf.iterate rfl rfl _

theorem iterate_waiting (hN : debounceTime ≤ g.N) (h : t.Settled { nextDataIn := true, done := f })
    (hp : t.atm.Typing g c d a v 7 false) (hb : d.bankId = bankBits v) (r : Nat → BitVec 8)
    {n : Nat} (hn : 37 + n ≤ debounceTime) :
    ∃ w ≤ g.N + n, ((clock g (lastPins c f v))^[37 + n] t).atm.Waiting g c d
      (allocating d v a (35 + n)) v r 0 false false w := by
  have hent := iterate_entered h hp (n := 35) le_rfl
  rw [h.hold _ (by rw [debounceTime_eq]; omega)] at hent
  obtain ⟨w₀, hw₀, hwait⟩ := hent.communicating
    (quiet_edge { nextDataIn := true, done := f } { done := f } (Slice.byte v 0) rfl) hb r
  refine ⟨w₀ + n, by omega, ?_⟩
  rw [h.hold _ hn]
  induction n with
  | zero =>
    rw [Nat.add_zero, Function.iterate_succ_apply']
    exact hwait
  | succ n ih =>
    rw [show 37 + (n + 1) = 37 + n + 1 by omega, show 35 + (n + 1) = 35 + n + 1 by omega,
      ← Nat.add_assoc, Function.iterate_succ_apply']
    have hw := (ih (by omega)).idle
      (i := Buttons.edge { nextDataIn := true, done := f } (lastPins c f v)) rfl (by omega) rfl
      (by omega)
    rw [allocating, Function.iterate_succ_apply']
    exact hw

theorem iterate_asking (hN : debounceTime ≤ g.N) (h : t.Settled { nextDataIn := true, done := f })
    (hp : t.atm.Typing g c d a v 7 false) (hb : d.bankId = bankBits v) {n : Nat}
    (hn : n < debounceTime) :
    ((clock g (lastPins c f v))^[n] t).atm.Asking a.binarysearchStart := by
  rcases Nat.lt_or_ge n 37 with hlt | hge
  · cases n with
    | zero => exact hp.asking
    | succ n => exact (iterate_entered h hp (n := n) (by omega)).asking
  · obtain ⟨w, -, hw⟩ := iterate_waiting hN h hp hb (fun _ => 0) (n := n - 37) (by omega)
    rw [Nat.add_sub_cancel' hge] at hw
    exact hw.asking

theorem exists_waiting_of_typing (hN : debounceTime ≤ g.N) (h : t.Settled b)
    (hr : b.reset = false) (hn : b.nextDataIn = false) (hp : t.atm.Typing g c d a v 0 false)
    (hb : d.bankId = bankBits v) (r : Nat → BitVec 8) :
    ∃ u n w, Reaches (clock g) (Calm c (Atm.Asking a.binarysearchStart)) t u ∧
      u.Settled { done := f } ∧ 42 ≤ n ∧
      w ≤ 2 * g.N ∧ u.atm.Waiting g c d (allocating d v a n) v r 0 false false w := by
  obtain ⟨u, htu, hu, hpu⟩ := exists_typed_of_typing h hr hn hp
  have hlen : 37 + (debounceTime - 37) = debounceTime := by rw [debounceTime_eq]
  obtain ⟨w, hw, hwait⟩ := iterate_waiting hN hu hpu hb r hlen.le
  rw [hlen] at hwait
  have hlast : Reaches (clock g) (Calm c (Atm.Asking a.binarysearchStart)) u
      ((clock g (lastPins c f v))^[debounceTime] u) :=
    ⟨_, runs_replicate fun n hn => ⟨⟨congrArg _ (hu.edge_iterate hn),
      iterate_asking hN hu hpu hb hn⟩, ⟨rfl, rfl, rfl⟩, rfl⟩, run_replicate ..⟩
  refine ⟨_, _, _, htu.trans hlast, hu.turn (lastPins c f v), ?_, ?_, hwait⟩
  · rw [debounceTime_eq]
    decide
  · omega

theorem exists_waiting (hN : debounceTime ≤ g.N) (h : t.Settled { done := f })
    (hp : t.atm.Parked g c d a) (hb : d.bankId = bankBits v) (r : Nat → BitVec 8) :
    ∃ u n w, Reaches (clock g) (Calm c (Atm.Opening a.binarysearchStart)) t u ∧
      u.Settled { done := f } ∧ 42 ≤ n ∧
      w ≤ 2 * g.N ∧ u.atm.Waiting g c d (allocating d v a n) v r 0 false false w := by
  obtain ⟨u, htu, hu, hpu⟩ := exists_typing h hp v
  obtain ⟨y, n, w, huy, hy⟩ := exists_waiting_of_typing hN hu rfl rfl hpu hb r
  exact ⟨y, n, w, htu.trans (Calm.mono (fun _ => .inr) huy), hy⟩

theorem allocating_of_finished {k n : Nat} (h : (allocating d v a k).systemState = .finished)
    (hn : k ≤ n) : allocating d v a n = allocating d v a k := by
  rw [allocating, show n = n - k + k by omega, Function.iterate_add_apply]
  exact Function.iterate_fixed (NoteAllocator.clock_finished rfl rfl h) _

theorem exists_rejected (h : t.Settled { done := true }) (hp : t.atm.Parked g c d a)
    (hb : d.bankId ≠ bankBits v) :
    ∃ u, Brings g c t u ∧ u.Settled { done := true } ∧
      u.atm.Parked g c d (allocating d v a 37) := by
  obtain ⟨u, htu, hu, hpu⟩ := exists_typed h hp v
  have hi : (Buttons.edge { nextDataIn := true, done := true } (lastPins c true v)).Quiet c :=
    quiet_edge _ _ _ rfl
  have hforty : ∀ s, Atm.Typing g c d a v 7 false s → Atm.Parked g c d (allocating d v a 37)
      ((Atm.clock g (Buttons.edge { nextDataIn := true, done := true } (lastPins c true v)))^[40]
        s) := by
    intro s hs
    obtain ⟨hun, hst, -⟩ := (hs.entered hi rfl rfl (n := 35) le_rfl).encrypted (g := g) hi
    rw [if_neg hb] at hst
    obtain ⟨hun', hst'⟩ := hun.leave hst hi.reset rfl
    exact hun'.parked hst' hi hi rfl rfl rfl rfl
  obtain ⟨w, huw, hw, hpw⟩ := hu.release (c := c) 40 (by omega) { done := true }
    (Slice.byte v 0) hforty (fun s hs => hs.clock (quiet_edge _ _ _ rfl) rfl rfl) hpu
  exact ⟨w, (brings_of_calm htu).trans huw, hw, hpw⟩

theorem Settled.idle {Q : Atm → Prop} (h : t.Settled {}) (hQ : Q t.atm) :
    ∃ u, Reaches (TopLevel.clock g) (Calm c Q) t u ∧ u.Settled {} ∧
      u.atm = t.atm.clock g (Buttons.edge {} (idlePins c {} 0)) := by
  have hi := Settled.iterate (g := g) (p := idlePins c {} 0) h 1
  exact ⟨_, Reaches.single (idlePins c {} 0) ⟨⟨congrArg _ (h.edge (idlePins c {} 0)), hQ⟩,
    ⟨rfl, rfl, rfl⟩, rfl⟩, hi.1, hi.2⟩

theorem Settled.idle_until {P Q : Atm → Prop} (μ : Atm → Nat)
    (hstep : ∀ s, P s → Q (s.clock g (Buttons.edge {} (idlePins c {} 0))) ∨
      P (s.clock g (Buttons.edge {} (idlePins c {} 0))) ∧
        μ (s.clock g (Buttons.edge {} (idlePins c {} 0))) < μ s) (h : t.Settled {}) (hP : P t.atm) :
    ∃ u, Reaches (TopLevel.clock g) (Calm c P) t u ∧ u.Settled {} ∧ Q u.atm := by
  refine exists_reaches_of_measure (P := fun u => u.Settled {} ∧ P u.atm)
    (Q := fun u => u.Settled {} ∧ Q u.atm) (fun u : TopLevel => μ u.atm) (fun t ht => ?_) ⟨h, hP⟩
  obtain ⟨u, htu, hu, hat⟩ := ht.1.idle (g := g) (c := c) ht.2
  have hs := hstep _ ht.2
  rw [← hat] at hs
  exact ⟨u, htu, hs.imp (fun hQ => ⟨hu, hQ⟩) fun hP => ⟨⟨hu, hP.1⟩, hP.2⟩⟩

theorem exists_lost {r : Nat → BitVec 8} {w : Nat} (h : t.Settled {})
    (hp : t.atm.Waiting g c d a v r 0 false false w) (ha : a.systemState = .finished)
    (hw : w < 31 * (g.N + 1)) :
    ∃ u, (∀ b, Reaches (clock g) (Calm c (Atm.Asking b)) t u) ∧ u.Settled {} ∧
      u.atm.Lost g c d a v := by
  have hfin : NoteAllocator.clock ⟨false, true, d.stock, d.limits, Slice.low v⟩ a = a :=
    NoteAllocator.clock_finished rfl rfl ha
  have hstep : ∀ s, (∃ w < 31 * (g.N + 1), Atm.Waiting g c d a v r 0 false false w s) →
      Atm.Lost g c d a v (s.clock g (Buttons.edge {} (idlePins c {} 0))) ∨
        (∃ w < 31 * (g.N + 1), Atm.Waiting g c d a v r 0 false false w
          (s.clock g (Buttons.edge {} (idlePins c {} 0)))) ∧
        31 * (g.N + 1) - (s.clock g (Buttons.edge {} (idlePins c {} 0))).waited g <
          31 * (g.N + 1) - s.waited g := by
    rintro s ⟨w, hw, hs⟩
    rcases Nat.lt_or_eq_of_le (show w + 1 ≤ 31 * (g.N + 1) from hw) with hlt | heq
    · have hidle := hs.idle (i := Buttons.edge {} (idlePins c {} 0)) rfl (by omega) rfl hlt
      rw [hfin] at hidle
      refine .inr ⟨⟨w + 1, hlt, hidle⟩, ?_⟩
      rw [hs.waited, hidle.waited]
      omega
    · have hlost := hs.timeout (i := Buttons.edge {} (idlePins c {} 0)) rfl rfl heq
      rw [hfin] at hlost
      exact .inl hlost
  obtain ⟨u, htu, hu, hl⟩ := h.idle_until (fun s => 31 * (g.N + 1) - s.waited g) hstep ⟨w, hw, hp⟩
  exact ⟨u, fun _ => Calm.mono (fun _ ⟨_, _, hs⟩ => hs.asking) htu, hu, hl⟩

/-! ### The user resets the ATM -/

structure ReadyAgain (g : Generics) (c : BitVec 7) (d : Durable) (s : Atm) : Prop where
  durable : s.durable = d
  state : s.systemState = .ready
  addr : s.prevChanAddr = c
  timeCounter : s.timeCounter ≤ g.N
  startNoteAllocation : s.startNoteAllocation = false
  search : s.noteAllocator.binarysearchStart = false

theorem readyAgain_clock {i : AtmEdge} (s : Atm) (hr : i.debouncedReset = true) :
    ReadyAgain g i.chanAddr s.durable (s.clock g i) := by
  have hm : (s.clock g i).toMain = Atm.tick g i s.reset := by
    simp only [Atm.clock, Atm.mainProcess, hr, if_true]
  have hn : (s.clock g i).noteAllocator.binarysearchStart = false := by
    change (NoteAllocator.clock ⟨i.debouncedReset, _, _, _, _⟩ _).binarysearchStart = false
    simp only [NoteAllocator.clock, hr, if_true]
  constructor
  · rw [hm]; rfl
  · rw [hm]; rfl
  · rw [hm]; rfl
  · rw [hm]; exact Atm.tick_timeCounter_le (Nat.zero_le _)
  · rw [hm]; rfl
  · exact hn

theorem exists_reset {P : Atm → Prop} (h : t.Settled {})
    (hstep : ∀ s, P s → P (s.clock g (Buttons.edge {} (idlePins c { reset := true } 0))))
    (hP : P t.atm) :
    ∃ u s a, Reaches (clock g) (Silent c) t u ∧ u.Settled {} ∧ P s ∧ a.binarysearchStart = false ∧
      u.atm.Parked g c s.durable a := by
  obtain ⟨u, htu, hu, hpu⟩ := h.press (c := c) { reset := true } 0 hstep hP
  obtain ⟨w, huw, hw, hpw⟩ := hu.release (g := g) (c := c) 1 (by omega) (P := fun s => s = u.atm)
    (Q := ReadyAgain g c u.atm.durable) {} 0
    (fun s hs => by
      rw [hs]
      exact readyAgain_clock (i := Buttons.edge { reset := true } (idlePins c {} 0)) u.atm rfl)
    (fun s hs => by
      have hn := readyAgain_clock (g := g)
        (i := Buttons.edge { reset := true } (idlePins c {} 0)) s rfl
      rw [hs.durable] at hn
      exact hn) rfl
  have htwo := hw.iterate (g := g) (p := idlePins c {} 0) 2
  have hparked := Atm.parked_of_ready (g := g) (c := c) (i := Buttons.edge {} (idlePins c {} 0))
    (j := Buttons.edge {} (idlePins c {} 0)) hpw.state hpw.timeCounter hpw.addr
    (quiet_edge _ _ _ rfl) (quiet_edge _ _ _ rfl) rfl rfl rfl rfl
  rw [NoteAllocator.clock_eq_stopped rfl hpw.startNoteAllocation, hpw.durable] at hparked
  have hfinal : ((clock g (idlePins c {} 0))^[2] w).atm.Parked g c u.atm.durable
      w.atm.noteAllocator.stopped := by
    rw [htwo.2]
    exact hparked
  have hsearch : w.atm.noteAllocator.stopped.binarysearchStart = false := hpw.search
  exact ⟨_, u.atm, _, ((silent_of_alone htu).trans (silent_of_alone huw)).trans
    (silent_of_alone (brings_iterate g c {} 0 2 w)), htwo.1, hpu, hsearch, hfinal⟩

/-! ### The transaction ends -/

theorem exists_over_of_loading {x : BitVec 64} (h : t.Settled {})
    (hp : t.atm.Loading g c d a v x) (ha : a.systemState = .finished) :
    ∃ u, Reaches (clock g) (Calm c fun s => s.startNoteAllocation = true ∧
        s.systemState = .loadingCash) t u ∧ u.Settled {} ∧
      u.atm.Over g c { d with stock := noteBytes (decipher x) } a v := by
  obtain ⟨t₁, h₁, hs₁, hat₁⟩ := h.idle (g := g) (c := c)
    (Q := fun s => s.startNoteAllocation = true ∧ s.systemState = .loadingCash)
    ⟨hp.startNoteAllocation, hp.state⟩
  have ho := hp.clock (i := Buttons.edge {} (idlePins c {} 0)) ha rfl
  rw [← hat₁] at ho
  rcases ho with ho | ⟨ho, -⟩
  · exact ⟨t₁, h₁, hs₁, ho⟩
  · obtain ⟨u, htu, hu, ho⟩ := hs₁.idle_until (g := g) (c := c)
      (P := Atm.Loading g c { d with stock := noteBytes (decipher x) } a v x)
      (Q := Atm.Over g c { d with stock := noteBytes (decipher x) } a v) (fun s => s.cyclesLeft g)
      (fun s hs => hs.clock (i := Buttons.edge {} (idlePins c {} 0)) ha rfl) ho
    exact ⟨u, h₁.trans (Calm.mono (fun _ hs => ⟨hs.startNoteAllocation, hs.state⟩) htu), hu, ho⟩

theorem exists_over_of_dispensed (h : t.Settled {}) (hp : t.atm.Dispensed g c d a v)
    (ha : a.systemState = .finished) :
    ∃ u, Reaches (clock g) (Calm c (Atm.Dispensing t.atm.adequateCashInAccount
        t.atm.adequateCashInAtm)) t u ∧ u.Settled {} ∧ u.atm.Over g c d a v := by
  obtain ⟨u, htu, hu, ho⟩ := h.idle_until (g := g) (c := c)
    (P := fun s => s.Dispensed g c d a v ∧ s.adequateCashInAccount = t.atm.adequateCashInAccount)
    (Q := Atm.Over g c d a v) (fun s => s.cyclesLeft g)
    (fun s ⟨hs, hacc⟩ => (hs.clock (i := Buttons.edge {} (idlePins c {} 0)) ha rfl).imp_right
      fun hn => ⟨⟨hn.1, (Atm.account_clock rfl hs.state).trans hacc⟩, hn.2⟩) ⟨hp, rfl⟩
  refine ⟨u, Calm.mono (fun s ⟨hs, hacc⟩ => ⟨hs.startNoteAllocation, hs.state, hacc, ?_⟩) htu, hu, ho⟩
  rw [Atm.adequateCashInAtm, Atm.adequateCashInAtm, hs.allocator, hp.allocator]

theorem exists_over (h : t.Settled {}) (hp : t.atm.Pending g c d a v)
    (hs : t.atm.systemState = .dispensingCash) (ha : a.systemState = .finished) :
    ∃ u, Reaches (clock g) (Calm c (Atm.Dispensing t.atm.adequateCashInAccount
        t.atm.adequateCashInAtm)) t u ∧ u.Settled {} ∧ u.atm.Over g c t.atm.outcome a v := by
  obtain ⟨t₁, h₁, hs₁, hat₁⟩ := h.idle (g := g) (c := c)
    (Q := Atm.Dispensing t.atm.adequateCashInAccount t.atm.adequateCashInAtm)
    ⟨hp.startNoteAllocation, hs, rfl, rfl⟩
  have hacc := Atm.account_clock (g := g) (i := Buttons.edge {} (idlePins c {} 0)) rfl hs
  have hn := hp.dispense (i := Buttons.edge {} (idlePins c {} 0)) hs ha rfl
  rw [← hat₁] at hn hacc
  rcases hn with ho | hd
  · exact ⟨t₁, h₁, hs₁, ho⟩
  · obtain ⟨u, htu, hu⟩ := exists_over_of_dispensed hs₁ hd ha
    have hatm : t₁.atm.adequateCashInAtm = t.atm.adequateCashInAtm := by
      rw [Atm.adequateCashInAtm, Atm.adequateCashInAtm, hd.allocator, hp.allocator]
    rw [hacc, hatm] at htu
    exact ⟨u, h₁.trans htu, hu⟩

theorem exists_over_of_decrypting {x : BitVec 64} {acc : Bool} (h : t.Settled {})
    (hp : t.atm.Decrypting g c d a v x acc false 0) (ha : a.systemState = .finished) :
    ∃ u s, Reaches (clock g) (Calm c fun s => s.systemState = .decrypt ∨
        s.systemState = .dispensingCash) t u ∧ u.Settled {} ∧ Atm.Pending g c d a v s ∧
      u.atm.Over g c s.outcome a v := by
  have hdeciphers : ∀ n < 34, ∀ t : TopLevel,
      t.Settled {} ∧ t.atm.Decrypting g c d a v x acc false n →
      ∃ u, Reaches (clock g) (Calm c fun s => s.systemState = .decrypt) t u ∧
        u.Settled {} ∧ u.atm.Decrypting g c d a v x acc false (n + 1) := by
    intro n hn t ⟨ht, hd⟩
    obtain ⟨u, htu, hu, hat⟩ := ht.idle (g := g) (c := c) (Q := fun s => s.systemState = .decrypt)
      hd.state
    have hc := hd.clock (i := Buttons.edge {} (idlePins c {} 0)) hn rfl
    rw [NoteAllocator.clock_finished rfl rfl ha] at hc
    exact ⟨u, htu, hu, by rw [hat]; exact hc⟩
  obtain ⟨t₁, h₁, hs₁, hp₁⟩ := exists_reaches 34 hdeciphers ⟨h, hp⟩
  obtain ⟨t₂, h₂, hs₂, hat₂⟩ := hs₁.idle (g := g) (c := c)
    (Q := fun s => s.systemState = .decrypt) hp₁.state
  have hp₂ := hp₁.settling (i := Buttons.edge {} (idlePins c {} 0)) rfl
  rw [NoteAllocator.clock_finished rfl rfl ha, ← hat₂] at hp₂
  obtain ⟨t₃, h₃, hs₃, ho⟩ := exists_over hs₂ hp₂.toPending hp₂.state ha
  exact ⟨t₃, _, (Calm.mono (fun _ => .inl) (h₁.trans h₂)).trans
    (Calm.mono (fun _ hs => .inr hs.2.1) h₃), hs₃, hp₂.toPending, ho⟩

theorem exists_parked (h : t.Settled {}) (hp : t.atm.Over g c d a v)
    (ha : a.systemState = .finished) :
    ∃ u, Reaches (clock g) (Calm c (Atm.Closing a.binarysearchStart)) t u ∧ u.Settled {} ∧
      u.atm.Parked g c d a := by
  obtain ⟨u, htu, hu, hpu⟩ := h.turnTo (g := g) (c := c) (P := fun _ => Atm.Over g c d a v)
    (Q := Atm.Closing a.binarysearchStart) rfl { done := true } rfl 0
    (fun _ _ s hs => hs.wait (i := Buttons.edge {} (idlePins c { done := true } 0)) ha rfl rfl)
    (fun _ _ s hs => hs.closing) hp
  have hi : (Buttons.edge { done := true } (idlePins c {} 0)).Quiet c := quiet_edge _ {} 0 rfl
  obtain ⟨w, huw, hw, hpw⟩ := hu.turnTo (g := g) (c := c)
    (P := fun n s => n = 0 ∧ s.Over g c d a v ∨
      n = 1 ∧ s.Underway g c d a v ∧ s.systemState = .ready ∨
      n = 2 ∧ (s.noteAllocator = a ∧ s.systemState = .ready) ∧ (s.clock g _).Parked g c d a ∨
      s.Parked g c d a)
    (Q := Atm.Closing a.binarysearchStart) rfl {} rfl 0
    (fun n _ s hs => by
      rcases hs with ⟨rfl, hs⟩ | ⟨rfl, hs, hst⟩ | ⟨rfl, -, hs⟩ | hs
      · exact .inr (.inl ⟨rfl, hs.confirm (i := Buttons.edge { done := true } (idlePins c {} 0)) ha
          rfl rfl⟩)
      · have hparked := hs.parked hst hi hi rfl rfl rfl rfl
        rw [NoteAllocator.clock_finished rfl rfl ha] at hparked
        have hstay := congrArg Main.systemState (Atm.clock_ready (g := g) hst hi hs.addr rfl)
        have halloc := hs.allocator_clock (g := g) hi.reset
        rw [NoteAllocator.clock_finished rfl rfl ha] at halloc
        exact .inr (.inr (.inl ⟨rfl, ⟨halloc, hstay⟩, hparked⟩))
      · exact .inr (.inr (.inr hs))
      · exact .inr (.inr (.inr (hs.clock hi rfl rfl))))
    (fun n _ s hs => by
      rcases hs with ⟨-, hs⟩ | ⟨-, hs, hst⟩ | ⟨-, ⟨ha, hst⟩, -⟩ | hs
      · exact hs.closing
      · exact ⟨hs.holding, .inr hst⟩
      · exact ⟨.inr (by rw [ha]), .inr hst⟩
      · exact hs.closing) (.inl ⟨rfl, hpu⟩)
  refine ⟨w, htu.trans huw, hw, ?_⟩
  rcases hpw with ⟨h0, -⟩ | ⟨h0, -⟩ | ⟨h0, -⟩ | hpw
  · rw [debounceTime_eq] at h0
    omega
  · rw [debounceTime_eq] at h0
    omega
  · rw [debounceTime_eq] at h0
    omega
  · exact hpw

theorem exists_served (hN : debounceTime ≤ g.N) (h : t.Settled {}) (hp : t.atm.Parked g c d a)
    (ha : a.binarysearchStart = false) (hb : d.bankId = bankBits v)
    (hc : Slice.high v = Slice.high d.cache.cache1) :
    ∃ u n, Brings g c t u ∧ u.Settled {} ∧ 42 ≤ n ∧
      u.atm.Pending g c { d with cacheMode := true } (allocating d v a n) v ∧
      u.atm.systemState = .dispensingCash ∧
      u.atm.adequateCashInAccount = decide (Slice.low v ≤ Slice.low d.cache.cache1) := by
  obtain ⟨t₁, n, w, h₁, hs₁, hn, hw, hp₁⟩ := exists_waiting hN h hp hb fun _ => 0
  have hfin := (allocating_finished (d := d) (v := v) ha hn).state
  obtain ⟨t₂, h₂, hs₂, hp₂⟩ := exists_lost hs₁ hp₁ hfin (by omega)
  have hcache : t₂.atm.cache = d.cache := congrArg Durable.cache hp₂.durable
  have hhit : t₂.atm.communicationLost = t₂.atm.serveFromCache t₂.atm.cache.cache1 := by
    rw [Atm.communicationLost, if_pos (by rw [hp₂.enInput, hcache, hc])]
  obtain ⟨hp₃, hdis, hacc⟩ := hp₂.serve (i := Buttons.edge {} (idlePins c {} 0)) rfl hhit
  rw [NoteAllocator.clock_finished rfl rfl hfin] at hp₃
  have hs₃ := hs₂.iterate (g := g) (p := idlePins c {} 0) 1
  refine ⟨_, n, ((brings_of_calm h₁).trans (brings_of_calm (h₂ false))).trans
    (brings_iterate g c {} 0 1 t₂), hs₃.1, hn, ?_, ?_, ?_⟩
  · rw [hs₃.2]; exact hp₃
  · rw [hs₃.2]; exact hdis
  · rw [hs₃.2, ← hcache]; exact hacc

end TopLevel

end AtmController.Frontend
