import AtmController.Lib.Clocked
import AtmController.Frontend.Debouncer
import AtmController.Frontend.MainProcess

namespace AtmController.Frontend

open Clocked

structure Pins where
  loadBankId : Bool
  nextDataIn : Bool
  reset : Bool
  start : Bool
  done : Bool
  swIn : BitVec 8
  chanAddr : BitVec 7
  h2fValid : Bool
  h2fData : BitVec 8

structure TopLevel where
  atm : Atm := Atm.powerUp
  loadBankIdDebouncer : Debouncer := {}
  dataInDebouncer : Debouncer := {}
  startDebouncer : Debouncer := {}
  doneDebouncer : Debouncer := {}
  resetDebouncer : Debouncer := {}

namespace TopLevel

def powerUp : TopLevel := {}

/-- The edge the ATM sees: the debounced buttons as they were before it. -/
def edge (p : Pins) (t : TopLevel) : AtmEdge where
  debouncedLoadBankId := t.loadBankIdDebouncer.buttonDeb
  debouncedNextData := t.dataInDebouncer.buttonDeb
  debouncedReset := t.resetDebouncer.buttonDeb
  debouncedStart := t.startDebouncer.buttonDeb
  debouncedDone := t.doneDebouncer.buttonDeb
  swIn := p.swIn
  chanAddr := p.chanAddr
  h2fValid := p.h2fValid
  h2fData := p.h2fData

def clock (g : Generics) (p : Pins) (t : TopLevel) : TopLevel where
  atm := t.atm.clock g (t.edge p)
  loadBankIdDebouncer := t.loadBankIdDebouncer.clock p.loadBankId
  dataInDebouncer := t.dataInDebouncer.clock p.nextDataIn
  startDebouncer := t.startDebouncer.clock p.start
  doneDebouncer := t.doneDebouncer.clock p.done
  resetDebouncer := t.resetDebouncer.clock p.reset

def f2hData (p : Pins) (t : TopLevel) : BitVec 8 := t.atm.f2hData (t.edge p)

abbrev NoReset (p : Pins) (t : TopLevel) : Prop := (t.edge p).debouncedReset = false

abbrev after (g : Generics) (ps : List Pins) : TopLevel := run (clock g) powerUp ps

theorem after_concat (g : Generics) (ps : List Pins) (p : Pins) :
    after g (ps ++ [p]) = clock g p (after g ps) := run_concat ps p

theorem after_append (g : Generics) (ps qs : List Pins) :
    after g (ps ++ qs) = run (clock g) (after g ps) qs := run_append ps qs

theorem atm_invariant {g : Generics} {P : Atm → Prop} (hstep : ∀ i s, P s → P (s.clock g i))
    (h : P Atm.powerUp) (ps : List Pins) : P (after g ps).atm :=
  run_invariant (P := fun t : TopLevel => P t.atm) (fun p t => hstep (t.edge p) t.atm) h ps

end TopLevel

end AtmController.Frontend
