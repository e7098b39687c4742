import Mathlib.Data.BitVec

namespace AtmController.Frontend

def waitCycles : BitVec 20 := 0xF423F

structure Debouncer where
  oldbutton : Bool := true
  count : BitVec 20 := 0
  buttonDeb : Bool := false

namespace Debouncer

def clock (button : Bool) (d : Debouncer) : Debouncer :=
  if d.oldbutton ≠ button then { d with count := 0, oldbutton := button }
  else
    let count := d.count + 1
    if count = waitCycles then { d with count, buttonDeb := d.oldbutton }
    else { d with count }

def clockWith (waitCycles : BitVec 20) (button : Bool) (d : Debouncer) : Debouncer :=
  if d.oldbutton ≠ button then { d with count := 0, oldbutton := button }
  else
    let count := d.count + 1
    if count = waitCycles ∧ d.oldbutton = button then { d with count, buttonDeb := d.oldbutton }
    else { d with count }

theorem clock_eq_clockWith : clock = clockWith waitCycles := by
  funext button d
  by_cases hb : d.oldbutton = button
  · simp [clock, clockWith, hb]
  · simp [clock, clockWith, hb]

end Debouncer

end AtmController.Frontend
