import AtmController.System.ShownRecord

namespace AtmController.System

open Clocked Slice Frontend

/-- The switches at the first cycle of each phase in which the key is down; `down` is the level
before. -/
def presses : Bool → List AtmEdge → List (BitVec 8)
  | _, [] => []
  | down, i :: is =>
    if i.debouncedNextData && !down then i.swIn :: presses i.debouncedNextData is
    else presses i.debouncedNextData is

def level : Bool → List AtmEdge → Bool
  | down, [] => down
  | _, i :: is => level i.debouncedNextData is

theorem presses_append (down : Bool) (is js : List AtmEdge) :
    presses down (is ++ js) = presses down is ++ presses (level down is) js := by
  induction is generalizing down with
  | nil => rfl
  | cons i is ih =>
    simp only [List.cons_append, presses, level, ih]
    split
    · rfl
    · rfl

theorem length_typedBytes (v : BitVec 64) (k : Nat) : (typedBytes v k).length = k := by
  rw [typedBytes, List.length_map, List.length_range]

section Atm

open Frontend.Atm Frontend.Main

variable {g : Generics} {i : AtmEdge} {s : Frontend.Atm} {bytes : List (BitVec 8)} {down : Bool}

theorem next_of_takingInput (hs : s.systemState = .takingInput) (hr : i.debouncedReset = false) :
    Keys.next i s ⟨bytes, down⟩ = ⟨bytes ++ presses down [i], i.debouncedNextData⟩ := by
  cases hn : i.debouncedNextData <;> cases down <;> simp [Keys.next, presses, hs, hr, hn]

theorem typing_clock (hs : s.systemState = .takingInput) (hr : i.debouncedReset = false)
    (h : KeysInv s.toMain ⟨bytes, down⟩) :
    KeysInv (s.clock g i).toMain ⟨bytes ++ presses down [i], i.debouncedNextData⟩ ∧
      ((bytes ++ presses down [i]).length < 8 ∧ (s.clock g i).systemState = .takingInput ∨
        (s.clock g i).systemState = .noteAllocation ∧
          typedBytes (s.clock g i).enInput 8 = bytes ++ presses down [i] ∧
          (s.clock g i).amountToBeAllocated = low (s.clock g i).enInput) := by
  have hkeys := keysInv_clock (g := g) (i := i) h
  rw [next_of_takingInput hs hr] at hkeys
  refine ⟨hkeys, ?_⟩
  have he := clock_cases g i s
  generalize (s.clock g i).toMain = m at he hkeys
  have hst : m.systemState = .takingInput ∨
      m.systemState = .noteAllocation ∧ m.amountToBeAllocated = low m.enInput := by
    cases he with
    | reset hr' => exact absurd hr' (by simp [hr])
    | reconnect _ hc => exact absurd (hc.2.2.2.symm.trans hs) (by decide)
    | branch m _ _ hb =>
      cases hb with
      | key => exact .inl hs
      | lastKey => exact .inr ⟨rfl, rfl⟩
      | noKey => exact .inl hs
      | _ => simp_all
  rcases hst with hst | ⟨hst, ha⟩
  · simp only [KeysInv, hst] at hkeys
    exact .inl ⟨by rw [hkeys.2.1, length_typedBytes]; exact hkeys.1, hst⟩
  · simp only [KeysInv, hst] at hkeys
    exact .inr ⟨hst, hkeys.symm, ha⟩

theorem typing_run (hs : s.systemState = .takingInput) (h : KeysInv s.toMain ⟨bytes, down⟩)
    {is : List AtmEdge} (hr : ∀ j ∈ is, j.debouncedReset = false)
    (hl : (bytes ++ presses down is).length < 8) :
    (run (Atm.clock g) s is).systemState = .takingInput ∧
      KeysInv (run (Atm.clock g) s is).toMain ⟨bytes ++ presses down is, level down is⟩ := by
  induction is generalizing s bytes down with
  | nil => exact ⟨hs, by simpa [presses, level] using h⟩
  | cons i is ih =>
    have hcons : presses down (i :: is) = presses down [i] ++ presses i.debouncedNextData is :=
      presses_append down [i] is
    rw [hcons, ← List.append_assoc] at hl ⊢
    obtain ⟨hk, ⟨-, hst⟩ | ⟨-, h8, -⟩⟩ := typing_clock (g := g) hs (hr i (List.mem_cons_self ..)) h
    · exact ih hst hk (fun j hj => hr j (List.mem_cons_of_mem _ hj)) hl
    · rw [List.length_append, ← h8, length_typedBytes] at hl
      omega

theorem keysInv_of_entry (hn : s.systemState ≠ .takingInput)
    (hs : (s.clock g i).systemState = .takingInput) : KeysInv (s.clock g i).toMain {} := by
  have hmem := mem_successors g i s
  have hr := reset_of_not_ready (g := g) (i := i) (s := s) (by rw [hs]; decide)
  rw [hs] at hmem
  have hready : s.systemState = .ready := by
    cases hst : s.systemState <;> simp_all [SystemState.successors]
  have h := keysInv_clock (g := g) (i := i) (s := s) (w := {}) (by simp [KeysInv, hready])
  rwa [Keys.next, if_neg (by simp [hr]), hready] at h

/-- From its entry on, the ATM stays in Taking Input until the eighth press, and goes on with the
bytes of the eight presses, the first one on top. -/
theorem keypad_assembly (g : Generics) (hn : s.systemState ≠ .takingInput)
    (hs : (s.clock g i).systemState = .takingInput) (is : List AtmEdge)
    (hr : ∀ j ∈ is, j.debouncedReset = false) (hl : (presses false is).length < 8) :
    let u := run (Atm.clock g) (s.clock g i) is
    u.systemState = .takingInput ∧
      ∀ j, j.debouncedReset = false → (presses false (is ++ [j])).length = 8 →
        (u.clock g j).systemState = .noteAllocation ∧
          typedBytes (u.clock g j).enInput 8 = presses false (is ++ [j]) ∧
          (u.clock g j).amountToBeAllocated = low (u.clock g j).enInput := by
  intro u
  obtain ⟨hst, hk⟩ := typing_run hs (keysInv_of_entry hn hs) hr hl
  refine ⟨hst, fun j hj h8 => ?_⟩
  rw [presses_append] at h8 ⊢
  obtain ⟨-, ⟨hlt, -⟩ | h⟩ := typing_clock (g := g) hst hj hk
  · rw [List.nil_append, h8] at hlt
    omega
  · exact h

def tap (b : BitVec 8) : List AtmEdge :=
  [⟨false, true, false, false, false, b, 0, false, 0⟩,
    ⟨false, false, false, false, false, 0, 0, false, 0⟩]

theorem keypad_assembly_of_taps :
    let s : Frontend.Atm := { Frontend.Atm.powerUp with systemState := .ready }
    let u := run (Atm.clock {}) (s.clock {} ⟨false, false, false, true, false, 0, 0, false, 0⟩)
      ([1, 2, 3, 4, 5, 6, 7].flatMap tap)
    typedBytes (u.clock {} ⟨false, true, false, false, false, 8, 0, false, 0⟩).enInput 8 =
      [1, 2, 3, 4, 5, 6, 7, 8] :=
  ((keypad_assembly {} (s := { Frontend.Atm.powerUp with systemState := .ready })
    (i := ⟨false, false, false, true, false, 0, 0, false, 0⟩) (by decide) rfl
    ([1, 2, 3, 4, 5, 6, 7].flatMap tap) (by decide) (by decide)).2
      ⟨false, true, false, false, false, 8, 0, false, 0⟩ rfl (by decide)).2.1

end Atm

end AtmController.System
