import AtmController.Frontend.Invariants

namespace AtmController.Frontend

open Clocked Slice

/-- The stock of a transaction is settled; `o` is the decrypter's output. -/
def Main.StockSettled (m : Main) (o : BitVec 64) : Prop :=
  match m.systemState with
  | .loadingCash => m.stock = noteBytes o
  | .dispensingCash => m.dispensingDoneAlready = true
  | .dummy | .ready => True
  | _ => False

namespace Atm

open Main Cipher

variable {g : Generics} {i : AtmEdge} {s : Atm}

structure Dispenses (i : AtmEdge) (s : Atm) : Prop where
  noReset : i.debouncedReset = false
  state : s.systemState = .dispensingCash
  fresh : s.dispensingDoneAlready = false
  account : s.adequateCashInAccount = true
  atm : s.adequateCashInAtm = true

theorem dispenses_stock (hd : s.Dispenses i) : (s.clock g i).stock = s.removeNotes := by
  have he := clock_cases g i s
  change (s.clock g i).toMain.stock = _
  generalize (s.clock g i).toMain = m at he
  cases he with
  | reset hr => exact absurd hr (by simp [hd.noReset])
  | reconnect hr hc => exact absurd hc.2.2.2 (by simp [hd.state])
  | branch m hr hc hb =>
    cases hb with
    | dispense l n k b q => rfl
    | refuse l n k q h hq hf ha => exact absurd ⟨hd.account, hd.atm⟩ ha
    | dispensed l n k b j q h hq hf => exact absurd hf (by simp [hd.fresh])
    | _ => simp_all [hd.state]

theorem stock_cases (g : Generics) (i : AtmEdge) (s : Atm) :
    (s.clock g i).stock = s.stock ∨
      (s.systemState = .loadingCash ∧ i.debouncedReset = false ∧
        (s.clock g i).stock = noteBytes s.deOutput) ∨
      s.Dispenses i := by
  have he := clock_cases g i s
  generalize (s.clock g i).toMain = m at he
  cases he with
  | reset hr => exact .inl rfl
  | reconnect hr hc => exact .inl rfl
  | branch m hr hc hb =>
    cases hb with
    | loadingCash l n q h => exact .inr (.inl ⟨h, hr, rfl⟩)
    | dispense l n k b q h hq hf hu ha => exact .inr (.inr ⟨hr, h, hf, hu, ha⟩)
    | _ => exact .inl rfl

def TouchesStock (g : Generics) (i : AtmEdge) (s : Atm) : Prop :=
  (s.clock g i).stock ≠ s.stock ∨ s.Dispenses i

theorem deOutput_clock_of_loadingCash (hi : s.DecrypterInv s.decrypter)
    (h : s.systemState = .loadingCash) (hr : i.debouncedReset = false) :
    (s.clock g i).deOutput = s.deOutput := by
  simp only [Main.DecrypterInv, h] at hi
  have hf : Finished 0xC6EF3720 decryptCycle s.deInput (s.clock g i).decrypter :=
    hi.2.clock hr hi.1
  exact hf.output.trans hi.2.output.symm

theorem TouchesStock.settled (hi : s.DecrypterInv s.decrypter) (ht : s.TouchesStock g i) :
    (s.clock g i).StockSettled (s.clock g i).deOutput := by
  have hcase : (s.systemState = .loadingCash ∧ i.debouncedReset = false) ∨ s.Dispenses i := by
    rcases ht with hne | hd
    · rcases stock_cases g i s with h | h | h
      · exact absurd h hne
      · exact .inl ⟨h.1, h.2.1⟩
      · exact .inr h
    · exact .inr hd
  rcases hcase with ⟨hl, hr⟩ | hd
  · rw [deOutput_clock_of_loadingCash hi hl hr]
    have he := clock_cases g i s
    generalize (s.clock g i).toMain = m at he
    cases he with
    | reset hr => trivial
    | reconnect hr hc => exact absurd hc.2.2.2 (by simp [hl])
    | branch m hr hc hb =>
      cases hb with
      | loadingCash l n q h hq => rcases hq with rfl | rfl <;> first | exact rfl | trivial
      | _ => simp_all
  · have he := clock_cases g i s
    generalize (s.clock g i).toMain = m at he
    cases he with
    | reset hr => trivial
    | reconnect hr hc => exact absurd hc.2.2.2 (by simp [hd.state])
    | branch m hr hc hb =>
      cases hb with
      | dispense l n k b q h hq => rcases hq with rfl | rfl <;> first | exact rfl | trivial
      | refuse l n k q h hq hf ha => exact absurd ⟨hd.account, hd.atm⟩ ha
      | dispensed l n k b j q h hq hf => exact absurd hf (by simp [hd.fresh])
      | _ => simp_all [hd.state]

theorem stockSettled_clock (hi : s.DecrypterInv s.decrypter) (hs : s.StockSettled s.deOutput)
    (hne : s.systemState ≠ .ready) :
    ¬ s.TouchesStock g i ∧ (s.clock g i).StockSettled (s.clock g i).deOutput := by
  constructor
  · rintro (hch | hd)
    · rcases stock_cases g i s with h | ⟨h, -, h'⟩ | h
      · exact hch h
      · simp only [Main.StockSettled, h] at hs
        exact hch (h'.trans hs.symm)
      · simp only [Main.StockSettled, h.state, h.fresh] at hs
        exact Bool.noConfusion hs
    · simp only [Main.StockSettled, hd.state, hd.fresh] at hs
      exact Bool.noConfusion hs
  · have hde := deOutput_clock_of_loadingCash (g := g) (i := i) hi
    have he := clock_cases g i s
    generalize (s.clock g i).deOutput = o at hde ⊢
    generalize (s.clock g i).toMain = m at he
    cases he with
    | reset hr => trivial
    | reconnect hr hc => exact absurd hc.2.2.2 hne
    | branch m hr hc hb =>
      change m.StockSettled o
      cases hb with
      | ready b l h => exact absurd h hne
      | loadingCash l n q h hq =>
        rcases hq with rfl | rfl
        · exact congrArg noteBytes (hde h hr).symm
        · trivial
      | dispense l n k b q h hq => rcases hq with rfl | rfl <;> first | exact rfl | trivial
      | refuse l n k q h hq => rcases hq with rfl | rfl <;> first | exact rfl | trivial
      | dispensed l n k b j q h hq hf => rcases hq with rfl | rfl <;> first | exact hf | trivial
      | dummy h =>
        simp only [Main.StockSettled]
        split_ifs <;> trivial
      | _ => simp_all [Main.StockSettled]

end Atm

theorem Atm.Dispenses.worth {i : AtmEdge} {s : Atm} (hd : s.Dispenses i)
    (hi : s.AllocatorInv s.noteAllocator) :
    (∀ d, (s.allocated.get d).toNat ≤ (s.stock.get d).toNat) ∧
      s.allocated.worth = (low s.enInput).toNat := by
  simp only [Main.AllocatorInv, hd.state] at hi
  obtain ⟨-, ha, hw⟩ := hi
  obtain ⟨hworth, hle⟩ := (hw hd.fresh).worth hd.atm
  refine ⟨hle, ?_⟩
  rw [← ha]
  exact hworth

theorem Notes.toNat_sub {a b : Notes} {d : Denomination}
    (h : (b.get d).toNat ≤ (a.get d).toNat) :
    ((a.get d) - (b.get d)).toNat = (a.get d).toNat - (b.get d).toNat :=
  BitVec.toNat_sub_of_le h

namespace TopLevel

variable {g : Generics}

def TouchesStock (g : Generics) (ps : List Pins) (p : Pins) : Prop :=
  (after g ps).atm.TouchesStock g ((after g ps).edge p)

def Dispenses (g : Generics) (ps : List Pins) (p : Pins) : Prop :=
  (after g ps).atm.Dispenses ((after g ps).edge p)

theorem stockSettled_append (ps : List Pins) (p : Pins) (ht : TouchesStock g ps p)
    (mid : List Pins)
    (hne : ∀ k < mid.length,
      (after g (ps ++ p :: mid.take k)).atm.systemState ≠ .ready) :
    (after g (ps ++ p :: mid)).atm.StockSettled (after g (ps ++ p :: mid)).atm.deOutput := by
  induction mid using List.reverseRecOn with
  | nil =>
    rw [after_concat]
    exact Atm.TouchesStock.settled (decrypterInv ps) ht
  | append_singleton mid q ih =>
    have hset := ih fun k hk => by
      have := hne k (by simp; omega)
      rwa [List.take_append_of_le_length hk.le] at this
    have hlast := hne mid.length (by simp)
    rw [List.take_left'  rfl] at hlast
    rw [← List.cons_append, ← List.append_assoc, after_concat]
    exact (Atm.stockSettled_clock (decrypterInv _) hset hlast).2

/-- In every run from power-up the stock changes only while cash is loaded or at the edge that
dispenses it, at most once between two visits to Ready; and a dispensing edge takes notes that
are there and are worth the amount of the transaction. -/
theorem stock_safety (g : Generics) (ps : List Pins) (p : Pins) :
    ((after g (ps ++ [p])).atm.stock ≠ (after g ps).atm.stock →
      (after g ps).atm.systemState = .loadingCash ∨ Dispenses g ps p) ∧
    (TouchesStock g ps p → ∀ mid q, TouchesStock g (ps ++ p :: mid) q →
      ∃ k ≤ mid.length, (after g (ps ++ p :: mid.take k)).atm.systemState = .ready) ∧
    (Dispenses g ps p →
      (∀ d, ((after g ps).atm.allocated.get d).toNat ≤ ((after g ps).atm.stock.get d).toNat ∧
        ((after g (ps ++ [p])).atm.stock.get d).toNat =
          ((after g ps).atm.stock.get d).toNat - ((after g ps).atm.allocated.get d).toNat) ∧
      (after g ps).atm.allocated.worth = (low (after g ps).atm.enInput).toNat) := by
  refine ⟨fun hne => ?_, fun ht mid q hq => ?_, fun hd => ?_⟩
  · rw [after_concat] at hne
    rcases Atm.stock_cases g ((after g ps).edge p) (after g ps).atm with h | h | h
    · exact absurd h hne
    · exact .inl h.1
    · exact .inr h
  · by_contra hno
    push Not at hno
    have hset := stockSettled_append ps p ht mid fun k hk => hno k hk.le
    have hne := hno mid.length le_rfl
    rw [List.take_length] at hne
    exact (Atm.stockSettled_clock (decrypterInv _) hset hne).1 hq
  · obtain ⟨hle, hw⟩ := Atm.Dispenses.worth hd (allocatorInv ps)
    have hst : (after g (ps ++ [p])).atm.stock = (after g ps).atm.removeNotes := by
      rw [after_concat]
      exact Atm.dispenses_stock hd
    refine ⟨fun d => ⟨hle d, ?_⟩, hw⟩
    have hsub := Notes.toNat_sub (hle d)
    rw [hst]
    cases d <;> exact hsub

end TopLevel

end AtmController.Frontend
