import AtmController.Frontend.Allocation
import AtmController.Frontend.Steps
import AtmController.Frontend.TopLevel

namespace AtmController.Frontend

open Slice

namespace Main

abbrev Enciphering (m : Main) (e : Cipher) : Prop :=
  Cipher.Working 0 encryptCycle m.enInput m.startEncrypt e

abbrev Enciphered (m : Main) (e : Cipher) : Prop :=
  m.startEncrypt = true ∧ Cipher.Finished 0 encryptCycle m.enInput e

abbrev Deciphering (m : Main) (d : Cipher) : Prop :=
  Cipher.Working 0xC6EF3720 decryptCycle m.deInput m.startDecrypt d

abbrev Deciphered (m : Main) (d : Cipher) : Prop :=
  m.startDecrypt = true ∧ Cipher.Finished 0xC6EF3720 decryptCycle m.deInput d

/-- What the allocator samples, but for a reset. -/
def allocatorEdge (m : Main) : AllocatorEdge :=
  ⟨false, m.startNoteAllocation, m.stock, m.limits, m.amountToBeAllocated⟩

def EncrypterInv (m : Main) (e : Cipher) : Prop :=
  match m.systemState with
  | .takingInput => m.startEncrypt = false ∧ (m.inputByteCount = 0 ∨ e.Idle)
  | .noteAllocation => m.startEncrypt = false ∧ e.Idle
  | .encrypt => m.Enciphering e
  | .communicating => m.Enciphered e
  | _ => True

def DecrypterInv (m : Main) (d : Cipher) : Prop :=
  match m.systemState with
  | .setup => m.startDecrypt = false ∧ d.Idle
  | .takingInput => m.startDecrypt = false ∧ (m.inputByteCount = 0 ∨ d.Idle)
  | .noteAllocation | .encrypt | .communicating | .communicationLost =>
    m.startDecrypt = false ∧ d.Idle
  | .decryptSetup | .decrypt => m.Deciphering d
  | .loadingCash => m.Deciphered d
  | .dispensingCash => m.Deciphered d ∨ m.cacheMode = true
  | .communicationRegained => m.startEncrypt = true → m.startDecrypt = false
  | .communicateCache => m.startEncrypt = false ∧ m.startDecrypt = false
  | .updateCache => m.startEncrypt = false ∧ m.Deciphering d
  | _ => True

def AllocatorInv (m : Main) (a : NoteAllocator) : Prop :=
  match m.systemState with
  | .takingInput => m.startNoteAllocation = false ∧ (m.inputByteCount = 0 ∨ a.Idle)
  | .noteAllocation =>
    m.startNoteAllocation = false ∧ a.Idle ∧ m.amountToBeAllocated = low m.enInput
  | .encrypt | .communicating | .decrypt | .communicationLost =>
    m.startNoteAllocation = true ∧ m.amountToBeAllocated = low m.enInput ∧
      NoteAllocator.Allocating m.allocatorEdge a
  | .dispensingCash =>
    m.startNoteAllocation = true ∧ m.amountToBeAllocated = low m.enInput ∧
      (m.dispensingDoneAlready = false → NoteAllocator.Allocating m.allocatorEdge a)
  | _ => True

/-- What a transaction finds initialised. -/
def FreshInv (m : Main) : Prop :=
  match m.systemState with
  | .takingInput | .noteAllocation | .encrypt =>
    m.checksumForBackendResponse = 0 ∧ m.dispensingDoneAlready = false ∧ m.timeOutCounter = 0
  | .communicating | .decrypt | .communicationLost => m.dispensingDoneAlready = false
  | _ => True

end Main

namespace Atm

open Main Cipher

variable {g : Generics} {i : AtmEdge} {s : Atm}

theorem encrypterInv_clock (hi : s.EncrypterInv s.encrypter) :
    (s.clock g i).EncrypterInv (s.clock g i).encrypter := by
  have he := clock_cases g i s
  change (s.clock g i).EncrypterInv
    (Encrypter.clock ⟨i.debouncedReset, s.startEncrypt, s.enInput⟩ s.encrypter)
  generalize (s.clock g i).toMain = m at he
  cases he with
  | reset hr => trivial
  | reconnect hr hc => trivial
  | branch m hr hc hb =>
    have hstop (hs : s.startEncrypt = false) :
        (Encrypter.clock ⟨i.debouncedReset, s.startEncrypt, s.enInput⟩ s.encrypter).Idle :=
      clock_stop hr hs
    rw [hr] at hstop ⊢
    change m.EncrypterInv _
    cases hb with
    | ready b l h =>
      simp only [Main.EncrypterInv]
      cases i.debouncedStart
      · trivial
      · exact ⟨rfl, .inl rfl⟩
    | key l h =>
      simp only [Main.EncrypterInv, h] at hi
      simp only [Main.EncrypterInv, h]
      exact ⟨hi.1, .inr (hstop hi.1)⟩
    | lastKey l h =>
      simp only [Main.EncrypterInv, h] at hi
      exact ⟨hi.1, hstop hi.1⟩
    | noKey b l h =>
      simp only [Main.EncrypterInv, h] at hi
      simp only [Main.EncrypterInv, h]
      exact ⟨hi.1, .inr (hstop hi.1)⟩
    | noteAllocation l h =>
      simp only [Main.EncrypterInv, h] at hi
      exact (hstop hi.1).working _
    | encrypt l h =>
      simp only [Main.EncrypterInv, h] at hi
      simp only [Main.EncrypterInv]
      cases hd : s.encryptionOver with
      | false => exact hi.clock
      | true =>
        obtain ⟨hs, hf⟩ := hi.finished hd
        by_cases hb : s.bankId = bankBits s.enInput
        · simp only [if_true, if_pos hb]
          exact ⟨rfl, hf.clock rfl hs⟩
        · simp only [if_true, if_neg hb]
    | communicating l a u r c t h =>
      simp only [Main.EncrypterInv, h] at hi
      simp only [Main.EncrypterInv]
      have hc : s.startEncrypt = true ∧ Cipher.Finished 0 encryptCycle s.enInput
          (Encrypter.clock ⟨false, s.startEncrypt, s.enInput⟩ s.encrypter) :=
        ⟨hi.1, hi.2.clock rfl hi.1⟩
      split_ifs <;> first | exact hc | trivial
    | decrypt l h =>
      simp only [Main.EncrypterInv]
      cases s.decryptionOver <;> cases s.userIsAdmin <;> trivial
    | loadingCash l n q h hq => rcases hq with rfl | rfl <;> trivial
    | dispense l n k b q h hq => rcases hq with rfl | rfl <;> trivial
    | refuse l n k q h hq => rcases hq with rfl | rfl <;> trivial
    | dispensed l n k b j q h hq => rcases hq with rfl | rfl <;> trivial
    | dummy h =>
      simp only [Main.EncrypterInv]
      cases i.debouncedDone <;> trivial
    | ethernet l h =>
      simp only [Main.EncrypterInv]
      cases i.debouncedDone <;> trivial
    | setup l r c h =>
      simp only [Main.EncrypterInv]
      split_ifs <;> trivial
    | decryptSetup l h =>
      simp only [Main.EncrypterInv]
      cases s.decryptionOver <;> trivial
    | serveFromCache entry h => trivial
    | notInCache h => trivial
    | userNotInCache l n q h hq => rcases hq with rfl | rfl <;> trivial
    | communicationRegained l h =>
      simp only [Main.EncrypterInv]
      split_ifs <;> trivial
    | communicateCache l r c h =>
      simp only [Main.EncrypterInv]
      split_ifs <;> trivial
    | updateCache l h =>
      simp only [Main.EncrypterInv]
      split_ifs <;> trivial

theorem decrypterInv_clock (hi : s.DecrypterInv s.decrypter) :
    (s.clock g i).DecrypterInv (s.clock g i).decrypter := by
  have he := clock_cases g i s
  change (s.clock g i).DecrypterInv
    (Decrypter.clock ⟨i.debouncedReset, s.startDecrypt, s.deInput⟩ s.decrypter)
  generalize (s.clock g i).toMain = m at he
  cases he with
  | reset hr => trivial
  | reconnect hr hc => exact fun h => absurd h (by simp [tick, reconnect])
  | branch m hr hc hb =>
    have hstop (hs : s.startDecrypt = false) :
        (Decrypter.clock ⟨i.debouncedReset, s.startDecrypt, s.deInput⟩ s.decrypter).Idle :=
      clock_stop hr hs
    rw [hr] at hstop ⊢
    change m.DecrypterInv _
    cases hb with
    | ready b l h =>
      simp only [Main.DecrypterInv]
      cases i.debouncedStart
      · trivial
      · exact ⟨rfl, .inl rfl⟩
    | key l h =>
      simp only [Main.DecrypterInv, h] at hi
      simp only [Main.DecrypterInv, h]
      exact ⟨hi.1, .inr (hstop hi.1)⟩
    | lastKey l h =>
      simp only [Main.DecrypterInv, h] at hi
      exact ⟨hi.1, hstop hi.1⟩
    | noKey b l h =>
      simp only [Main.DecrypterInv, h] at hi
      simp only [Main.DecrypterInv, h]
      exact ⟨hi.1, .inr (hstop hi.1)⟩
    | noteAllocation l h =>
      simp only [Main.DecrypterInv, h] at hi
      exact ⟨hi.1, hstop hi.1⟩
    | encrypt l h =>
      simp only [Main.DecrypterInv, h] at hi
      simp only [Main.DecrypterInv]
      split_ifs
      · exact ⟨hi.1, hstop hi.1⟩
      · trivial
      · exact ⟨hi.1, hstop hi.1⟩
    | communicating l a u r c t h =>
      simp only [Main.DecrypterInv, h] at hi
      simp only [Main.DecrypterInv]
      have hc := And.intro hi.1 (hstop hi.1)
      split_ifs <;> first | exact hc | exact (hstop hi.1).working _ | trivial
    | decrypt l h =>
      simp only [Main.DecrypterInv, h] at hi
      simp only [Main.DecrypterInv]
      cases hd : s.decryptionOver with
      | false => exact hi.clock
      | true =>
        obtain ⟨hs, hf⟩ := hi.finished hd
        have hc : true = true ∧ Cipher.Finished 0xC6EF3720 decryptCycle s.deInput
            (Decrypter.clock ⟨false, s.startDecrypt, s.deInput⟩ s.decrypter) :=
          ⟨rfl, hf.clock rfl hs⟩
        cases s.userIsAdmin
        · exact .inl hc
        · exact hc
    | loadingCash l n q h hq =>
      simp only [Main.DecrypterInv, h] at hi
      rcases hq with rfl | rfl
      · exact ⟨hi.1, hi.2.clock rfl hi.1⟩
      · trivial
    | dispense l n k b q h hq =>
      simp only [Main.DecrypterInv, h] at hi
      rcases hq with rfl | rfl
      · exact hi.imp_left fun hi => ⟨hi.1, hi.2.clock rfl hi.1⟩
      · trivial
    | refuse l n k q h hq =>
      simp only [Main.DecrypterInv, h] at hi
      rcases hq with rfl | rfl
      · exact hi.imp_left fun hi => ⟨hi.1, hi.2.clock rfl hi.1⟩
      · trivial
    | dispensed l n k b j q h hq =>
      simp only [Main.DecrypterInv, h] at hi
      rcases hq with rfl | rfl
      · exact hi.imp_left fun hi => ⟨hi.1, hi.2.clock rfl hi.1⟩
      · trivial
    | dummy h =>
      simp only [Main.DecrypterInv]
      cases i.debouncedDone <;> trivial
    | ethernet l h =>
      simp only [Main.DecrypterInv]
      cases i.debouncedDone <;> trivial
    | setup l r c h =>
      simp only [Main.DecrypterInv, h] at hi
      simp only [Main.DecrypterInv]
      split_ifs
      · exact (hstop hi.1).working _
      · exact ⟨hi.1, hstop hi.1⟩
    | decryptSetup l h =>
      simp only [Main.DecrypterInv, h] at hi
      simp only [Main.DecrypterInv]
      cases hd : s.decryptionOver with
      | false => exact hi.clock
      | true => trivial
    | serveFromCache entry h => exact .inr rfl
    | notInCache h => trivial
    | userNotInCache l n q h hq => rcases hq with rfl | rfl <;> trivial
    | communicationRegained l h =>
      simp only [Main.DecrypterInv, h] at hi
      simp only [Main.DecrypterInv]
      have hs : (if s.startEncrypt = true then s.startDecrypt else false) = false := by
        split_ifs with hs
        · exact hi hs
        · rfl
      by_cases hk : s.cacheUpdateCount = 4
      · simp only [if_pos hk]
      · cases hd : s.encryptionOver with
        | false =>
          simp only [if_neg hk, Bool.false_eq_true, if_false]
          exact fun _ => hs
        | true =>
          simp only [if_neg hk, if_true]
          exact ⟨by simp [hk], hs⟩
    | communicateCache l r c h =>
      simp only [Main.DecrypterInv, h] at hi
      simp only [Main.DecrypterInv]
      split_ifs
      · exact ⟨hi.1, (hstop hi.2).working _⟩
      · exact hi
    | updateCache l h =>
      simp only [Main.DecrypterInv, h] at hi
      simp only [Main.DecrypterInv]
      cases hd : s.decryptionOver with
      | false => exact ⟨hi.1, hi.2.clock⟩
      | true => exact fun h' => absurd h' (by simp [hi.1])

theorem allocatorInv_clock (hi : s.AllocatorInv s.noteAllocator) :
    (s.clock g i).AllocatorInv (s.clock g i).noteAllocator := by
  have he := clock_cases g i s
  change (s.clock g i).AllocatorInv (NoteAllocator.clock
    ⟨i.debouncedReset, s.startNoteAllocation, s.stock, s.limits, s.amountToBeAllocated⟩
    s.noteAllocator)
  generalize (s.clock g i).toMain = m at he
  cases he with
  | reset hr => trivial
  | reconnect hr hc => trivial
  | branch m hr hc hb =>
    rw [hr]
    have hstop (hs : s.startNoteAllocation = false) :
        (NoteAllocator.clock s.allocatorEdge s.noteAllocator).Idle := NoteAllocator.clock_stop hs
    have hwork (ha : s.noteAllocator.Allocating s.allocatorEdge) :
        (NoteAllocator.clock s.allocatorEdge s.noteAllocator).Allocating s.allocatorEdge :=
      ha.clock rfl
    change m.AllocatorInv (NoteAllocator.clock s.allocatorEdge s.noteAllocator)
    cases hb with
    | ready b l h =>
      simp only [Main.AllocatorInv]
      cases i.debouncedStart
      · trivial
      · exact ⟨rfl, .inl rfl⟩
    | key l h =>
      simp only [Main.AllocatorInv, h] at hi
      simp only [Main.AllocatorInv, h]
      exact ⟨hi.1, .inr (hstop hi.1)⟩
    | lastKey l h =>
      simp only [Main.AllocatorInv, h] at hi
      exact ⟨hi.1, hstop hi.1, rfl⟩
    | noKey b l h =>
      simp only [Main.AllocatorInv, h] at hi
      simp only [Main.AllocatorInv, h]
      exact ⟨hi.1, .inr (hstop hi.1)⟩
    | noteAllocation l h =>
      simp only [Main.AllocatorInv, h] at hi
      exact ⟨rfl, hi.2.2, (hstop hi.1).allocating⟩
    | encrypt l h =>
      simp only [Main.AllocatorInv, h] at hi
      simp only [Main.AllocatorInv]
      have hc := And.intro hi.1 (And.intro hi.2.1 (hwork hi.2.2))
      split_ifs <;> first | exact hc | trivial
    | communicating l a u r c t h =>
      simp only [Main.AllocatorInv, h] at hi
      simp only [Main.AllocatorInv]
      have hc := And.intro hi.1 (And.intro hi.2.1 (hwork hi.2.2))
      split_ifs <;> first | exact hc | trivial
    | decrypt l h =>
      simp only [Main.AllocatorInv, h] at hi
      simp only [Main.AllocatorInv]
      have hc := And.intro hi.1 (And.intro hi.2.1 (hwork hi.2.2))
      split_ifs
      · trivial
      · exact ⟨hi.1, hi.2.1, fun _ => hwork hi.2.2⟩
      · exact hc
    | loadingCash l n q h hq => rcases hq with rfl | rfl <;> trivial
    | dispense l n k b q h hq =>
      simp only [Main.AllocatorInv, h] at hi
      rcases hq with rfl | rfl
      · exact ⟨hi.1, hi.2.1, fun h' => Bool.noConfusion h'⟩
      · trivial
    | refuse l n k q h hq =>
      simp only [Main.AllocatorInv, h] at hi
      rcases hq with rfl | rfl
      · exact ⟨hi.1, hi.2.1, fun h' => Bool.noConfusion h'⟩
      · trivial
    | dispensed l n k b j q h hq hd =>
      simp only [Main.AllocatorInv, h] at hi
      rcases hq with rfl | rfl
      · exact ⟨hi.1, hi.2.1, fun h' => Bool.noConfusion (hd.symm.trans h')⟩
      · trivial
    | dummy h =>
      simp only [Main.AllocatorInv]
      cases i.debouncedDone <;> trivial
    | ethernet l h =>
      simp only [Main.AllocatorInv]
      cases i.debouncedDone <;> trivial
    | setup l r c h =>
      simp only [Main.AllocatorInv]
      split_ifs <;> trivial
    | decryptSetup l h =>
      simp only [Main.AllocatorInv]
      cases s.decryptionOver <;> trivial
    | serveFromCache entry h =>
      simp only [Main.AllocatorInv, h] at hi
      exact ⟨hi.1, hi.2.1, fun _ => hwork hi.2.2⟩
    | notInCache h => trivial
    | userNotInCache l n q h hq => rcases hq with rfl | rfl <;> trivial
    | communicationRegained l h =>
      simp only [Main.AllocatorInv]
      split_ifs <;> trivial
    | communicateCache l r c h =>
      simp only [Main.AllocatorInv]
      split_ifs <;> trivial
    | updateCache l h =>
      simp only [Main.AllocatorInv]
      cases s.decryptionOver <;> trivial

theorem freshInv_clock (hi : s.FreshInv) : (s.clock g i).FreshInv := by
  have he := clock_cases g i s
  change (s.clock g i).toMain.FreshInv
  generalize (s.clock g i).toMain = m at he
  cases he with
  | reset hr => trivial
  | reconnect hr hc => trivial
  | branch m hr hc hb =>
    change m.FreshInv
    cases hb with
    | ready b l h =>
      simp only [Main.FreshInv]
      cases i.debouncedStart
      · trivial
      · exact ⟨rfl, rfl, rfl⟩
    | encrypt l h =>
      simp only [Main.FreshInv, h] at hi ⊢
      split_ifs
      · exact hi.2.1
      · trivial
      · exact hi
    | loadingCash l n q h hq => rcases hq with rfl | rfl <;> trivial
    | dispense l n k b q h hq => rcases hq with rfl | rfl <;> trivial
    | refuse l n k q h hq => rcases hq with rfl | rfl <;> trivial
    | dispensed l n k b j q h hq => rcases hq with rfl | rfl <;> trivial
    | userNotInCache l n q h hq => rcases hq with rfl | rfl <;> trivial
    | _ =>
      simp only [Main.FreshInv, *] at hi ⊢
      try split_ifs
      all_goals first
        | exact hi
        | trivial

end Atm

namespace TopLevel

variable {g : Generics}

theorem freshInv (ps : List Pins) : (after g ps).atm.FreshInv :=
  atm_invariant (P := fun s => s.FreshInv) (fun _ _ h => Atm.freshInv_clock h) trivial ps

theorem encrypterInv (ps : List Pins) :
    (after g ps).atm.EncrypterInv (after g ps).atm.encrypter :=
  atm_invariant (P := fun s => s.EncrypterInv s.encrypter)
    (fun _ _ h => Atm.encrypterInv_clock h) trivial ps

theorem decrypterInv (ps : List Pins) :
    (after g ps).atm.DecrypterInv (after g ps).atm.decrypter :=
  atm_invariant (P := fun s => s.DecrypterInv s.decrypter)
    (fun _ _ h => Atm.decrypterInv_clock h) ⟨rfl, rfl, rfl⟩ ps

theorem allocatorInv (ps : List Pins) :
    (after g ps).atm.AllocatorInv (after g ps).atm.noteAllocator :=
  atm_invariant (P := fun s => s.AllocatorInv s.noteAllocator)
    (fun _ _ h => Atm.allocatorInv_clock h) trivial ps

end TopLevel

end AtmController.Frontend
