import AtmController.Frontend.Cipher
import AtmController.Frontend.NoteAllocator

namespace AtmController.Frontend

structure Generics where
  N : Nat := 100000000
  M : Nat := 50000000
  maxNoOfBlinks : Nat := 8

inductive SystemState
  | ready
  | takingInput
  | encrypt
  | communicating
  | decrypt
  | loadingCash
  | dispensingCash
  | dummy
  | noteAllocation
  | ethernet
  | communicationLost
  | userNotInCache
  | communicationRegained
  | communicateCache
  | updateCache
  | setup
  | decryptSetup
  deriving DecidableEq

def SystemState.code : SystemState → BitVec 5
  | .ready => 0b00000
  | .takingInput => 0b00001
  | .encrypt => 0b00010
  | .communicating => 0b00011
  | .decrypt => 0b00100
  | .loadingCash => 0b00101
  | .dispensingCash => 0b00110
  | .dummy => 0b00111
  | .noteAllocation => 0b01000
  | .ethernet => 0b01001
  | .communicationLost => 0b01010
  | .userNotInCache => 0b01011
  | .communicationRegained => 0b01100
  | .communicateCache => 0b01101
  | .updateCache => 0b01110
  | .setup => 0b11111
  | .decryptSetup => 0b11110

structure Cache where
  cache1 : BitVec 64
  cache2 : BitVec 64
  cache3 : BitVec 64
  cache4 : BitVec 64
  deriving DecidableEq

/-- The note counters of the dispensing state. -/
structure NoteCounters where
  n2000 : Nat
  n1000 : Nat
  n500 : Nat
  n100 : Nat
  deriving DecidableEq

/-- The registers of `main_process`: the signals it assigns, then its variables. -/
structure Main where
  bankId : BitVec 5 := 0
  systemState : SystemState := .setup
  startEncrypt : Bool := false
  enInput : BitVec 64 := 0
  startDecrypt : Bool := false
  deInput : BitVec 64 := 0
  stock : Notes := ⟨0, 0, 0, 0⟩
  limits : Limits := ⟨0, ⟨0, 0, 0, 0⟩⟩
  startNoteAllocation : Bool := false
  amountToBeAllocated : BitVec 32 := 0
  cache : Cache := ⟨0, 0, 0, 0⟩
  cacheMode : Bool := false
  prevChanAddr : BitVec 7 := 0
  ledOut : BitVec 8 := 0
  inputByteCount : Nat := 0
  inputTakenAlready : Bool := false
  inputEightBytes : BitVec 64 := 0
  adequateCashInAccount : Bool := false
  userIsAdmin : Bool := false
  responseFromBackend : BitVec 64 := 0
  checksumForBackendResponse : BitVec 8 := 0
  dispensingDoneAlready : Bool := false
  notesToBeDispensed : NoteCounters := ⟨0, 0, 0, 0⟩
  led4to7BlinkCounter : Nat := 0
  timeCounter : Nat := 0
  ledBlinkCounter : Nat := 0
  timeGap : Bool := false
  timeOutCounter : Nat := 0
  cacheUpdateCount : Nat := 0

structure Atm extends Main where
  encrypter : Cipher := Encrypter.powerUp
  decrypter : Cipher := Decrypter.powerUp
  noteAllocator : NoteAllocator := NoteAllocator.powerUp

structure AtmEdge where
  debouncedLoadBankId : Bool
  debouncedNextData : Bool
  debouncedReset : Bool
  debouncedStart : Bool
  debouncedDone : Bool
  swIn : BitVec 8
  chanAddr : BitVec 7
  h2fValid : Bool
  h2fData : BitVec 8

/-- The 16-bit user ID of a record, and the five bits of it that name the bank. -/
def userId (record : BitVec 64) : BitVec 16 := record.extractLsb' 48 16

def bankBits (record : BitVec 64) : BitVec 5 := record.extractLsb' 48 5

def noteBytes (record : BitVec 64) : Notes :=
  ⟨Slice.byte record 3, Slice.byte record 2, Slice.byte record 1, Slice.byte record 0⟩

namespace Atm

def powerUp : Atm := {}

abbrev encryptionOver (s : Atm) : Bool := s.encrypter.done

abbrev enOutput (s : Atm) : BitVec 64 := s.encrypter.output

abbrev decryptionOver (s : Atm) : Bool := s.decrypter.done

abbrev deOutput (s : Atm) : BitVec 64 := s.decrypter.output

abbrev noteAllocationOver (s : Atm) : Bool := s.noteAllocator.done

abbrev adequateCashInAtm (s : Atm) : Bool := s.noteAllocator.allocationPossible

abbrev allocated (s : Atm) : Notes := s.noteAllocator.out

end Atm

end AtmController.Frontend
