import AtmController.Frontend.Registers

/-! The clocked process `main_process`, state by state. Signals read their old values and
variables the ones just assigned; of several assignments to a signal the last one counts. -/

namespace AtmController.Frontend

open Slice

namespace Main

/-- The led slice above `lo` shows `on` in the second half of the time counter's period. -/
def blink (g : Generics) (m : Main) (lo : Nat) (on : BitVec w) : Main :=
  { m with ledOut := assign m.ledOut lo (if m.timeCounter > g.M then on else 0) }

/-- Bytes arriving on the eight channels from `first` on, in the states that collect them. -/
def collect (first : Nat) (i : AtmEdge) (m : Main) : Main :=
  let k := i.chanAddr.toNat - first
  if i.h2fValid ∧ first ≤ i.chanAddr.toNat ∧ i.chanAddr.toNat < first + 8 then
    { m with
      responseFromBackend := assign m.responseFromBackend (8 * k) i.h2fData
      checksumForBackendResponse := assign m.checksumForBackendResponse k (1 : BitVec 1) }
  else m

/-- The variables that a reset and the Ready state both initialise. -/
def initVariables (m : Main) : Main :=
  { m with
    inputByteCount := 0
    inputEightBytes := 0
    inputTakenAlready := false
    startEncrypt := false
    startDecrypt := false
    startNoteAllocation := false
    adequateCashInAccount := false
    userIsAdmin := false
    responseFromBackend := 0
    checksumForBackendResponse := 0
    dispensingDoneAlready := false
    notesToBeDispensed := ⟨0, 0, 0, 0⟩
    led4to7BlinkCounter := 0
    ledOut := 0
    ledBlinkCounter := 0
    timeGap := false
    timeOutCounter := 0 }

/-- The blinks of one denomination: `fewer` counts one note down and `on` is its pattern. -/
def blinkNote (g : Generics) (fewer : NoteCounters) (on : BitVec 4) (m : Main) : Main :=
  if m.timeCounter = g.N ∧ m.timeGap = false then
    { m with notesToBeDispensed := fewer, timeGap := true }
  else if m.timeCounter = g.N ∧ m.timeGap then { m with timeGap := false }
  else if m.timeCounter > g.M ∧ m.timeGap = false then
    { m with ledOut := assign m.ledOut 4 on }
  else { m with ledOut := assign m.ledOut 4 (0 : BitVec 4) }

def finishBlinks (g : Generics) (m : Main) : Main :=
  if m.ledBlinkCounter = g.maxNoOfBlinks then { m with ledOut := 0, systemState := .dummy }
  else { m with ledOut := assign m.ledOut 4 (0 : BitVec 4) }

def countBlinks (g : Generics) (m : Main) : Main :=
  if m.ledBlinkCounter ≠ g.maxNoOfBlinks then
    if m.timeCounter = g.N then { m with ledBlinkCounter := m.ledBlinkCounter + 1 }
    else m.blink g 0 (0b1111 : BitVec 4)
  else { m with ledOut := assign m.ledOut 0 (0 : BitVec 4) }

def blinkNotes (g : Generics) (m : Main) : Main :=
  let n := m.notesToBeDispensed
  if n.n2000 > 0 then m.blinkNote g { n with n2000 := n.n2000 - 1 } 0b0001
  else if n.n1000 > 0 then m.blinkNote g { n with n1000 := n.n1000 - 1 } 0b0010
  else if n.n500 > 0 then m.blinkNote g { n with n500 := n.n500 - 1 } 0b0100
  else if n.n100 > 0 then m.blinkNote g { n with n100 := n.n100 - 1 } 0b1000
  else m.finishBlinks g

end Main

namespace Atm

open Main

def reset (s : Atm) : Main :=
  { s.initVariables with systemState := .ready, timeCounter := 0 }

/-- The change of `chanAddr` to 0 that signifies that the connection is back up. -/
def Reconnects (i : AtmEdge) (s : Atm) : Prop :=
  s.cacheMode ∧ i.chanAddr = 0 ∧ s.prevChanAddr ≠ i.chanAddr ∧ s.systemState = .ready

instance (i : AtmEdge) (s : Atm) : Decidable (s.Reconnects i) := by
  unfold Reconnects; infer_instance

def reconnect (s : Atm) : Main :=
  { s.toMain with
    cacheMode := false
    systemState := .communicationRegained
    startEncrypt := false }

def ready (i : AtmEdge) (s : Atm) : Main :=
  let m := { s.initVariables with cacheUpdateCount := 0 }
  let m := if i.debouncedLoadBankId then
    { m with bankId := i.swIn.extractLsb' 0 5, ledOut := assign m.ledOut 3 s.bankId } else m
  if i.debouncedStart then { m with systemState := .takingInput } else m

def takingInput (g : Generics) (i : AtmEdge) (s : Atm) : Main :=
  let m := s.toMain
  let m :=
    if i.debouncedNextData ∧ m.inputByteCount < 8 then
      if m.inputTakenAlready = false then
        let m := { m with
          inputEightBytes := assign m.inputEightBytes (56 - 8 * m.inputByteCount) i.swIn
          inputTakenAlready := true
          inputByteCount := m.inputByteCount + 1 }
        if m.inputByteCount = 8 then
          { m with
            enInput := m.inputEightBytes
            amountToBeAllocated := low m.inputEightBytes
            ledOut := 0
            systemState := .noteAllocation }
        else { m with ledOut := assign m.ledOut 1 (BitVec.ofNat 3 m.inputByteCount) }
      else m
    else if i.debouncedNextData = false then { m with inputTakenAlready := false }
    else m
  m.blink g 0 (0b1 : BitVec 1)

/-- The guard `note_allocation_over <= '1'` compares in the order `'0' < '1'`. -/
def noteAllocation (g : Generics) (s : Atm) : Main :=
  let m := { s.toMain with startNoteAllocation := true }
  let m := if s.noteAllocationOver ≤ true then { m with systemState := .encrypt } else m
  m.blink g 0 (0b11 : BitVec 2)

def encrypt (g : Generics) (s : Atm) : Main :=
  let m := { s.toMain with startEncrypt := true }
  let m :=
    if s.encryptionOver then
      { m with
        systemState := if s.bankId = bankBits s.enInput then .communicating else .ethernet }
    else m
  m.blink g 0 (0b11 : BitVec 2)

def status (i : AtmEdge) (m : Main) : Main :=
  if i.chanAddr = 9 ∧ i.h2fValid then
    if i.h2fData = 1 then { m with adequateCashInAccount := true, userIsAdmin := false }
    else if i.h2fData = 2 then { m with adequateCashInAccount := false, userIsAdmin := false }
    else if i.h2fData = 3 then { m with userIsAdmin := true }
    else if i.h2fData = 4 then { m with systemState := .ready }
    else m
  else m

def communicating (g : Generics) (i : AtmEdge) (s : Atm) : Main :=
  let m := (status i s.toMain).collect 10 i
  let m := if m.checksumForBackendResponse = 0b11111111 then
    { m with deInput := m.responseFromBackend, systemState := .decrypt } else m
  let m := m.blink g 0 (0b11 : BitVec 2)
  let m := if m.timeCounter = g.N then { m with timeOutCounter := m.timeOutCounter + 1 } else m
  if m.timeOutCounter = 31 then { m with systemState := .communicationLost } else m

def decrypt (g : Generics) (s : Atm) : Main :=
  let m := { s.toMain with startDecrypt := true }
  let m :=
    if s.decryptionOver then
      { m with
        ledOut := 0
        systemState := if s.userIsAdmin then .loadingCash else .dispensingCash }
    else m
  m.blink g 0 (0b11 : BitVec 2)

def loadingCash (g : Generics) (s : Atm) : Main :=
  let m := { s.toMain with stock := noteBytes s.deOutput }
  let m := if m.timeCounter = g.N then { m with ledBlinkCounter := m.ledBlinkCounter + 1 }
    else m.blink g 0 (0b111 : BitVec 3)
  if m.ledBlinkCounter = g.maxNoOfBlinks then { m with ledOut := 0, systemState := .dummy }
  else m

def frontRecord (s : Atm) (lowWord : BitVec 32) : BitVec 64 := join (high s.enInput) lowWord

def dispenseCache (s : Atm) : Cache :=
  let c := s.cache
  let debit (entry : BitVec 64) :=
    s.frontRecord (if s.cacheMode then low entry - low s.enInput else low s.deOutput)
  if userId c.cache1 = userId s.enInput then { c with cache1 := debit c.cache1 }
  else if userId c.cache2 = userId s.enInput then
    { c with cache1 := debit c.cache2, cache2 := c.cache1 }
  else if userId c.cache3 = userId s.enInput then
    { c with cache1 := debit c.cache3, cache2 := c.cache1, cache3 := c.cache2 }
  else if userId c.cache4 = userId s.enInput then
    ⟨debit c.cache4, c.cache1, c.cache2, c.cache3⟩
  else ⟨s.frontRecord (low s.deOutput), c.cache1, c.cache2, c.cache3⟩

/-- The cache update of the two refusals, which treats a miss like a hit on the last slot. -/
def refuseCache (s : Atm) : Cache :=
  let c := s.cache
  let keep (entry : BitVec 64) :=
    s.frontRecord (if s.cacheMode then low entry else low s.deOutput)
  if userId c.cache1 = userId s.enInput then { c with cache1 := keep c.cache1 }
  else if userId c.cache2 = userId s.enInput then
    { c with cache1 := keep c.cache2, cache2 := c.cache1 }
  else if userId c.cache3 = userId s.enInput then
    { c with cache1 := keep c.cache3, cache2 := c.cache1, cache3 := c.cache2 }
  else ⟨keep c.cache4, c.cache1, c.cache2, c.cache3⟩

def removeNotes (s : Atm) : Notes :=
  ⟨s.stock.n2000 - s.allocated.n2000, s.stock.n1000 - s.allocated.n1000,
    s.stock.n500 - s.allocated.n500, s.stock.n100 - s.allocated.n100⟩

/-- A refusal; `blinks` is how often the upper leds blink. -/
def refuse (g : Generics) (blinks : Nat) (s : Atm) : Main :=
  let m := s.toMain
  let m := if m.dispensingDoneAlready = false then
    { m with dispensingDoneAlready := true, cache := s.refuseCache } else m
  let m := m.finishBlinks g
  if m.timeCounter = g.N then { m with led4to7BlinkCounter := m.led4to7BlinkCounter + 1 }
  else if m.timeCounter > g.M ∧ m.led4to7BlinkCounter < blinks then
    { m with ledOut := assign m.ledOut 4 (0b1111 : BitVec 4) }
  else { m with ledOut := assign m.ledOut 4 (0 : BitVec 4) }

def dispense (g : Generics) (s : Atm) : Main :=
  let m := s.toMain
  let m := if m.dispensingDoneAlready = false then
    { m with
      stock := s.removeNotes
      notesToBeDispensed := ⟨s.allocated.n2000.toNat, s.allocated.n1000.toNat,
        s.allocated.n500.toNat, s.allocated.n100.toNat⟩
      dispensingDoneAlready := true
      cache := s.dispenseCache }
    else m
  m.blinkNotes g

def dispensingCash (g : Generics) (s : Atm) : Main :=
  let m :=
    if s.adequateCashInAccount ∧ s.adequateCashInAtm then s.dispense g
    else if s.adequateCashInAccount = false then s.refuse g 3
    else s.refuse g 6
  m.countBlinks g

def dummy (i : AtmEdge) (s : Atm) : Main :=
  if i.debouncedDone then { s.toMain with systemState := .ready } else s.toMain

def ethernet (g : Generics) (i : AtmEdge) (s : Atm) : Main :=
  let m := if i.debouncedDone then { s.toMain with systemState := .ready } else s.toMain
  m.blink g 0 (0b101 : BitVec 3)

def setup (g : Generics) (i : AtmEdge) (s : Atm) : Main :=
  let m := s.collect 18 i
  let m := if m.checksumForBackendResponse = 0b11111111 then
    { m with deInput := m.responseFromBackend, systemState := .decryptSetup } else m
  m.blink g 0 (0b11 : BitVec 2)

def decryptSetup (g : Generics) (s : Atm) : Main :=
  let m := { s.toMain with startDecrypt := true }
  let m :=
    if s.decryptionOver then
      { m with
        limits := ⟨high s.deOutput, noteBytes s.deOutput⟩
        systemState := .ready }
    else m
  m.blink g 0 (0b11 : BitVec 2)

def serveFromCache (entry : BitVec 64) (s : Atm) : Main :=
  { s.toMain with
    adequateCashInAccount := low s.enInput ≤ low entry
    cacheMode := true
    systemState := .dispensingCash }

def communicationLost (s : Atm) : Main :=
  if high s.enInput = high s.cache.cache1 then s.serveFromCache s.cache.cache1
  else if high s.enInput = high s.cache.cache2 then s.serveFromCache s.cache.cache2
  else if high s.enInput = high s.cache.cache3 then s.serveFromCache s.cache.cache3
  else if high s.enInput = high s.cache.cache4 then s.serveFromCache s.cache.cache4
  else { s.toMain with systemState := .userNotInCache }

def userNotInCache (g : Generics) (s : Atm) : Main :=
  let m := s.toMain
  let m := if m.timeCounter = g.N then { m with ledBlinkCounter := m.ledBlinkCounter + 1 }
    else m.blink g 6 (0b11 : BitVec 2)
  if m.ledBlinkCounter = g.maxNoOfBlinks then { m with ledOut := 0, systemState := .ready }
  else m

def communicationRegained (g : Generics) (s : Atm) : Main :=
  let m := s.toMain
  let m := if s.startEncrypt = false then
    { m with
      startDecrypt := false
      startEncrypt := true
      enInput := s.cache.cache1
      checksumForBackendResponse := 0 }
    else m
  let m :=
    if m.cacheUpdateCount = 4 then { m with systemState := .ready, cacheMode := false }
    else if s.encryptionOver then
      { m with systemState := .communicateCache, startEncrypt := false }
    else m
  m.blink g 0 (0b10101010 : BitVec 8)

def communicateCache (g : Generics) (i : AtmEdge) (s : Atm) : Main :=
  let m := (s.collect 10 i).blink g 0 (0b10101010 : BitVec 8)
  if m.checksumForBackendResponse = 0b11111111 then
    { m with deInput := m.responseFromBackend, systemState := .updateCache }
  else m

def updateCache (g : Generics) (s : Atm) : Main :=
  let m := { s.toMain with startDecrypt := true }
  let m :=
    if s.decryptionOver then
      { m with
        cache := ⟨s.cache.cache4, join (high s.cache.cache1) (low s.deOutput), s.cache.cache2,
          s.cache.cache3⟩
        systemState := .communicationRegained
        cacheUpdateCount := m.cacheUpdateCount + 1 }
    else m
  m.blink g 0 (0b10101010 : BitVec 8)

def branch (g : Generics) (i : AtmEdge) (s : Atm) : Main :=
  match s.systemState with
  | .ready => s.ready i
  | .takingInput => s.takingInput g i
  | .noteAllocation => s.noteAllocation g
  | .encrypt => s.encrypt g
  | .communicating => s.communicating g i
  | .decrypt => s.decrypt g
  | .loadingCash => s.loadingCash g
  | .dispensingCash => s.dispensingCash g
  | .dummy => s.dummy i
  | .ethernet => s.ethernet g i
  | .setup => s.setup g i
  | .decryptSetup => s.decryptSetup g
  | .communicationLost => s.communicationLost
  | .userNotInCache => s.userNotInCache g
  | .communicationRegained => s.communicationRegained g
  | .communicateCache => s.communicateCache g i
  | .updateCache => s.updateCache g

/-- The assignments after the states: the time counter and the last channel address. -/
def tick (g : Generics) (i : AtmEdge) (m : Main) : Main :=
  { m with
    timeCounter := if m.timeCounter = g.N then 0 else m.timeCounter + 1
    prevChanAddr := i.chanAddr }

def mainProcess (g : Generics) (i : AtmEdge) (s : Atm) : Main :=
  tick g i <|
    if i.debouncedReset then s.reset
    else if s.Reconnects i then s.reconnect
    else s.branch g i

/-- One clock edge of the ATM: all processes sample the registers as they were. -/
def clock (g : Generics) (i : AtmEdge) (s : Atm) : Atm where
  toMain := s.mainProcess g i
  encrypter := Encrypter.clock ⟨i.debouncedReset, s.startEncrypt, s.enInput⟩ s.encrypter
  decrypter := Decrypter.clock ⟨i.debouncedReset, s.startDecrypt, s.deInput⟩ s.decrypter
  noteAllocator := NoteAllocator.clock
    ⟨i.debouncedReset, s.startNoteAllocation, s.stock, s.limits, s.amountToBeAllocated⟩
    s.noteAllocator

/-- The byte the host reads from channel `chanAddr` in a cycle. A reset clears the outputs of
the encrypter and of the allocator at once, not only at the next edge. -/
def f2hData (i : AtmEdge) (s : Atm) : BitVec 8 :=
  let enOutput := if i.debouncedReset then 0 else s.enOutput
  let adequateCashInAtm := if i.debouncedReset then false else s.adequateCashInAtm
  if i.chanAddr = 0 then
    match s.systemState with
    | .communicating => if adequateCashInAtm then 0x01 else 0x02
    | .decrypt | .loadingCash | .dispensingCash | .dummy => 0x03
    | .communicationRegained | .communicateCache | .updateCache => 0x05
    | _ => 0x00
  else if 1 ≤ i.chanAddr.toNat ∧ i.chanAddr.toNat ≤ 8 ∧
      (s.systemState = .communicating ∨ s.systemState = .communicateCache) then
    byte enOutput (i.chanAddr.toNat - 1)
  else 0

end Atm

end AtmController.Frontend
