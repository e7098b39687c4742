import AtmController.Frontend.Collection

namespace AtmController.Frontend

open Slice

/-- The registers that outlive a transaction. -/
structure Durable where
  bankId : BitVec 5
  stock : Notes
  limits : Limits
  cache : Cache
  cacheMode : Bool
  deriving DecidableEq

/-- The registers that a transaction starts from, at the values of `initVariables`. -/
structure Session where
  startEncrypt : Bool := false
  startDecrypt : Bool := false
  startNoteAllocation : Bool := false
  adequateCashInAccount : Bool := false
  userIsAdmin : Bool := false
  checksumForBackendResponse : BitVec 8 := 0
  dispensingDoneAlready : Bool := false
  ledBlinkCounter : Nat := 0
  timeGap : Bool := false
  timeOutCounter : Nat := 0
  cacheUpdateCount : Nat := 0

namespace Main

def durable (m : Main) : Durable := ⟨m.bankId, m.stock, m.limits, m.cache, m.cacheMode⟩

def session (m : Main) : Session where
  startEncrypt := m.startEncrypt
  startDecrypt := m.startDecrypt
  startNoteAllocation := m.startNoteAllocation
  adequateCashInAccount := m.adequateCashInAccount
  userIsAdmin := m.userIsAdmin
  checksumForBackendResponse := m.checksumForBackendResponse
  dispensingDoneAlready := m.dispensingDoneAlready
  ledBlinkCounter := m.ledBlinkCounter
  timeGap := m.timeGap
  timeOutCounter := m.timeOutCounter
  cacheUpdateCount := m.cacheUpdateCount

end Main

namespace NoteAllocator

def stopped (c : NoteAllocator) : NoteAllocator :=
  { c with done := false, allocationPossible := false, systemState := .initial }

theorem clock_eq_stopped {i : AllocatorEdge} {c : NoteAllocator} (hr : i.reset = false)
    (hs : i.start = false) : clock i c = c.stopped := by
  simp [clock, hr, hs, stopped]

@[simp] theorem stopped_stopped (c : NoteAllocator) : c.stopped.stopped = c.stopped := rfl

end NoteAllocator

structure AtmEdge.Quiet (c : BitVec 7) (i : AtmEdge) : Prop where
  reset : i.debouncedReset = false
  valid : i.h2fValid = false
  addr : i.chanAddr = c

namespace Atm

open Main Cipher

variable {g : Generics} {c : BitVec 7} {d : Durable} {a : NoteAllocator} {v : BitVec 64}
  {k : Nat} {b : Bool} {i : AtmEdge} {s : Atm} {m : Main}

/-- Everything a transaction starts from is as initialised, and the components are at rest. -/
structure Resting (g : Generics) (c : BitVec 7) (d : Durable) (a : NoteAllocator) (s : Atm) :
    Prop where
  durable : s.durable = d
  session : s.session = {}
  addr : s.prevChanAddr = c
  timeCounter : s.timeCounter ≤ g.N
  encrypter : s.encrypter.Idle
  decrypter : s.decrypter.Idle
  allocator : s.noteAllocator = a.stopped

structure Parked (g : Generics) (c : BitVec 7) (d : Durable) (a : NoteAllocator) (s : Atm) : Prop
    extends Resting g c d a s where
  state : s.systemState = .ready
  count : s.inputByteCount = 0
  taken : s.inputTakenAlready = false

/-- `k` bytes of `v` are typed; `b` tells whether the key of the last one is still down. -/
structure Typing (g : Generics) (c : BitVec 7) (d : Durable) (a : NoteAllocator) (v : BitVec 64)
    (k : Nat) (b : Bool) (s : Atm) : Prop extends Resting g c d a s where
  state : s.systemState = .takingInput
  count : s.inputByteCount = k
  taken : s.inputTakenAlready = b
  bytes : ∀ j < k, byte s.inputEightBytes (7 - j) = byte v (7 - j)

theorem tick_timeCounter_le (h : m.timeCounter ≤ g.N) : (tick g i m).timeCounter ≤ g.N := by
  simp only [tick]
  split
  · exact Nat.zero_le _
  · omega

theorem clock_eq_branch (hr : i.debouncedReset = false) (hc : ¬ s.Reconnects i) :
    (s.clock g i).toMain = tick g i (s.branch g i) := by
  simp only [clock, mainProcess, hr, if_neg hc, Bool.false_eq_true, if_false]

theorem clock_quiet (hi : i.Quiet c) (hc : s.prevChanAddr = c) :
    (s.clock g i).toMain = tick g i (s.branch g i) :=
  clock_eq_branch hi.reset fun h => h.2.2.1 (hc.trans hi.addr.symm)

theorem clock_of_not_ready (hr : i.debouncedReset = false) (hs : s.systemState ≠ .ready) :
    (s.clock g i).toMain = tick g i (s.branch g i) :=
  clock_eq_branch hr fun h => hs h.2.2.2

theorem resting_clock (hr : i.debouncedReset = false) (hm : (s.clock g i).toMain = tick g i m)
    (he : s.startEncrypt = false) (hd : s.startDecrypt = false)
    (ha : s.startNoteAllocation = false) (ht : m.timeCounter ≤ g.N) (hs : m.session = {}) :
    Resting g i.chanAddr m.durable s.noteAllocator (s.clock g i) where
  durable := by rw [hm]; rfl
  session := by rw [hm]; exact hs
  addr := by rw [hm]; rfl
  timeCounter := by rw [hm]; exact tick_timeCounter_le ht
  encrypter := clock_stop hr he
  decrypter := clock_stop hr hd
  allocator := NoteAllocator.clock_eq_stopped hr ha

theorem Resting.move (h : Resting g c d a s) (hr : i.debouncedReset = false)
    (hm : (s.clock g i).toMain = tick g i m) (hd : m.durable = s.durable)
    (ht : m.timeCounter = s.timeCounter) (hs : m.session = {}) :
    Resting g i.chanAddr d a (s.clock g i) := by
  have hr := resting_clock hr hm (congrArg Session.startEncrypt h.session)
    (congrArg Session.startDecrypt h.session) (congrArg Session.startNoteAllocation h.session)
    (by rw [ht]; exact h.timeCounter) hs
  rw [hd, h.durable, h.allocator] at hr
  exact { hr with }

theorem Resting.clock (h : Resting g c d a s) (hi : i.Quiet c)
    (hm : (s.clock g i).toMain = tick g i m) (hd : m.durable = s.durable)
    (ht : m.timeCounter = s.timeCounter) (hs : m.session = {}) :
    Resting g c d a (s.clock g i) := by
  have hr := h.move hi.reset hm hd ht hs
  rwa [hi.addr] at hr

theorem clock_ready_of_not_reconnects (hs : s.systemState = .ready)
    (hr : i.debouncedReset = false) (hc : ¬ s.Reconnects i) (hl : i.debouncedLoadBankId = false) :
    (s.clock g i).toMain = tick g i { s.initVariables with
      cacheUpdateCount := 0
      systemState := if i.debouncedStart then .takingInput else .ready } := by
  rw [clock_eq_branch hr hc]
  simp only [branch, hs, ready, hl, Bool.false_eq_true, if_false]
  cases i.debouncedStart
  · simp only [Bool.false_eq_true, if_false]
    rw [← hs]
    rfl
  · rfl

theorem clock_ready (hs : s.systemState = .ready) (hi : i.Quiet c) (hc : s.prevChanAddr = c)
    (hl : i.debouncedLoadBankId = false) :
    (s.clock g i).toMain = tick g i { s.initVariables with
      cacheUpdateCount := 0
      systemState := if i.debouncedStart then .takingInput else .ready } :=
  clock_ready_of_not_reconnects hs hi.reset (fun h => h.2.2.1 (hc.trans hi.addr.symm)) hl

theorem Parked.move (h : Parked g c d a s) (hc : ¬ s.Reconnects i)
    (hr : i.debouncedReset = false) (hl : i.debouncedLoadBankId = false)
    (hs : i.debouncedStart = false) : Parked g i.chanAddr d a (s.clock g i) := by
  have hm := clock_ready_of_not_reconnects (g := g) h.state hr hc hl
  simp only [hs, Bool.false_eq_true, if_false] at hm
  exact { h.toResting.move hr hm rfl rfl rfl with
    state := by rw [hm]; rfl
    count := by rw [hm]; rfl
    taken := by rw [hm]; rfl }

theorem Parked.clock (h : Parked g c d a s) (hi : i.Quiet c)
    (hl : i.debouncedLoadBankId = false) (hs : i.debouncedStart = false) :
    Parked g c d a (s.clock g i) := by
  have hm := clock_ready (g := g) h.state hi h.addr hl
  simp only [hs, Bool.false_eq_true, if_false] at hm
  exact { h.toResting.clock hi hm rfl rfl rfl with
    state := by rw [hm]; rfl
    count := by rw [hm]; rfl
    taken := by rw [hm]; rfl }

theorem Parked.start (h : Parked g c d a s) (hi : i.Quiet c)
    (hl : i.debouncedLoadBankId = false) (hs : i.debouncedStart = true) :
    Typing g c d a v 0 false (s.clock g i) := by
  have hm := clock_ready (g := g) h.state hi h.addr hl
  simp only [hs, if_true] at hm
  exact { h.toResting.clock hi hm rfl rfl rfl with
    state := by rw [hm]; rfl
    count := by rw [hm]; rfl
    taken := by rw [hm]; rfl
    bytes := fun j hj => absurd hj (by omega) }

theorem parked_of_ready {j : AtmEdge} (hs : s.systemState = .ready) (ht : s.timeCounter ≤ g.N)
    (hc : s.prevChanAddr = c) (hi : i.Quiet c) (hj : j.Quiet c)
    (hil : i.debouncedLoadBankId = false) (his : i.debouncedStart = false)
    (hjl : j.debouncedLoadBankId = false) (hjs : j.debouncedStart = false) :
    Parked g c s.durable (NoteAllocator.clock s.allocatorEdge s.noteAllocator)
      ((s.clock g i).clock g j) := by
  have hm := clock_ready (g := g) hs hi hc hil
  simp only [his, Bool.false_eq_true, if_false] at hm
  have hna : (s.clock g i).noteAllocator =
      NoteAllocator.clock s.allocatorEdge s.noteAllocator := by
    change NoteAllocator.clock ⟨i.debouncedReset, _, _, _, _⟩ _ = _
    rw [hi.reset]
    rfl
  rw [← hna]
  generalize hu : s.clock g i = u at hm ⊢
  have hus : u.systemState = .ready := by rw [hm]; rfl
  have hum := clock_ready (g := g) hus hj (by rw [hm]; exact hi.addr) hjl
  simp only [hjs, Bool.false_eq_true, if_false] at hum
  have hr := resting_clock hj.reset hum (by rw [hm]; rfl) (by rw [hm]; rfl) (by rw [hm]; rfl)
    (show u.timeCounter ≤ g.N by rw [hm]; exact tick_timeCounter_le ht) rfl
  rw [hj.addr] at hr
  have hd : u.durable = s.durable := by rw [hm]; rfl
  rw [← hd]
  exact { hr with
    state := by rw [hum]; rfl
    count := by rw [hum]; rfl
    taken := by rw [hum]; rfl }

theorem Typing.pause (h : Typing g c d a v k b s) (hi : i.Quiet c)
    (hn : i.debouncedNextData = false) : Typing g c d a v k false (s.clock g i) := by
  have hm := clock_quiet (g := g) hi h.addr
  simp only [branch, h.state, takingInput, hn, blink, Bool.false_eq_true, false_and, if_false,
    if_true] at hm
  exact { h.toResting.clock hi hm rfl rfl h.session with
    state := by rw [hm]; rfl
    count := by rw [hm]; exact h.count
    taken := by rw [hm]; rfl
    bytes := by rw [hm]; exact h.bytes }

theorem Typing.hold (h : Typing g c d a v k true s) (hi : i.Quiet c)
    (hn : i.debouncedNextData = true) : Typing g c d a v k true (s.clock g i) := by
  have hm := clock_quiet (g := g) hi h.addr
  simp only [branch, h.state, takingInput, hn, h.taken, blink, Bool.true_eq_false, if_false,
    ite_self] at hm
  exact { h.toResting.clock hi hm rfl rfl h.session with
    state := by rw [hm]; rfl
    count := by rw [hm]; exact h.count
    taken := by rw [hm]; rfl
    bytes := by rw [hm]; exact h.bytes }

theorem bytes_assign (h : s.inputByteCount = k) (hk : k < 8)
    (hb : ∀ j < k, byte s.inputEightBytes (7 - j) = byte v (7 - j)) {w : BitVec 8}
    (hw : w = byte v (7 - k)) :
    ∀ j < k + 1, byte (assign s.inputEightBytes (56 - 8 * s.inputByteCount) w) (7 - j) =
      byte v (7 - j) := by
  intro j hj
  rw [h, show 56 - 8 * k = 8 * (7 - k) by omega]
  rcases Nat.lt_or_eq_of_le (Nat.le_of_lt_succ hj) with hlt | rfl
  · rw [byte_assign_of_ne _ _ (by omega) (by omega)]
    exact hb j hlt
  · rw [byte_assign _ _ (by omega), hw]

theorem Typing.key (h : Typing g c d a v k false s) (hk : k < 7) (hi : i.Quiet c)
    (hn : i.debouncedNextData = true) (hw : i.swIn = byte v (7 - k)) :
    Typing g c d a v (k + 1) true (s.clock g i) := by
  have hm := clock_quiet (g := g) hi h.addr
  have hc : s.inputByteCount < 8 := by rw [h.count]; omega
  have hc' : s.inputByteCount + 1 ≠ 8 := by rw [h.count]; omega
  simp only [branch, h.state, takingInput, hn, h.taken, blink, hc, hc', if_true, if_false,
    and_self] at hm
  exact { h.toResting.clock hi hm rfl rfl h.session with
    state := by rw [hm]; rfl
    count := by rw [hm]; exact congrArg (· + 1) h.count
    taken := by rw [hm]; rfl
    bytes := by rw [hm]; exact bytes_assign h.count (by omega) h.bytes hw }

/-- `v` is entered and `n` edges have passed since. The allocator starts at the second edge, the
encrypter at the third. -/
structure Entered (g : Generics) (c : BitVec 7) (d : Durable) (a : NoteAllocator) (v : BitVec 64)
    (n : Nat) (s : Atm) : Prop where
  durable : s.durable = d
  enInput : s.enInput = v
  amount : s.amountToBeAllocated = low v
  session : s.session =
    { startEncrypt := decide (2 ≤ n), startNoteAllocation := decide (1 ≤ n) }
  addr : s.prevChanAddr = c
  timeCounter : s.timeCounter ≤ g.N
  state : s.systemState = if n = 0 then .noteAllocation else .encrypt
  encrypter : WorkingAt 0 encryptCycle v (decide (2 ≤ n)) (n - 2) s.encrypter
  decrypter : s.decrypter.Idle
  allocator : s.noteAllocator =
    (NoteAllocator.clock ⟨false, true, d.stock, d.limits, low v⟩)^[n - 1] a.stopped

theorem Typing.lastKey (h : Typing g c d a v 7 false s) (hi : i.Quiet c)
    (hn : i.debouncedNextData = true) (hw : i.swIn = byte v 0) :
    Entered g c d a v 0 (s.clock g i) := by
  have hm := clock_quiet (g := g) hi h.addr
  simp only [branch, h.state, takingInput, hn, h.taken, h.count, blink, Nat.reduceLT,
    Nat.reduceAdd, Nat.reduceMul, Nat.reduceSub, if_true, and_self] at hm
  have hb := bytes_assign (w := i.swIn) h.count (by omega) h.bytes hw
  have hv : assign s.inputEightBytes 0 i.swIn = v := by
    refine ext_bytes (m := 8) fun j hj => ?_
    have := hb (7 - j) (by omega)
    rw [h.count, show 7 - (7 - j) = j by omega] at this
    exact this
  rw [hv] at hm
  have hr := h.toResting.clock hi hm rfl rfl h.session
  exact {
    durable := hr.durable
    enInput := by rw [hm]; rfl
    amount := by rw [hm]; rfl
    session := hr.session
    addr := hr.addr
    timeCounter := hr.timeCounter
    state := by rw [hm]; rfl
    encrypter := hr.encrypter.workingAt _
    decrypter := hr.decrypter
    allocator := hr.allocator }

theorem Entered.clock {n : Nat} (h : Entered g c d a v n s) (hn : n < 35) (hi : i.Quiet c) :
    Entered g c d a v (n + 1) (s.clock g i) := by
  have hm := clock_quiet (g := g) hi h.addr
  have hse : s.startEncrypt = decide (2 ≤ n) := congrArg Session.startEncrypt h.session
  have hsd : s.startDecrypt = false := congrArg Session.startDecrypt h.session
  have hsa : s.startNoteAllocation = decide (1 ≤ n) :=
    congrArg Session.startNoteAllocation h.session
  have hen : WorkingAt 0 encryptCycle v true (if decide (2 ≤ n) then n - 2 + 1 else 0)
      (s.clock g i).encrypter := by
    have hw := h.encrypter.clock
    change WorkingAt _ _ _ _ _ (Encrypter.clock ⟨i.debouncedReset, s.startEncrypt, s.enInput⟩ _)
    rw [hi.reset, hse, h.enInput]
    exact hw
  have hde : (s.clock g i).decrypter.Idle := clock_stop hi.reset hsd
  have hal : (s.clock g i).noteAllocator =
      NoteAllocator.clock ⟨false, decide (1 ≤ n), d.stock, d.limits, low v⟩ s.noteAllocator := by
    rw [← h.durable, ← hsa, ← h.amount, ← hi.reset]
    rfl
  have hnd : s.encryptionOver = false := by
    rw [encryptionOver, h.encrypter.1.2.1]
    exact decide_eq_false (by omega)
  rcases Nat.eq_zero_or_pos n with rfl | hpos
  · have hst : s.systemState = .noteAllocation := h.state
    simp only [branch, hst, noteAllocation, blink, Bool.le_true, if_true] at hm
    exact {
      durable := by rw [hm]; exact h.durable
      enInput := by rw [hm]; exact h.enInput
      amount := by rw [hm]; exact h.amount
      session := by
        have hs := h.session
        simp only [Main.session, Session.mk.injEq] at hs
        rw [hm]
        simp [Main.session, tick, hs]
      addr := by rw [hm]; exact hi.addr
      timeCounter := by rw [hm]; exact tick_timeCounter_le h.timeCounter
      state := by rw [hm]; rfl
      encrypter := ⟨hen.1, fun _ => rfl⟩
      decrypter := hde
      allocator := by
        rw [hal, h.allocator]
        exact NoteAllocator.clock_eq_stopped rfl rfl }
  · have hst : s.systemState = .encrypt := by rw [h.state, if_neg (by omega)]
    simp only [branch, hst, encrypt, hnd, blink, Bool.false_eq_true, if_false] at hm
    exact {
      durable := by rw [hm]; exact h.durable
      enInput := by rw [hm]; exact h.enInput
      amount := by rw [hm]; exact h.amount
      session := by
        have hs := h.session
        simp only [Main.session, Session.mk.injEq] at hs
        rw [hm]
        simp [Main.session, tick, hs, show 1 ≤ n by omega]
      addr := by rw [hm]; exact hi.addr
      timeCounter := by rw [hm]; exact tick_timeCounter_le h.timeCounter
      state := by rw [hm]; rfl
      encrypter := by
        rw [decide_eq_true (show 2 ≤ n + 1 by omega)]
        convert hen using 1
        rcases Nat.lt_or_ge n 2 with h2 | h2
        · rw [decide_eq_false (by omega)]
          simp; omega
        · rw [decide_eq_true h2]
          simp; omega
      decrypter := hde
      allocator := by
        rw [hal, h.allocator, decide_eq_true (show 1 ≤ n from hpos),
          show n + 1 - 1 = n - 1 + 1 by omega, Function.iterate_succ_apply'] }

theorem Typing.entered (h : Typing g c d a v 7 false s) (hi : i.Quiet c)
    (hn : i.debouncedNextData = true) (hw : i.swIn = byte v 0) {n : Nat} (h35 : n ≤ 35) :
    Entered g c d a v n ((Atm.clock g i)^[n + 1] s) := by
  induction n with
  | zero => exact h.lastKey hi hn hw
  | succ n ih =>
    rw [Function.iterate_succ_apply']
    exact (ih (by omega)).clock (by omega) hi

/-! ### After the encryption -/

structure Underway (g : Generics) (c : BitVec 7) (d : Durable) (a : NoteAllocator)
    (v : BitVec 64) (s : Atm) : Prop where
  durable : s.durable = d
  enInput : s.enInput = v
  amount : s.amountToBeAllocated = low v
  addr : s.prevChanAddr = c
  timeCounter : s.timeCounter ≤ g.N
  startEncrypt : s.startEncrypt = true
  startNoteAllocation : s.startNoteAllocation = true
  cacheUpdateCount : s.cacheUpdateCount = 0
  encrypter : Finished 0 encryptCycle v s.encrypter
  allocator : s.noteAllocator = a

abbrev started (m : Main) : BitVec 64 × BitVec 32 × Nat × Bool × Bool × Nat :=
  (m.enInput, m.amountToBeAllocated, m.timeCounter, m.startEncrypt, m.startNoteAllocation,
    m.cacheUpdateCount)

theorem Underway.allocator_clock (h : Underway g c d a v s) (hr : i.debouncedReset = false) :
    (s.clock g i).noteAllocator =
      NoteAllocator.clock ⟨false, true, d.stock, d.limits, low v⟩ a := by
  rw [← h.durable, ← h.allocator, ← h.amount, ← hr, ← h.startNoteAllocation]
  rfl

theorem Underway.clock {d' : Durable} (h : Underway g c d a v s) (hr : i.debouncedReset = false)
    (hm : (s.clock g i).toMain = tick g i m) (hd : m.durable = d')
    (hs : started m = started s.toMain) :
    Underway g i.chanAddr d'
      (NoteAllocator.clock ⟨false, true, d.stock, d.limits, low v⟩ a) v (s.clock g i) := by
  simp only [Prod.mk.injEq] at hs
  obtain ⟨hv, ha, ht, he, hn, hk⟩ := hs
  exact {
    durable := by rw [hm]; exact hd
    enInput := by rw [hm]; exact hv.trans h.enInput
    amount := by rw [hm]; exact ha.trans h.amount
    addr := by rw [hm]; rfl
    timeCounter := by rw [hm]; exact tick_timeCounter_le (by rw [ht]; exact h.timeCounter)
    startEncrypt := by rw [hm]; exact he.trans h.startEncrypt
    startNoteAllocation := by rw [hm]; exact hn.trans h.startNoteAllocation
    cacheUpdateCount := by rw [hm]; exact hk.trans h.cacheUpdateCount
    encrypter := h.encrypter.clock hr h.startEncrypt
    allocator := h.allocator_clock hr }

structure Pending (g : Generics) (c : BitVec 7) (d : Durable) (a : NoteAllocator)
    (v : BitVec 64) (s : Atm) : Prop extends Underway g c d a v s where
  notDispensed : s.dispensingDoneAlready = false
  ledBlinkCounter : s.ledBlinkCounter = 0
  timeGap : s.timeGap = false

theorem Pending.clock {d' : Durable} (h : Pending g c d a v s) (hr : i.debouncedReset = false)
    (hm : (s.clock g i).toMain = tick g i m) (hd : m.durable = d')
    (hs : started m = started s.toMain)
    (hp : (m.dispensingDoneAlready, m.ledBlinkCounter, m.timeGap) =
      (s.dispensingDoneAlready, s.ledBlinkCounter, s.timeGap)) :
    Pending g i.chanAddr d'
      (NoteAllocator.clock ⟨false, true, d.stock, d.limits, low v⟩ a) v (s.clock g i) := by
  simp only [Prod.mk.injEq] at hp
  exact { h.toUnderway.clock hr hm hd hs with
    notDispensed := by rw [hm]; exact hp.1.trans h.notDispensed
    ledBlinkCounter := by rw [hm]; exact hp.2.1.trans h.ledBlinkCounter
    timeGap := by rw [hm]; exact hp.2.2.trans h.timeGap }

abbrev waited (g : Generics) (s : Atm) : Nat := s.timeOutCounter * (g.N + 1) + s.timeCounter

/-- Waiting for the backend: `k` bytes of the reply `r` and perhaps its status have arrived, and
`w` cycles have passed. -/
structure Waiting (g : Generics) (c : BitVec 7) (d : Durable) (a : NoteAllocator) (v : BitVec 64)
    (r : Nat → BitVec 8) (k : Nat) (account admin : Bool) (w : Nat) (s : Atm) : Prop
    extends Pending g c d a v s where
  state : s.systemState = .communicating
  collected : s.Collected r k
  account : s.adequateCashInAccount = account
  admin : s.userIsAdmin = admin
  waited : s.waited g = w
  startDecrypt : s.startDecrypt = false
  decrypter : s.decrypter.Idle

theorem Entered.encrypted (h : Entered g c d a v 35 s) (hi : i.Quiet c) :
    Underway g c d ((NoteAllocator.clock ⟨false, true, d.stock, d.limits, low v⟩)^[35] a.stopped)
        v (s.clock g i) ∧
      (s.clock g i).systemState =
        (if d.bankId = bankBits v then .communicating else .ethernet) ∧
      (s.clock g i).session =
        { startEncrypt := true, startNoteAllocation := true } ∧
      (s.clock g i).decrypter.Idle := by
  have hst : s.systemState = .encrypt := h.state
  have hm := clock_of_not_ready (g := g) (i := i) hi.reset (s := s) (by simp [hst])
  have hf : s.encryptionOver = true := by
    rw [encryptionOver, h.encrypter.1.2.1]
    rfl
  have hb : s.bankId = d.bankId := by
    rw [← h.durable]
    rfl
  simp only [branch, hst, encrypt, hf, blink, if_true] at hm
  have hs := h.session
  simp only [Main.session, Session.mk.injEq] at hs
  obtain ⟨he, hd, hn, haa, hua, hch, hdd, hbl, hg, hto, hcu⟩ := hs
  have hal : (s.clock g i).noteAllocator =
      (NoteAllocator.clock ⟨false, true, d.stock, d.limits, low v⟩)^[35] a.stopped := by
    rw [Function.iterate_succ_apply', ← h.allocator, ← h.durable, ← h.amount, ← hi.reset]
    change NoteAllocator.clock ⟨_, s.startNoteAllocation, _, _, _⟩ _ = _
    rw [hn]
    rfl
  refine ⟨?_, ?_, ?_, clock_stop hi.reset hd⟩
  · exact {
      durable := by rw [hm]; exact h.durable
      enInput := by rw [hm]; exact h.enInput
      amount := by rw [hm]; exact h.amount
      addr := by rw [hm]; exact hi.addr
      timeCounter := by rw [hm]; exact tick_timeCounter_le h.timeCounter
      startEncrypt := by rw [hm]; rfl
      startNoteAllocation := by rw [hm]; exact hn
      cacheUpdateCount := by rw [hm]; exact hcu
      encrypter := Finished.clock ⟨33, le_rfl, h.encrypter.1⟩ hi.reset he
      allocator := hal }
  · rw [hm, ← hb, ← h.enInput]
    rfl
  · rw [hm]
    simp only [Main.session, tick, hd, hn, haa, hua, hch, hdd, hbl, hg, hto, hcu]
    rfl

theorem Entered.communicating (h : Entered g c d a v 35 s) (hi : i.Quiet c)
    (hb : d.bankId = bankBits v) (r : Nat → BitVec 8) :
    ∃ w ≤ g.N, Waiting g c d
      ((NoteAllocator.clock ⟨false, true, d.stock, d.limits, low v⟩)^[35] a.stopped) v r 0
      false false w (s.clock g i) := by
  obtain ⟨hu, hst, hs, hd⟩ := h.encrypted (g := g) hi
  rw [if_pos hb] at hst
  simp only [Main.session, Session.mk.injEq] at hs
  obtain ⟨-, hsd, -, haa, hua, hch, hdd, hbl, hg, hto, -⟩ := hs
  exact ⟨(s.clock g i).timeCounter, hu.timeCounter, { hu with
    state := hst
    collected := Main.Collected.zero hch
    account := haa
    admin := hua
    waited := by rw [waited, hto, Nat.zero_mul, Nat.zero_add]
    startDecrypt := hsd
    decrypter := hd
    notDispensed := hdd
    ledBlinkCounter := hbl
    timeGap := hg }⟩

theorem Underway.leave (h : Underway g c d a v s) (hs : s.systemState = .ethernet)
    (hr : i.debouncedReset = false) (hd : i.debouncedDone = true) :
    Underway g i.chanAddr d (NoteAllocator.clock ⟨false, true, d.stock, d.limits, low v⟩ a) v
        (s.clock g i) ∧ (s.clock g i).systemState = .ready := by
  have hm := clock_of_not_ready (g := g) hr (s := s) (by simp [hs])
  simp only [branch, hs, ethernet, hd, blink, if_true] at hm
  exact ⟨h.clock hr hm h.durable rfl, by rw [hm]; rfl⟩

theorem Underway.parked {j : AtmEdge} (h : Underway g c d a v s) (hs : s.systemState = .ready)
    (hi : i.Quiet c) (hj : j.Quiet c) (hil : i.debouncedLoadBankId = false)
    (his : i.debouncedStart = false) (hjl : j.debouncedLoadBankId = false)
    (hjs : j.debouncedStart = false) :
    Parked g c d (NoteAllocator.clock ⟨false, true, d.stock, d.limits, low v⟩ a)
      ((s.clock g i).clock g j) := by
  have hp := parked_of_ready hs h.timeCounter h.addr hi hj hil his hjl hjs
  have he : s.allocatorEdge = ⟨false, true, d.stock, d.limits, low v⟩ := by
    rw [← h.durable, ← h.amount, ← h.startNoteAllocation]
    rfl
  rwa [h.durable, h.allocator, he] at hp

theorem clock_communicating (hs : s.systemState = .communicating) (hr : i.debouncedReset = false) :
    let m := (status i s.toMain).collect 10 i
    ∃ l t x, (t = if s.timeCounter = g.N then s.timeOutCounter + 1 else s.timeOutCounter) ∧
      (m.checksumForBackendResponse = 0b11111111 → x = m.responseFromBackend) ∧
      (s.clock g i).toMain = tick g i { m with
        deInput := x
        ledOut := l
        timeOutCounter := t
        systemState := if t = 31 then .communicationLost
          else if m.checksumForBackendResponse = 0b11111111 then .decrypt
          else if Invalid i then .ready
          else .communicating } := by
  intro m
  have hm := clock_of_not_ready (g := g) hr (s := s) (by simp [hs])
  simp only [branch, hs] at hm
  have hb := branch_communicating (g := g) (i := i) hs
  generalize s.communicating g i = m' at hb hm
  cases hb with
  | communicating l a u r c t h ht hcol =>
    refine ⟨l, t, if c = 0b11111111 then r else s.deInput, ht, ?_, ?_⟩
    · intro hF
      have hmc : m = _ := hcol
      rw [hmc] at hF ⊢
      exact if_pos hF
    · rw [hm]
      have hmc : m = _ := hcol
      rw [hmc]
  | _ => simp_all

theorem timeOutCounter_ne {t : Nat}
    (hw : s.waited g + 1 < 31 * (g.N + 1))
    (ht : t = if s.timeCounter = g.N then s.timeOutCounter + 1 else s.timeOutCounter) :
    t ≠ 31 := by
  rintro rfl
  rw [waited] at hw
  split at ht
  · next hT =>
    rw [show s.timeOutCounter = 30 by omega, hT] at hw
    omega
  · rw [← ht] at hw
    omega

def TimesOut (g : Generics) (m : Main) : Prop := m.timeCounter = g.N ∧ m.timeOutCounter = 30

theorem waited_full (hle : s.timeCounter ≤ g.N) (hw : s.waited g + 1 = 31 * (g.N + 1)) :
    TimesOut g s.toMain := by
  rw [waited] at hw
  have hT : s.timeCounter = g.N := by
    rcases Nat.lt_or_eq_of_le hle with hlt | heq
    · have hdiv := congrArg (· % (g.N + 1)) hw
      simp only [Nat.add_assoc, Nat.mul_add_mod_self_right, Nat.mul_mod_left] at hdiv
      rw [Nat.mod_eq_of_lt (by omega)] at hdiv
      omega
    · exact heq
  have h31 : (s.timeOutCounter + 1) * (g.N + 1) = 31 * (g.N + 1) := by
    rw [Nat.add_mul]
    omega
  have := Nat.eq_of_mul_eq_mul_right (by omega) h31
  exact ⟨hT, by omega⟩

theorem Waiting.clock {r : Nat → BitVec 8} {acc adm acc' adm' : Bool} {k' w : Nat}
    (h : Waiting g c d a v r k acc adm w s) (hr : i.debouncedReset = false) (hk : k' < 8)
    (hst : status i s.toMain =
      { s.toMain with adequateCashInAccount := acc', userIsAdmin := adm' })
    (hcol : (s.collect 10 i).Collected r k') (hn : ¬ Invalid i) (hw : w + 1 < 31 * (g.N + 1)) :
    Waiting g i.chanAddr d (NoteAllocator.clock ⟨false, true, d.stock, d.limits, low v⟩ a) v r k'
      acc' adm' (w + 1) (s.clock g i) := by
  obtain ⟨l, t, x, ht, -, hm⟩ := clock_communicating (g := g) h.state hr
  obtain ⟨hres, hchk⟩ := collect_status i s.toMain
  have hcol' := hcol.congr hres hchk
  obtain ⟨r', c', hc⟩ := exists_collect 10 i (status i s.toMain)
  have hwait : s.timeOutCounter * (g.N + 1) + s.timeCounter = w := h.waited
  have ht31 : t ≠ 31 := timeOutCounter_ne (by rw [h.waited]; exact hw) ht
  have hF : ((status i s.toMain).collect 10 i).checksumForBackendResponse ≠ 0b11111111 :=
    hcol'.incomplete hk
  rw [if_neg ht31, if_neg hF, if_neg hn] at hm
  rw [hc, hst] at hm hcol'
  exact { h.toPending.clock hr hm h.durable rfl rfl with
    state := by rw [hm]; rfl
    collected := by rw [hm]; exact hcol'.congr rfl rfl
    account := by rw [hm]; rfl
    admin := by rw [hm]; rfl
    waited := by
      rw [Atm.waited, hm]
      simp only [tick]
      rw [ht, ← hwait]
      split
      · next hT =>
        rw [hT, Nat.add_mul]
        omega
      · omega
    startDecrypt := by rw [hm]; exact h.startDecrypt
    decrypter := clock_stop hr h.startDecrypt }

theorem status_of_not_valid (i : AtmEdge) (m : Main) (h : i.h2fValid = false) :
    status i m = m := by
  simp [status, h]

theorem status_of_ne (i : AtmEdge) (m : Main) (h : i.chanAddr ≠ 9) : status i m = m := by
  unfold status
  rw [if_neg fun h' => h h'.1]

theorem Waiting.idle {r : Nat → BitVec 8} {acc adm : Bool} {w : Nat}
    (h : Waiting g c d a v r k acc adm w s) (hr : i.debouncedReset = false) (hk : k < 8)
    (hv : i.h2fValid = false) (hw : w + 1 < 31 * (g.N + 1)) :
    Waiting g i.chanAddr d (NoteAllocator.clock ⟨false, true, d.stock, d.limits, low v⟩ a) v r k
      acc adm (w + 1) (s.clock g i) := by
  refine h.clock hr hk ?_ ?_ (fun hn => by simpa [hv] using hn.2.1) hw
  · rw [status_of_not_valid _ _ hv, ← h.account, ← h.admin]
  · rw [Main.collect_of_not_valid _ _ _ hv]
    exact h.collected

theorem Waiting.answer {r : Nat → BitVec 8} {acc adm : Bool} {w : Nat}
    (h : Waiting g c d a v r k acc adm w s) (hr : i.debouncedReset = false) (hk : k < 8)
    (hc : i.chanAddr = 9) (hv : i.h2fValid = true)
    (hb : i.h2fData = 1 ∨ i.h2fData = 2 ∨ i.h2fData = 3) (hw : w + 1 < 31 * (g.N + 1)) :
    Waiting g 9 d (NoteAllocator.clock ⟨false, true, d.stock, d.limits, low v⟩ a) v r k
      (if i.h2fData = 1 then true else if i.h2fData = 2 then false else acc)
      (decide (i.h2fData = 3)) (w + 1) (s.clock g i) := by
  have hcol : (s.collect 10 i).Collected r k := by
    rw [Main.collect_of_lt _ _ _ (by rw [hc]; decide)]
    exact h.collected
  have hn : ¬ Invalid i := by
    rintro ⟨-, -, h4⟩
    rcases hb with hb | hb | hb <;> rw [hb] at h4 <;> exact absurd h4 (by decide)
  rw [← hc]
  refine h.clock hr hk ?_ hcol hn hw
  rcases hb with hb | hb | hb
  · simp [status, hc, hv, hb]
  · simp [status, hc, hv, hb]
  · simp [status, hc, hv, hb, ← h.account]

theorem Waiting.receive {r : Nat → BitVec 8} {acc adm : Bool} {w : Nat}
    (h : Waiting g c d a v r k acc adm w s) (hr : i.debouncedReset = false) (hk : k < 7)
    (hc : i.chanAddr.toNat = 10 + k) (hv : i.h2fValid = true) (hb : i.h2fData = r k)
    (hw : w + 1 < 31 * (g.N + 1)) :
    Waiting g i.chanAddr d (NoteAllocator.clock ⟨false, true, d.stock, d.limits, low v⟩ a) v r
      (k + 1) acc adm (w + 1) (s.clock g i) := by
  have h9 : i.chanAddr ≠ 9 := fun h9 => by rw [h9] at hc; exact absurd hc (by simp; omega)
  refine h.clock hr (by omega) ?_ (h.collected.collect (by omega) hv hc hb) (fun hn => h9 hn.1) hw
  rw [status_of_ne _ _ h9, ← h.account, ← h.admin]

theorem Waiting.invalid {r : Nat → BitVec 8} {acc adm : Bool} {w : Nat}
    (h : Waiting g c d a v r k acc adm w s) (hr : i.debouncedReset = false) (hk : k < 8)
    (hi : Invalid i) (hw : w + 1 < 31 * (g.N + 1)) :
    Underway g i.chanAddr d (NoteAllocator.clock ⟨false, true, d.stock, d.limits, low v⟩ a) v
      (s.clock g i) ∧ (s.clock g i).systemState = .ready := by
  obtain ⟨l, t, x, ht, -, hm⟩ := clock_communicating (g := g) h.state hr
  have hcol : (s.collect 10 i).Collected r k := by
    rw [Main.collect_of_lt _ _ _ (by rw [hi.1]; decide)]
    exact h.collected
  obtain ⟨hres, hchk⟩ := collect_status i s.toMain
  have hF : ((status i s.toMain).collect 10 i).checksumForBackendResponse ≠ 0b11111111 :=
    (hcol.congr hres hchk).incomplete hk
  rw [if_neg (timeOutCounter_ne (by rw [h.waited]; exact hw) ht), if_neg hF,
    if_pos hi] at hm
  obtain ⟨acc', adm', hst⟩ := exists_status i s.toMain
  obtain ⟨r', c', hc⟩ := exists_collect 10 i (status i s.toMain)
  rw [hc, hst] at hm
  exact ⟨h.toUnderway.clock hr hm h.durable rfl, by rw [hm]; rfl⟩

structure Lost (g : Generics) (c : BitVec 7) (d : Durable) (a : NoteAllocator)
    (v : BitVec 64) (s : Atm) : Prop extends Pending g c d a v s where
  state : s.systemState = .communicationLost

theorem Waiting.timeout {r : Nat → BitVec 8} {acc adm : Bool} {w : Nat}
    (h : Waiting g c d a v r k acc adm w s) (hr : i.debouncedReset = false)
    (hv : i.h2fValid = false) (hw : w + 1 = 31 * (g.N + 1)) :
    Lost g i.chanAddr d (NoteAllocator.clock ⟨false, true, d.stock, d.limits, low v⟩ a) v
      (s.clock g i) := by
  obtain ⟨l, t, x, ht, -, hm⟩ := clock_communicating (g := g) h.state hr
  have hT := waited_full h.timeCounter (by rw [h.waited]; exact hw)
  have ht31 : t = 31 := by rw [ht, if_pos hT.1, hT.2]
  rw [if_pos ht31, status_of_not_valid _ _ hv, Main.collect_of_not_valid _ _ _ hv] at hm
  exact { h.toPending.clock hr hm h.durable rfl rfl with
    state := by rw [hm]; rfl }

/-! ### The edges of state 00011 -/

theorem reset_of_not_ready (h : (s.clock g i).systemState ≠ .ready) : i.debouncedReset = false := by
  by_contra hr
  refine h ?_
  have hm : (s.clock g i).toMain = tick g i s.reset := by
    simp only [clock, mainProcess, if_pos (show i.debouncedReset = true by simpa using hr)]
  rw [hm]
  rfl

theorem clock_encrypt (hs : s.systemState = .encrypt) (hr : i.debouncedReset = false) :
    ∃ l, (s.clock g i).toMain = tick g i { s.toMain with
      startEncrypt := true
      ledOut := l
      systemState := if s.encryptionOver then
          if s.bankId = bankBits s.enInput then .communicating else .ethernet
        else .encrypt } := by
  have hm := clock_of_not_ready (g := g) hr (s := s) (by simp [hs])
  simp only [branch, hs] at hm
  have hb := branch_encrypt (g := g) (i := i) hs
  generalize s.encrypt g = m' at hb hm
  cases hb with
  | encrypt l h => exact ⟨l, hm⟩
  | _ => simp_all

theorem communicating_stays (hs : s.systemState = .communicating)
    (hn : (s.clock g i).systemState = .communicating) :
    (s.clock g i).responseFromBackend = (s.collect 10 i).responseFromBackend ∧
      (s.clock g i).checksumForBackendResponse = (s.collect 10 i).checksumForBackendResponse ∧
      (s.collect 10 i).checksumForBackendResponse ≠ 0b11111111 ∧ ¬ Invalid i ∧
      (s.clock g i).cacheMode = s.cacheMode := by
  obtain ⟨l, t, x, -, -, hm⟩ := clock_communicating (g := g) hs
    (reset_of_not_ready (g := g) (s := s) (by rw [hn]; decide))
  obtain ⟨hr, hc⟩ := collect_status i s.toMain
  rw [hm] at hn
  refine ⟨?_, ?_, ?_, ?_, ?_⟩
  · rw [hm, ← hr]; rfl
  · rw [hm, ← hc]; rfl
  · intro hF
    rw [← hc] at hF
    simp only [tick, hF] at hn
    split_ifs at hn
  · intro hI
    simp only [tick, hI] at hn
    split_ifs at hn
  · obtain ⟨a, u, hst⟩ := exists_status i s.toMain
    obtain ⟨r, c, hcol⟩ := exists_collect 10 i (status i s.toMain)
    rw [hm, hcol, hst]
    rfl

theorem communicating_accepts (hs : s.systemState = .communicating)
    (hn : (s.clock g i).systemState = .decrypt) :
    (s.clock g i).responseFromBackend = (s.collect 10 i).responseFromBackend ∧
      (s.clock g i).cacheMode = s.cacheMode ∧
      (s.collect 10 i).checksumForBackendResponse = 0b11111111 := by
  obtain ⟨l, t, x, -, -, hm⟩ := clock_communicating (g := g) hs
    (reset_of_not_ready (g := g) (s := s) (by rw [hn]; decide))
  obtain ⟨hr, hc⟩ := collect_status i s.toMain
  rw [hm] at hn
  refine ⟨?_, ?_, ?_⟩
  · rw [hm, ← hr]; rfl
  · obtain ⟨a, u, hst⟩ := exists_status i s.toMain
    obtain ⟨r, c, hcol⟩ := exists_collect 10 i (status i s.toMain)
    rw [hm, hcol, hst]
    rfl
  · rw [← hc]
    by_contra hF
    simp only [tick, hF, if_false] at hn
    split_ifs at hn

theorem valid_of_collect (h : (s.collect 10 i).checksumForBackendResponse ≠
    s.checksumForBackendResponse) :
    i.h2fValid = true ∧ 10 ≤ i.chanAddr.toNat ∧ i.chanAddr.toNat < 18 := by
  by_contra hc
  refine h ?_
  rw [Main.collect, if_neg hc]

end Atm

end AtmController.Frontend
