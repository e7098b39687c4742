import AtmController.Frontend.AnswerTiming

namespace AtmController.Frontend

open Slice

namespace NoteAllocator

variable {i : AllocatorEdge} {a : NoteAllocator} {n : Nat}

def WorkedFor (i : AllocatorEdge) (n : Nat) (a : NoteAllocator) : Prop :=
  ∃ m c, n ≤ m ∧ c.systemState = .initial ∧ c.binarysearchStart = false ∧ a = (clock i)^[m] c

theorem WorkedFor.clock (h : WorkedFor i n a) : WorkedFor i (n + 1) (clock i a) := by
  obtain ⟨m, c, hm, hc, hb, rfl⟩ := h
  exact ⟨m + 1, c, by omega, hc, hb, (Function.iterate_succ_apply' _ _ _).symm⟩

theorem WorkedFor.mono {m : Nat} (h : WorkedFor i n a) (hm : m ≤ n) : WorkedFor i m a := by
  obtain ⟨k, c, hk, h⟩ := h
  exact ⟨k, c, hm.trans hk, h⟩

theorem WorkedFor.finished (h : WorkedFor i n a) (hr : i.reset = false) (hs : i.start = true)
    (hn : 42 ≤ n) : Finished i a := by
  obtain ⟨m, c, hm, hc, hb, rfl⟩ := h
  exact (finished_iff hr hs hc hb m).mpr ((allocationTime_le i).trans (hn.trans hm))

theorem WorkedFor.allocationPossible (h : WorkedFor i n a) (hr : i.reset = false)
    (hs : i.start = true) (hn : 42 ≤ n) : a.allocationPossible = decide (Granted i) :=
  (h.finished hr hs hn).allocationPossible

theorem clock_binarysearchStart (hr : i.reset = false)
    (h : a.systemState = .initial ∨ i.start = false) :
    (clock i a).binarysearchStart = a.binarysearchStart := by
  rcases h with h | h
  · cases hs : i.start <;> simp [NoteAllocator.clock, hr, hs, h]
  · simp [NoteAllocator.clock, hr, h]

end NoteAllocator

/-- The variables that a status byte sets. -/
abbrev Main.flags (m : Main) : Bool × Bool := (m.adequateCashInAccount, m.userIsAdmin)

namespace Atm

open Main Cipher NoteAllocator

variable {g : Generics} {d : Durable} {v x : BitVec 64} {r : Nat → BitVec 8} {k n : Nat}
  {acc adm : Bool} {i : AtmEdge} {s : Atm} {m : Main}

structure ComponentsInv (s : Atm) : Prop where
  encrypter : s.EncrypterInv s.encrypter
  decrypter : s.DecrypterInv s.decrypter
  allocator : s.AllocatorInv s.noteAllocator
  fresh : s.FreshInv

theorem ComponentsInv.clock (h : s.ComponentsInv) : (s.clock g i).ComponentsInv :=
  ⟨encrypterInv_clock h.encrypter, decrypterInv_clock h.decrypter, allocatorInv_clock h.allocator,
    freshInv_clock h.fresh⟩

theorem componentsInv_of_ready (hs : s.systemState = .ready) : s.ComponentsInv := by
  constructor
  · simp only [EncrypterInv, hs]
  · simp only [DecrypterInv, hs]
  · simp only [AllocatorInv, hs]
  · simp only [FreshInv, hs]

theorem exists_branch (hr : i.debouncedReset = false) (hs : s.systemState ≠ .ready) :
    ∃ m, Branch g i s m ∧ (s.clock g i).toMain = tick g i m :=
  ⟨_, branch_cases g i s, clock_of_not_ready hr hs⟩

abbrev asks (d : Durable) (v : BitVec 64) : AllocatorEdge :=
  ⟨false, true, d.stock, d.limits, low v⟩

/-! ### Up to the question -/

structure Preparing (d : Durable) (s : Atm) : Prop extends s.ComponentsInv where
  state : s.systemState = .takingInput ∨ s.systemState = .noteAllocation ∨
    s.systemState = .encrypt
  durable : s.durable = d
  search : s.systemState ≠ .encrypt → s.noteAllocator.binarysearchStart = false
  timing : s.TimingInv s.encrypter s.noteAllocator

/-- The backend is asked for `v`; `k` bytes of the reply `r` have arrived, and the allocator has
worked for `n` edges. -/
structure Awaiting (d : Durable) (v : BitVec 64) (n : Nat) (r : Nat → BitVec 8) (k : Nat)
    (s : Atm) : Prop extends s.ComponentsInv where
  state : s.systemState = .communicating
  durable : s.durable = d
  enInput : s.enInput = v
  bank : d.bankId = bankBits v
  collected : s.Collected r k
  allocated : WorkedFor (asks d v) n s.noteAllocator

/-- Another bank's transaction. -/
structure Foreign (s : Atm) : Prop where
  state : s.systemState = .ethernet ∨ s.systemState = .ready
  bank : s.bankId ≠ bankBits s.enInput

theorem Preparing.begin (hs : s.systemState = .ready) (hm : s.cacheMode = false)
    (ha : s.noteAllocator.systemState = .initial) (hb : s.noteAllocator.binarysearchStart = false)
    (hr : i.debouncedReset = false) (hn : (s.clock g i).systemState = .takingInput) :
    Preparing { s.durable with bankId := (s.clock g i).bankId } (s.clock g i) := by
  have hsearch : (s.clock g i).noteAllocator.binarysearchStart = false := by
    change (NoteAllocator.clock ⟨i.debouncedReset, s.startNoteAllocation, s.stock, s.limits,
      s.amountToBeAllocated⟩ s.noteAllocator).binarysearchStart = false
    rw [clock_binarysearchStart hr (.inl ha), hb]
  refine { (componentsInv_of_ready hs).clock with
    state := .inl hn
    durable := ?_
    search := fun _ => hsearch
    timing := by simp only [TimingInv, hn] }
  have he := clock_cases g i s
  change (s.clock g i).toMain.durable = { s.durable with bankId := (s.clock g i).toMain.bankId }
  generalize (s.clock g i).toMain = m at he
  cases he with
  | reset hr' => exact Bool.noConfusion (hr.symm.trans hr')
  | reconnect _ hc => exact Bool.noConfusion (hm.symm.trans hc.1)
  | branch m _ _ hb =>
    cases hb with
    | ready b l h => rfl
    | _ => simp_all

theorem Preparing.encrypted (h : Preparing d s) (hs : s.systemState = .encrypt)
    (ho : s.encryptionOver = true) (hr : i.debouncedReset = false) (r : Nat → BitVec 8) :
    Awaiting d (s.clock g i).enInput 35 r 0 (s.clock g i) ∨ Foreign (s.clock g i) := by
  obtain ⟨l, hm⟩ := clock_encrypt (g := g) hs hr
  have hd : (s.clock g i).durable = d := by
    rw [hm]
    exact h.durable
  by_cases hb : s.bankId = bankBits s.enInput
  · have hst : (s.clock g i).systemState = .communicating := by
      rw [hm]
      simp only [tick, ho, hb, if_true]
    have ha := h.allocator
    have hf := h.fresh
    have ht := h.timing
    simp only [AllocatorInv, FreshInv, TimingInv, hs] at ha hf ht
    obtain ⟨n, hn, hw, c, hc, hbs, hac⟩ := ht
    obtain ⟨hse, h33⟩ := hw.finished ho
    rw [hse, if_pos rfl] at hac
    have hal : (s.clock g i).noteAllocator = NoteAllocator.clock s.allocatorEdge s.noteAllocator :=
      (clock_of_encrypted hs ho hr hb).2.2
    have hedge : s.allocatorEdge = asks d (s.clock g i).enInput := by
      rw [allocatorEdge, ha.1, ha.2.1, ← h.durable, hm]
      rfl
    refine .inl { h.toComponentsInv.clock with
      state := hst
      durable := hd
      enInput := rfl
      bank := ?_
      collected := .zero ?_
      allocated := ?_ }
    · rw [← h.durable, hm]
      exact hb
    · rw [hm]
      exact hf.1
    · rw [hal, ← hedge, hac]
      exact ⟨n + 1 + 1, c, by omega, hc, hbs, (Function.iterate_succ_apply' _ _ _).symm⟩
  · refine .inr ⟨.inl ?_, ?_⟩
    · rw [hm]
      simp only [tick, ho, hb, if_true, if_false]
    · rw [hm]
      exact hb

theorem Preparing.clock (h : Preparing d s) (hr : i.debouncedReset = false)
    (r : Nat → BitVec 8) : Preparing d (s.clock g i) ∨
      Awaiting d (s.clock g i).enInput 35 r 0 (s.clock g i) ∨ Foreign (s.clock g i) := by
  have hready : s.systemState ≠ .ready := by
    rcases h.state with hs | hs | hs <;> rw [hs] <;> decide
  by_cases ho : s.systemState = .encrypt ∧ s.encryptionOver = true
  · exact .inr (h.encrypted ho.1 ho.2 hr r)
  have htiming := timingInv_clock (g := g) h.encrypter h.allocator h.timing
    (fun hl => by simpa [hl.2] using h.search (by rw [hl.1]; decide)) (i := i)
    fun hp => ho ⟨hp.1, hp.2.1⟩
  have hsearch (hs : s.systemState = .takingInput ∨ s.systemState = .noteAllocation) :
      (s.clock g i).noteAllocator.binarysearchStart = false := by
    have hst : s.startNoteAllocation = false := by
      have ha := h.allocator
      rcases hs with hs | hs <;> simp only [AllocatorInv, hs] at ha <;> exact ha.1
    refine (clock_binarysearchStart hr (.inr hst)).trans (h.search ?_)
    rcases hs with hs | hs <;> rw [hs] <;> decide
  have hstep : ((s.clock g i).systemState = .takingInput ∨
      (s.clock g i).systemState = .noteAllocation ∨ (s.clock g i).systemState = .encrypt) ∧
      (s.clock g i).durable = s.durable ∧
      ((s.clock g i).systemState ≠ .encrypt → s.systemState = .takingInput) := by
    obtain ⟨m, hb, hm⟩ := exists_branch (g := g) hr hready
    rw [hm]
    have hst := h.state
    cases hb with
    | key l h => exact ⟨.inl h, rfl, fun _ => h⟩
    | lastKey l h => exact ⟨.inr (.inl rfl), rfl, fun _ => h⟩
    | noKey b l h => exact ⟨.inl h, rfl, fun _ => h⟩
    | noteAllocation l h => exact ⟨.inr (.inr rfl), rfl, fun hn => absurd rfl hn⟩
    | encrypt l h =>
      have ho : s.encryptionOver = false := by simpa [h] using ho
      have hq : (if s.encryptionOver = true then
          if s.bankId = bankBits s.enInput then SystemState.communicating else .ethernet
        else .encrypt) = .encrypt := by rw [ho]; rfl
      exact ⟨.inr (.inr hq), rfl, fun hn => absurd hq hn⟩
    | _ => simp_all
  exact .inl { h.toComponentsInv.clock with
    state := hstep.1
    durable := hstep.2.1.trans h.durable
    search := fun hn => hsearch (.inl (hstep.2.2 hn))
    timing := htiming }

theorem Foreign.clock (h : Foreign s) (hs : s.systemState ≠ .ready)
    (hr : i.debouncedReset = false) : Foreign (s.clock g i) := by
  have hst := h.state.resolve_right hs
  obtain ⟨m, hb, hm⟩ := exists_branch (g := g) hr hs
  cases hb with
  | ethernet l _ =>
    refine ⟨?_, by rw [hm]; exact h.bank⟩
    rw [hm]
    cases i.debouncedDone with
    | false => exact .inl rfl
    | true => exact .inr rfl
  | _ => simp_all

/-! ### While the backend is asked -/

theorem Awaiting.enOutput (h : Awaiting d v n r k s) : s.enOutput = encipher v := by
  have he := h.encrypter
  simp only [EncrypterInv, h.state] at he
  rw [← h.enInput]
  exact he.2.output.trans (result_encrypt _)

theorem clock_in_time (hs : s.systemState = .communicating) (hr : i.debouncedReset = false)
    (ht : (s.clock g i).systemState ≠ .communicationLost) :
    let m := (status i s.toMain).collect 10 i
    ∃ l t x, (m.checksumForBackendResponse = 0b11111111 → x = m.responseFromBackend) ∧
      (s.clock g i).toMain = tick g i { m with
        deInput := x
        ledOut := l
        timeOutCounter := t
        systemState := if m.checksumForBackendResponse = 0b11111111 then .decrypt
          else if Invalid i then .ready
          else .communicating } := by
  intro m
  obtain ⟨l, t, x, -, hx, hm⟩ := clock_communicating (g := g) hs hr
  have h31 : t ≠ 31 := fun h31 => ht (by rw [hm]; simp only [tick, h31, if_true])
  rw [if_neg h31] at hm
  exact ⟨l, t, x, hx, hm⟩

theorem Awaiting.allocated_clock (h : Awaiting d v n r k s) (hr : i.debouncedReset = false) :
    WorkedFor (asks d v) (n + 1) (s.clock g i).noteAllocator := by
  have ha := h.allocator
  simp only [AllocatorInv, h.state] at ha
  have hedge : s.allocatorEdge = asks d v := by
    rw [allocatorEdge, ha.1, ha.2.1, ← h.durable, ← h.enInput]
    rfl
  have hal : (s.clock g i).noteAllocator = NoteAllocator.clock s.allocatorEdge s.noteAllocator := by
    change NoteAllocator.clock ⟨i.debouncedReset, _, _, _, _⟩ _ = _
    rw [hr]
    rfl
  rw [hal, hedge]
  exact h.allocated.clock

theorem Awaiting.mono {m : Nat} (h : Awaiting d v n r k s) (hm : m ≤ n) : Awaiting d v m r k s :=
  { h with allocated := h.allocated.mono hm }

theorem Awaiting.any (h : Awaiting d v n r 0 s) (r' : Nat → BitVec 8) : Awaiting d v n r' 0 s :=
  { h with collected := ⟨h.collected.present, fun j hj => absurd hj (Nat.not_lt_zero j)⟩ }

theorem Awaiting.clock (h : Awaiting d v n r k s) (hr : i.debouncedReset = false)
    (ht : (s.clock g i).systemState ≠ .communicationLost) {k' : Nat} (hk : k' < 8)
    (hcol : (s.collect 10 i).Collected r k') (hn : ¬ Invalid i) :
    Awaiting d v (n + 1) r k' (s.clock g i) ∧
      (s.clock g i).flags = (status i s.toMain).flags := by
  obtain ⟨l, t, x, -, hm⟩ := clock_in_time h.state hr ht
  obtain ⟨hres, hchk⟩ := collect_status i s.toMain
  have hcol' := hcol.congr hres hchk
  rw [if_neg (hcol'.incomplete hk), if_neg hn] at hm
  obtain ⟨a, u, hst⟩ := exists_status i s.toMain
  obtain ⟨r', c', hc⟩ := exists_collect 10 i (status i s.toMain)
  rw [hc, hst, if_neg hn] at hm hcol'
  refine ⟨{ h.toComponentsInv.clock with
    state := by rw [hm]; rfl
    durable := by rw [hm]; exact h.durable
    enInput := by rw [hm]; exact h.enInput
    bank := h.bank
    collected := by rw [hm]; exact hcol'.congr rfl rfl
    allocated := h.allocated_clock hr }, ?_⟩
  rw [hm, hst]
  rfl

theorem Awaiting.invalid (h : Awaiting d v n r k s) (hr : i.debouncedReset = false)
    (ht : (s.clock g i).systemState ≠ .communicationLost) (hk : k < 8) (hi : Invalid i) :
    (s.clock g i).systemState = .ready ∧ (s.clock g i).durable = d ∧ (s.clock g i).enInput = v := by
  obtain ⟨l, t, x, -, hm⟩ := clock_in_time h.state hr ht
  have hcol : (s.collect 10 i).Collected r k := by
    rw [Main.collect_of_lt _ _ _ (by rw [hi.1]; decide)]
    exact h.collected
  obtain ⟨hres, hchk⟩ := collect_status i s.toMain
  rw [if_neg ((hcol.congr hres hchk).incomplete hk), if_pos hi] at hm
  obtain ⟨a, u, hst⟩ := exists_status i s.toMain
  obtain ⟨r', c', hc⟩ := exists_collect 10 i (status i s.toMain)
  rw [hc, hst] at hm
  exact ⟨by rw [hm]; rfl, by rw [hm]; exact h.durable, by rw [hm]; exact h.enInput⟩

/-! ### Once the reply is there -/

structure Replied (d : Durable) (v x : BitVec 64) (acc adm : Bool) (s : Atm) : Prop
    extends s.ComponentsInv where
  durable : s.durable = d
  enInput : s.enInput = v
  deInput : s.deInput = x
  flags : s.flags = (acc, adm)
  fresh' : s.dispensingDoneAlready = false
  finished : NoteAllocator.Finished (asks d v) s.noteAllocator

theorem Awaiting.lastByte (h : Awaiting d v n (byte x) k s) (hr : i.debouncedReset = false)
    (ht : (s.clock g i).systemState ≠ .communicationLost)
    (hcol : (s.collect 10 i).Collected (byte x) 8) (h9 : i.chanAddr ≠ 9) (hn : 42 ≤ n)
    (hf : s.flags = (acc, adm)) :
    Replied d v x acc adm (s.clock g i) ∧ (s.clock g i).systemState = .decrypt := by
  obtain ⟨l, t, y, hy, hm⟩ := clock_in_time h.state hr ht
  rw [status_of_ne _ _ h9] at hm hy
  have hF := hcol.complete
  have hyx : y = x := (hy hF).trans (ext_bytes (m := 8) fun j hj => hcol.bytes j hj)
  have hfr := h.fresh
  simp only [FreshInv, h.state] at hfr
  rw [if_pos hF, hyx] at hm
  obtain ⟨r', c', hc⟩ := exists_collect 10 i s.toMain
  rw [hc] at hm
  refine ⟨{ h.toComponentsInv.clock with
    durable := by rw [hm]; exact h.durable
    enInput := by rw [hm]; exact h.enInput
    deInput := by rw [hm]; rfl
    flags := by rw [hm]; exact hf
    fresh' := by rw [hm]; exact hfr
    finished := (h.allocated_clock hr).finished rfl rfl (by omega) }, by rw [hm]; rfl⟩

theorem Replied.deOutput (h : Replied d v x acc adm s) (hm : d.cacheMode = false)
    (hs : s.systemState = .dispensingCash) : s.deOutput = decipher x := by
  have hd := h.decrypter
  simp only [DecrypterInv, hs] at hd
  have hc : s.cacheMode = false := (congrArg Durable.cacheMode h.durable).trans hm
  obtain ⟨-, hf⟩ := hd.resolve_right (by simp [hc])
  rw [← h.deInput]
  exact hf.output.trans (result_decrypt _)

theorem dispenseCache_cache1 (hm : s.cacheMode = false) :
    s.dispenseCache.cache1 = s.frontRecord (low s.deOutput) := by
  simp only [dispenseCache, hm, Bool.false_eq_true, if_false]
  split_ifs <;> rfl

theorem refuseCache_cache1 (hm : s.cacheMode = false) :
    s.refuseCache.cache1 = s.frontRecord (low s.deOutput) := by
  simp only [refuseCache, hm, Bool.false_eq_true, if_false]
  split_ifs <;> rfl

def Leaves (i : AllocatorEdge) (stock : Notes) : Prop :=
  ∃ n₁ n₂ n₃ n₄, Payment i i.amountAsked.toNat n₁ n₂ n₃ n₄ ∧
    stock.n2000.toNat + n₁ = i.stock.n2000.toNat ∧ stock.n1000.toNat + n₂ = i.stock.n1000.toNat ∧
    stock.n500.toNat + n₃ = i.stock.n500.toNat ∧ stock.n100.toNat + n₄ = i.stock.n100.toNat

/-- What the reply `x` makes of the registers: an administrator loads the stock, a user gets notes
or not and is put in front of the cache. -/
def Comes (d : Durable) (v x : BitVec 64) (acc adm : Bool) (d' : Durable) : Prop :=
  if adm then d' = { d with stock := noteBytes (decipher x) }
  else d'.cache.cache1 = join (high v) (low (decipher x)) ∧
    if acc = true ∧ Granted (asks d v) then Leaves (asks d v) d'.stock else d'.stock = d.stock

inductive Concluding (d : Durable) (v x : BitVec 64) (acc adm : Bool) (s : Atm) : Prop
  | deciphering : Replied d v x acc adm s → s.systemState = .decrypt →
      Concluding d v x acc adm s
  | loading (stock) : s.ComponentsInv → s.systemState = .loadingCash → adm = true →
      s.durable = { d with stock := stock } → s.enInput = v → s.deInput = x →
      Concluding d v x acc adm s
  | dispensing : Replied d v x acc adm s → s.systemState = .dispensingCash → adm = false →
      Concluding d v x acc adm s
  | concluded : Comes d v x acc adm s.durable → s.enInput = v →
      s.systemState = .dispensingCash ∧ s.dispensingDoneAlready = true ∨
        s.systemState = .dummy ∨ s.systemState = .ready → Concluding d v x acc adm s

theorem Concluding.state (h : Concluding d v x acc adm s) :
    s.systemState = .decrypt ∨ s.systemState = .loadingCash ∨ s.systemState = .dispensingCash ∨
      s.systemState = .dummy ∨ s.systemState = .ready := by
  cases h with
  | deciphering _ hs => exact .inl hs
  | loading _ _ hs => exact .inr (.inl hs)
  | dispensing _ hs => exact .inr (.inr (.inl hs))
  | concluded _ _ hs =>
    rcases hs with ⟨hs, -⟩ | hs | hs
    · exact .inr (.inr (.inl hs))
    · exact .inr (.inr (.inr (.inl hs)))
    · exact .inr (.inr (.inr (.inr hs)))

theorem Replied.clock (h : Replied d v x acc adm s) (hs : s.systemState = .decrypt)
    (hr : i.debouncedReset = false) : Concluding d v x acc adm (s.clock g i) := by
  obtain ⟨m, hb, hm⟩ := exists_branch (g := g) hr (s := s) (by simp [hs])
  have hci := h.toComponentsInv.clock (g := g) (i := i)
  have hfin : NoteAllocator.Finished (asks d v) (s.clock g i).noteAllocator := by
    have ha := h.allocator
    simp only [AllocatorInv, hs] at ha
    have hedge : s.allocatorEdge = asks d v := by
      rw [allocatorEdge, ha.1, ha.2.1, ← h.durable, ← h.enInput]
      rfl
    change NoteAllocator.Finished _ (NoteAllocator.clock ⟨i.debouncedReset, _, _, _, _⟩ _)
    rw [hr]
    change NoteAllocator.Finished _ (NoteAllocator.clock s.allocatorEdge _)
    rw [hedge]
    exact h.finished.iterate rfl rfl 1
  cases hb with
  | decrypt l _ =>
    have hrep : Replied d v x acc adm (s.clock g i) := { hci with
      durable := by rw [hm]; exact h.durable
      enInput := by rw [hm]; exact h.enInput
      deInput := by rw [hm]; exact h.deInput
      flags := by rw [hm]; exact h.flags
      fresh' := by rw [hm]; exact h.fresh'
      finished := hfin }
    have hst : (s.clock g i).systemState = (if s.decryptionOver = true then
        if s.userIsAdmin = true then SystemState.loadingCash else .dispensingCash
      else .decrypt) := by rw [hm]; rfl
    have hadm : s.userIsAdmin = adm := congrArg Prod.snd h.flags
    cases ho : s.decryptionOver with
    | false => exact .deciphering hrep (by rw [hst, ho]; rfl)
    | true =>
      rw [ho, if_pos rfl, hadm] at hst
      cases adm with
      | false => exact .dispensing hrep hst rfl
      | true => exact .loading d.stock hci hst rfl hrep.durable hrep.enInput hrep.deInput
  | _ => simp_all

theorem concluding_of_loading {stock : Notes} (h : s.ComponentsInv)
    (hs : s.systemState = .loadingCash) (hd : s.durable = { d with stock := stock })
    (hv : s.enInput = v) (hx : s.deInput = x) (hr : i.debouncedReset = false) :
    Concluding d v x acc true (s.clock g i) := by
  obtain ⟨m, hb, hm⟩ := exists_branch (g := g) hr (s := s) (by simp [hs])
  have hde : s.deOutput = decipher x := by
    have hdi := h.decrypter
    simp only [DecrypterInv, hs] at hdi
    rw [← hx]
    exact hdi.2.output.trans (result_decrypt _)
  cases hb with
  | loadingCash l k q _ hq =>
    have hd' : (s.clock g i).durable = { d with stock := noteBytes (decipher x) } := by
      rw [hm, ← hde]
      exact congrArg (fun e : Durable => { e with stock := noteBytes s.deOutput }) hd
    have hv' : (s.clock g i).enInput = v := by rw [hm]; exact hv
    rcases hq with rfl | rfl
    · exact .loading _ h.clock (by rw [hm]; rfl) rfl hd' hv' (by rw [hm]; exact hx)
    · exact .concluded (by rw [Comes, if_pos rfl]; exact hd') hv' (.inr (.inl (by rw [hm]; rfl)))
  | _ => simp_all

theorem leaves_allotment {e : AllocatorEdge} {n : Notes} (hg : Granted e) (hn : n = allotment e) :
    Leaves e ⟨e.stock.n2000 - n.n2000, e.stock.n1000 - n.n1000, e.stock.n500 - n.n500,
      e.stock.n100 - n.n100⟩ := by
  obtain ⟨h31, -, hz⟩ := hg
  rw [getLsbD_31_iff] at h31
  have hp := payment_allotted hz
  rw [lowAmount_of_lt h31] at hp
  have hsub {b n : BitVec 8} {k l : Nat} (hk : n.toNat = k) (hle : k ≤ min b.toNat l) :
      (b - n).toNat + k = b.toNat := by
    subst hk
    rw [BitVec.toNat_sub_of_le (hle.trans (min_le_left _ _))]
    exact Nat.sub_add_cancel (hle.trans (min_le_left _ _))
  have ho := toNat_allotment e
  rw [← hn] at ho
  exact ⟨_, _, _, _, hp, hsub (ho .n2000) hp.n2000, hsub (ho .n1000) hp.n1000,
    hsub (ho .n500) hp.n500, hsub (ho .n100) hp.n100⟩

theorem Replied.settle (h : Replied d v x acc false s) (hm : d.cacheMode = false)
    (hs : s.systemState = .dispensingCash) (hr : i.debouncedReset = false) :
    Concluding d v x acc false (s.clock g i) := by
  obtain ⟨m, hb, hc⟩ := exists_branch (g := g) hr (s := s) (by simp [hs])
  have hde := h.deOutput hm hs
  have hcm : s.cacheMode = false := (congrArg Durable.cacheMode h.durable).trans hm
  have hacc : s.adequateCashInAccount = acc := congrArg Prod.fst h.flags
  have hatm : s.adequateCashInAtm = decide (Granted (asks d v)) := h.finished.allocationPossible
  have hrec : s.frontRecord (low s.deOutput) = join (high v) (low (decipher x)) := by
    rw [frontRecord, h.enInput, hde]
  cases hb with
  | dispense l n k b q _ hq _ ha₁ ha₂ =>
    have hg : Granted (asks d v) := of_decide_eq_true (hatm.symm.trans ha₂)
    have hstock : s.stock = (asks d v).stock := congrArg Durable.stock h.durable
    refine .concluded ?_ (by rw [hc]; exact h.enInput) ?_
    · rw [Comes, if_neg Bool.false_ne_true, if_pos ⟨hacc.symm.trans ha₁, hg⟩, hc]
      refine ⟨(dispenseCache_cache1 hcm).trans hrec, ?_⟩
      change Leaves _ s.removeNotes
      rw [removeNotes, hstock]
      exact leaves_allotment hg h.finished.out
    · rw [hc]
      rcases hq with rfl | rfl
      · exact .inl ⟨rfl, rfl⟩
      · exact .inr (.inl rfl)
  | refuse l n k q _ hq _ ha =>
    have hn : ¬ (acc = true ∧ Granted (asks d v)) := by
      rwa [hacc, hatm, decide_eq_true_iff] at ha
    refine .concluded ?_ (by rw [hc]; exact h.enInput) ?_
    · rw [Comes, if_neg Bool.false_ne_true, if_neg hn, hc]
      exact ⟨(refuseCache_cache1 hcm).trans hrec,
        (congrArg Durable.stock h.durable : s.stock = d.stock)⟩
    · rw [hc]
      rcases hq with rfl | rfl
      · exact .inl ⟨rfl, rfl⟩
      · exact .inr (.inl rfl)
  | dispensed l n k b j q _ _ hd => exact Bool.noConfusion (h.fresh'.symm.trans hd)
  | _ => simp_all

theorem concluding_of_concluded (h : Comes d v x acc adm s.durable) (hv : s.enInput = v)
    (hs : s.systemState = .dispensingCash ∧ s.dispensingDoneAlready = true ∨
      s.systemState = .dummy) (hr : i.debouncedReset = false) :
    Concluding d v x acc adm (s.clock g i) := by
  obtain ⟨m, hb, hc⟩ := exists_branch (g := g) hr (s := s)
    (by rcases hs with ⟨hs, -⟩ | hs <;> simp [hs])
  cases hb with
  | dispensed l n k b j q _ hq hd =>
    refine .concluded (by rw [hc]; exact h) (by rw [hc]; exact hv) ?_
    rw [hc]
    rcases hq with rfl | rfl
    · exact .inl ⟨rfl, hd⟩
    · exact .inr (.inl rfl)
  | dummy _ =>
    refine .concluded (by rw [hc]; exact h) (by rw [hc]; exact hv) (.inr ?_)
    rw [hc]
    cases i.debouncedDone with
    | false => exact .inl rfl
    | true => exact .inr rfl
  | _ => simp_all

theorem Concluding.clock (h : Concluding d v x acc adm s) (hm : d.cacheMode = false)
    (hs : s.systemState ≠ .ready) (hr : i.debouncedReset = false) :
    Concluding d v x acc adm (s.clock g i) := by
  cases h with
  | deciphering h hst => exact h.clock hst hr
  | loading stock h hst ha hd hv hx =>
    subst ha
    exact concluding_of_loading h hst hd hv hx hr
  | dispensing h hst ha =>
    subst ha
    exact h.settle hm hst hr
  | concluded h hv hst =>
    exact concluding_of_concluded h hv
      (hst.imp_right fun h => h.resolve_right hs) hr

end Atm

end AtmController.Frontend
