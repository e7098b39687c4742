import AtmController.Backend.Settling
import AtmController.Frontend.Rotation
import AtmController.System.Dialogue
import AtmController.System.ReplyIntegrity

namespace AtmController.System

open Clocked Slice Backend Frontend Frontend.Atm Frontend.TopLevel

namespace Sys

variable {g : Generics} {bankID : BitVec 5} {c : Cycle} {s : Sys} {n : Nat}

/-! ### The host between two rounds -/

/-- The host is in its first poll, or its last access is at most `n` cycles ago. -/
def Calm (n : Nat) (s : Sys) : Prop :=
  s.selected = true ∧ s.host.pc = .head ∨
    s.selected = false ∧ s.gap ≤ n ∧ ¬ s.host.pc.Exchanging

theorem Calm.not_exchanging (h : s.Calm n) : ¬ s.host.pc.Exchanging := by
  rcases h with ⟨-, hpc⟩ | ⟨-, -, hx⟩
  · rw [hpc]
    exact not_false
  · exact hx

theorem Calm.mono {m : Nat} (h : s.Calm n) (hm : n ≤ m) : s.Calm m :=
  h.imp_right fun ⟨hs, hg, hx⟩ => ⟨hs, hg.trans hm, hx⟩

theorem Calm.clock (h : s.Calm n) (he : s.Enabled c) (hn : n < 100) :
    (s.clock g bankID c).Calm (n + 1) := by
  unfold Enabled at he
  unfold Calm Sys.clock
  rcases h with ⟨hs, hpc⟩ | ⟨hs, hg, hx⟩
  · cases hact : c.act with
    | idle => exact .inl ⟨hs, hpc⟩
    | transfer =>
      refine .inr ⟨rfl, Nat.zero_le _, ?_⟩
      simp only [Host.complete, hpc]
      split_ifs <;> exact not_false
    | _ =>
      rw [hact] at he
      exact Bool.noConfusion (hs.symm.trans he.1)
  · cases hact : c.act with
    | idle => exact .inr ⟨hs, Nat.succ_le_succ hg, hx⟩
    | select =>
      rw [hact] at he
      exact absurd he.2.1 (by omega)
    | transfer =>
      rw [hact] at he
      exact Bool.noConfusion (hs.symm.trans he)
    | stop => exact .inr ⟨hs, Nat.succ_le_succ hg, not_false⟩
    | restart => exact .inr ⟨hs, Nat.zero_le _, not_false⟩

theorem exists_holds (g : Generics) (bankID : BitVec 5) (c : Cycle) {rows : List Row}
    (hh : s.host.Holds rows) :
    ∃ rows', (s.clock g bankID c).host.Holds rows' := by
  unfold Sys.clock
  cases c.act with
  | transfer => exact hh.exists_complete
  | stop => exact ⟨rows, hh.1, hh.2⟩
  | restart => exact ⟨rows, hh.2, hh.2⟩
  | _ => exact ⟨rows, hh⟩

theorem Calm.holds {rows : List Row} (h : s.Calm n) (hh : s.host.Holds rows) :
    (s.clock g bankID c).host.Holds rows := by
  have hpc : ∀ k a, s.host.pc = .writeReply k a → k < 7 := fun k a hpc =>
    absurd (by rw [hpc]; trivial) h.not_exchanging
  unfold Sys.clock
  cases c.act with
  | transfer => exact hh.complete hpc
  | stop => exact ⟨hh.1, hh.2⟩
  | restart => exact ⟨hh.2, hh.2⟩
  | _ => exact hh

/-! ### What the host reads -/

theorem data_zero (hs : s.top.atm.systemState = .communicateCache) (ha : s.chanAddr = 0) :
    s.data c = 5 := by
  have hz : (s.top.edge (s.pins c)).chanAddr = 0 := ha
  simp only [data, TopLevel.f2hData, Atm.f2hData, hz, hs, if_true]

theorem data_of_shown {i : Nat} (hs : s.top.atm.systemState = .communicating ∨
      s.top.atm.systemState = .communicateCache)
    (hr : NoReset (s.pins c) s.top) (ha : s.chanAddr = BitVec.ofNat 7 (i + 1)) (hi : i < 8) :
    s.data c = byte s.top.atm.enOutput i := by
  have hz : (s.top.edge (s.pins c)).chanAddr.toNat = i + 1 := by
    rw [show (s.top.edge (s.pins c)).chanAddr = _ from ha, BitVec.toNat_ofNat]
    omega
  have hne : (s.top.edge (s.pins c)).chanAddr ≠ 0 := fun h => by simp [h] at hz
  simp only [data, TopLevel.f2hData, Atm.f2hData, hr]
  rw [if_neg hne, if_pos ⟨by omega, by omega, hs⟩, hz]
  rfl

theorem collect_of_not_replies (h : ¬ s.Replies c) :
    s.top.atm.collect 10 (s.top.edge (s.pins c)) = s.top.atm.toMain :=
  if_neg fun hc => h ⟨hc.1, hc.2.1, hc.2.2⟩

theorem Wf.not_replies (hw : s.Wf) (he : s.Enabled c)
    (h : c.act = .transfer → ∀ k a, s.host.pc ≠ .writeReply k a) : ¬ s.Replies c := by
  rintro ⟨hv, hlo, hhi⟩
  obtain ⟨hact, a, hpc, -⟩ := hw.reply he hv hlo hhi
  exact h hact _ a hpc

theorem Wf.collects {j : Nat} {a : Answer} (hw : s.Wf) (he : s.Enabled c) (ht : c.act = .transfer)
    (hpc : s.host.pc = .writeReply j a) (hj : j < 8)
    (h : s.top.atm.Collected (byte a.message) j) :
    (s.top.edge (s.pins c)).chanAddr.toNat = 10 + j ∧
      (s.top.atm.collect 10 (s.top.edge (s.pins c))).Collected (byte a.message) (j + 1) := by
  simp only [Enabled, ht] at he
  obtain ⟨op, hop, ha⟩ := hw.addressed he
  simp only [Host.op, hpc, Option.some.injEq] at hop
  have hz : s.chanAddr.toNat = 10 + j := by
    rw [ha, ← hop]
    change (BitVec.ofNat 7 (10 + j)).toNat = _
    rw [BitVec.toNat_ofNat]
    omega
  have hwr : s.written c = some (replyByte a.befEncSen j) := by
    simp only [written, ht, Host.op, hpc]
  refine ⟨hz, h.collect hj ?_ hz ?_⟩
  · change (s.written c).isSome = true
    rw [hwr]
    rfl
  · change (s.written c).getD 0 = _
    rw [hwr, Option.getD_some, replyByte_eq, Answer.message]

/-- A poll that was repeated was of channel 0, and an address that has moved belongs to an access. -/
structure PollInv (s : Sys) : Prop extends s.Wf where
  confirming : ∀ v cnt, s.host.pc = .confirm v cnt →
    s.chanAddr = 0 ∧ s.top.atm.prevChanAddr = 0
  moved : s.top.atm.prevChanAddr ≠ s.chanAddr → s.selected = true

theorem PollInv.clock (h : s.PollInv) (he : s.Enabled c) : (s.clock g bankID c).PollInv := by
  have hprev : (s.clock g bankID c).top.atm.prevChanAddr = s.chanAddr :=
    congrArg Main.prevChanAddr (rfl : (s.clock g bankID c).top.atm.toMain = _)
  refine { h.toWf.clock he with confirming := fun v cnt hpc => ?_, moved := ?_ }
  · rw [hprev]
    unfold Sys.clock at hpc ⊢
    cases hact : c.act with
    | idle =>
      simp only [hact] at hpc ⊢
      exact ⟨(h.confirming v cnt hpc).1, (h.confirming v cnt hpc).1⟩
    | select =>
      simp only [hact] at hpc ⊢
      have ho : s.host.op = some (.read 0) := by simp only [Host.op, hpc]
      simp only [ho]
      exact ⟨rfl, (h.confirming v cnt hpc).1⟩
    | transfer =>
      simp only [Enabled, hact] at he
      obtain ⟨op, ho, ha⟩ := h.addressed he
      have hz : s.chanAddr = 0 := by
        simp only [hact] at hpc
        rw [ha]
        rcases Host.polling_of_complete hpc with hp | ⟨v, cnt, hp⟩ <;>
          simp only [Host.op, hp, Option.some.injEq] at ho <;> rw [← ho] <;> rfl
      exact ⟨hz, hz⟩
    | stop => simp [hact, Host.stop] at hpc
    | restart => simp [hact, Host.start] at hpc
  · rw [hprev]
    unfold Sys.clock
    cases c.act with
    | select => exact fun _ => rfl
    | _ => exact fun hne => absurd rfl hne

/-! ### One exchange -/

/-- An exchange of the front entry of `k`, the cache after `k` rounds being `d`; the host began it
with the table `rows`. -/
inductive Exchange (bankID : BitVec 5) (k : Nat) (d : Cache) (rows : List Row) (s : Sys) : Prop
  | waiting : (∀ r, Presenting k d r 0 s.top.atm) → s.top.atm.enOutput = encipher d.cache1 →
      ¬ s.host.pc.Exchanging → s.host.Holds rows → Exchange bankID k d rows s
  | reading (i) : (∀ r, Presenting k d r 0 s.top.atm) → s.top.atm.enOutput = encipher d.cache1 →
      i < 8 → s.host.pc = .readInput 5 i (readUpTo (encipher d.cache1) i) → s.host.Holds rows →
      Exchange bankID k d rows s
  | writing (j a) : reconcile bankID rows (words d.cache1) = some a → j < 8 →
      Presenting k d a.message j s.top.atm → s.host.pc = .writeReply j a → s.host.Holds rows →
      Exchange bankID k d rows s
  | updating (a n) : reconcile bankID rows (words d.cache1) = some a → n ≤ 34 →
      Updating k d a.message n s.top.atm → s.Calm n → s.host.Holds (a.settled rows) →
      Exchange bankID k d rows s

structure Exchanged (bankID : BitVec 5) (k : Nat) (d : Cache) (rows : List Row) (a : Answer)
    (s : Sys) : Prop where
  answer : reconcile bankID rows (words d.cache1) = some a
  entering : Entering (k + 1) (d.exchanged a.message) s.top.atm
  calm : s.Calm 35
  holds : s.host.Holds (a.settled rows)

section Exchange

variable {k : Nat} {d : Cache} {rows : List Row}

theorem presenting_of_not_replies (g : Generics) (bankID : BitVec 5)
    (hp : ∀ r, Presenting k d r 0 s.top.atm)
    (ho : s.top.atm.enOutput = encipher d.cache1) (hr : NoReset (s.pins c) s.top)
    (hn : ¬ s.Replies c) :
    (∀ r, Presenting k d r 0 (s.clock g bankID c).top.atm) ∧
      (s.clock g bankID c).top.atm.enOutput = encipher d.cache1 := by
  refine ⟨fun r => (hp r).clock hr (by decide) ?_,
    (Cipher.clock_output_of_stop hr (hp 0).startEncrypt).trans ho⟩
  rw [collect_of_not_replies hn]
  exact (hp r).collected

theorem exchange_of_waiting (hp : ∀ r, Presenting k d r 0 s.top.atm)
    (ho : s.top.atm.enOutput = encipher d.cache1) (hx : ¬ s.host.pc.Exchanging)
    (hh : s.host.Holds rows) (hw : s.Wf) (he : s.Enabled c) (hr : NoReset (s.pins c) s.top) :
    (s.clock g bankID c).Exchange bankID k d rows := by
  have hpc : ∀ k a, s.host.pc ≠ .writeReply k a := fun k a hpc => hx (by rw [hpc]; trivial)
  obtain ⟨hp', ho'⟩ := presenting_of_not_replies g bankID hp ho hr
    (hw.not_replies he fun _ => hpc)
  by_cases hx' : (s.clock g bankID c).host.pc.Exchanging
  · obtain ⟨hact, hc⟩ := (exchanging_clock hw hx').resolve_left hx
    simp only [Enabled, hact] at he
    obtain ⟨op, hop, ha⟩ := hw.addressed he
    have hz : s.chanAddr = 0 := by
      simp only [Host.op, hc, Option.some.injEq] at hop
      rw [ha, ← hop]
      rfl
    have h5 : s.data c = 5 := data_zero (hp 0).state hz
    refine .reading 0 hp' ho' (by decide) ?_ ?_
    · simp only [Sys.clock, hact, Host.complete, hc, h5]
      rfl
    · simp only [Sys.clock, hact]
      exact hh.complete fun k a h => absurd h (hpc k a)
  · refine .waiting hp' ho' hx' ?_
    unfold Sys.clock
    cases c.act with
    | transfer => exact hh.complete fun k a h => absurd h (hpc k a)
    | stop => exact ⟨hh.1, hh.2⟩
    | restart => exact ⟨hh.2, hh.2⟩
    | _ => exact hh

theorem exchange_of_reading {i : Nat} (hp : ∀ r, Presenting k d r 0 s.top.atm)
    (ho : s.top.atm.enOutput = encipher d.cache1) (hi : i < 8)
    (hpc : s.host.pc = .readInput 5 i (readUpTo (encipher d.cache1) i)) (hh : s.host.Holds rows)
    (hw : s.Wf) (he : s.Enabled c) (hr : NoReset (s.pins c) s.top) :
    (s.clock g bankID c).Exchange bankID k d rows := by
  obtain ⟨hp', ho'⟩ := presenting_of_not_replies g bankID hp ho hr
    (hw.not_replies he fun _ k a h => by simp [hpc] at h)
  unfold Enabled at he
  cases hact : c.act with
  | idle => exact .reading i hp' ho' hi (by simp [Sys.clock, hact, hpc]) (by simpa [Sys.clock, hact])
  | select => exact .reading i hp' ho' hi (by simp [Sys.clock, hact, hpc]) (by simpa [Sys.clock, hact])
  | stop => simp [hact, hpc] at he
  | restart => simp [hact, hpc] at he
  | transfer =>
    simp only [hact] at he
    obtain ⟨op, hop, ha⟩ := hw.addressed he
    have hz : s.chanAddr = BitVec.ofNat 7 (i + 1) := by
      simp only [Host.op, hpc, Option.some.injEq] at hop
      rw [ha, ← hop]
      rfl
    have hb : s.data c = byte (encipher d.cache1) i :=
      (data_of_shown (.inr (hp 0).state) hr hz hi).trans (by rw [ho])
    have hhost : (s.clock g bankID c).host = s.host.complete bankID (s.data c) := by
      simp only [Sys.clock, hact]
    have hh' : (s.clock g bankID c).host.Holds rows := by
      rw [hhost]
      exact hh.complete fun k a h => by simp [hpc] at h
    rw [hb] at hhost
    simp only [Host.complete, hpc, ← readUpTo_succ] at hhost
    split_ifs at hhost with hlt
    · exact .reading (i + 1) hp' ho' (by omega) (by rw [hhost]) hh'
    · obtain rfl : i = 7 := by omega
      have hdec : decrypt64 (readUpTo (encipher d.cache1) (7 + 1)) = words d.cache1 :=
        decrypt64_readUpTo d.cache1
      rw [Host.answer, hdec, if_pos rfl, hh.dataFromCSV] at hhost
      cases ha : reconcile bankID rows (words d.cache1) with
      | none =>
        simp only [ha] at hhost
        exact .waiting hp' ho' (by rw [hhost]; exact not_false) hh'
      | some a =>
        simp only [ha, Host.reply, reconcile_status ha] at hhost
        exact .writing 0 a ha (by decide) (hp' a.message) (by rw [hhost]) hh'

theorem exchange_of_writing {j : Nat} {a : Answer}
    (ha : reconcile bankID rows (words d.cache1) = some a) (hj : j < 8)
    (hp : Presenting k d a.message j s.top.atm) (hpc : s.host.pc = .writeReply j a)
    (hh : s.host.Holds rows) (hw : s.Wf) (he : s.Enabled c) (hr : NoReset (s.pins c) s.top) :
    (s.clock g bankID c).Exchange bankID k d rows := by
  have hstay (hact : c.act ≠ .transfer) (hhost : (s.clock g bankID c).host = s.host) :
      (s.clock g bankID c).Exchange bankID k d rows := by
    refine .writing j a ha hj (hp.clock hr hj ?_) (by rw [hhost, hpc]) (by rwa [hhost])
    rw [collect_of_not_replies (hw.not_replies he fun h => absurd h hact)]
    exact hp.collected
  have he' := he
  unfold Enabled at he
  cases hact : c.act with
  | idle => exact hstay (by simp [hact]) (by simp [Sys.clock, hact])
  | select => exact hstay (by simp [hact]) (by simp [Sys.clock, hact])
  | stop => simp [hact, hpc] at he
  | restart => simp [hact, hpc] at he
  | transfer =>
    have hcol := (hw.collects he' hact hpc hj hp.collected).2
    have hhost : (s.clock g bankID c).host = s.host.complete bankID (s.data c) := by
      simp only [Sys.clock, hact]
    simp only [Host.complete, hpc] at hhost
    split_ifs at hhost with hlt
    · exact .writing (j + 1) a ha (by omega) (hp.clock hr (by omega) hcol) (by rw [hhost])
        (by rw [hhost]; exact ⟨hh.1, hh.2⟩)
    · obtain rfl : j = 7 := by omega
      obtain ⟨hset, hhead⟩ := hh.settle (a := a)
      refine .updating a 0 ha (by decide) (hp.take hr hcol) (.inr ⟨?_, ?_, ?_⟩) (by rwa [hhost])
      · simp only [Sys.clock, hact]
      · simp only [Sys.clock, hact]
        exact le_rfl
      · rw [hhost, hhead]
        exact not_false

theorem Exchange.clock (h : s.Exchange bankID k d rows) (hw : s.Wf) (he : s.Enabled c)
    (hr : NoReset (s.pins c) s.top) :
    (s.clock g bankID c).Exchange bankID k d rows ∨
      ∃ a, (s.clock g bankID c).Exchanged bankID k d rows a := by
  cases h with
  | waiting hp ho hx hh => exact .inl (exchange_of_waiting hp ho hx hh hw he hr)
  | reading i hp ho hi hpc hh => exact .inl (exchange_of_reading hp ho hi hpc hh hw he hr)
  | writing j a ha hj hp hpc hh => exact .inl (exchange_of_writing ha hj hp hpc hh hw he hr)
  | updating a n ha hn hu hc hh =>
    rcases Nat.lt_or_eq_of_le hn with hlt | rfl
    · exact .inl (.updating a (n + 1) ha hlt (hu.clock hlt hr) (hc.clock he (by omega)) (hc.holds hh))
    · exact .inr ⟨a, ha, hu.rotate hr, hc.clock he (by decide), hc.holds hh⟩

theorem Exchange.state (h : s.Exchange bankID k d rows) :
    s.top.atm.systemState = .communicateCache ∨ s.top.atm.systemState = .updateCache := by
  cases h with
  | waiting hp ho hx hh => exact .inl (hp 0).state
  | reading i hp ho hi hpc hh => exact .inl (hp 0).state
  | writing j a ha hj hp hpc hh => exact .inl hp.state
  | updating a n ha hn hu hc hh => exact .inr hu.state

theorem Exchange.holds (h : s.Exchange bankID k d rows) : s.host.Holds rows ∨
    ∃ a, reconcile bankID rows (words d.cache1) = some a ∧ s.host.Holds (a.settled rows) := by
  cases h with
  | waiting hp ho hx hh => exact .inl hh
  | reading i hp ho hi hpc hh => exact .inl hh
  | writing j a ha hj hp hpc hh => exact .inl hh
  | updating a n ha hn hu hc hh => exact .inr ⟨a, ha, hh⟩

end Exchange

/-! ### The whole resynchronisation -/

inductive Round (bankID : BitVec 5) (s : Sys) : Prop
  | away : ¬ s.top.atm.systemState.Resyncing → Round bankID s
  | entering (k d) : Entering k d s.top.atm → s.Calm 35 → Round bankID s
  | encrypting (k d n) : k ≠ 4 → n ≤ 33 → Encrypting k d n s.top.atm → s.Calm (36 + n) → Round bankID s
  | exchanging (k d rows) : s.Exchange bankID k d rows → Round bankID s

structure RoundInv (bankID : BitVec 5) (s : Sys) : Prop extends s.PollInv where
  saved : s.host.csv = s.host.dataFromCSV
  round : s.Round bankID

section Round

variable {k : Nat} {d : Cache} {rows : List Row}

theorem reconnects_of_resyncing {i : AtmEdge} {m : Frontend.Atm}
    (hs : ¬ m.systemState.Resyncing) (hn : (m.clock g i).systemState.Resyncing) :
    i.debouncedReset = false ∧ m.Reconnects i := by
  have hr : i.debouncedReset = false := not_reset_of_not_ready (g := g) (s := m) fun h => by
    rw [h] at hn
    exact absurd hn (by simp [SystemState.Resyncing])
  refine ⟨hr, ?_⟩
  by_contra hc
  have hmem := mem_successors g i m
  have hready : m.systemState = .ready := by
    rcases hn with hn | hn | hn <;> rw [hn] at hmem <;> cases hq : m.systemState <;>
      simp_all [SystemState.successors, SystemState.Resyncing]
  have hm := congrArg Main.systemState (clock_eq_branch (g := g) hr hc)
  have hb : (m.branch g i).systemState = .ready ∨ (m.branch g i).systemState = .takingInput := by
    simp only [branch, hready, Frontend.Atm.ready]
    split_ifs <;> simp [Main.initVariables, hready]
  change (m.clock g i).systemState = (m.branch g i).systemState at hm
  rw [hm] at hn
  rcases hb with hb | hb <;> rw [hb] at hn <;> simp [SystemState.Resyncing] at hn

theorem PollInv.calm_of_reconnects (h : s.PollInv)
    (hc : s.top.atm.Reconnects (s.top.edge (s.pins c))) : s.Calm n := by
  have hz : s.chanAddr = 0 := hc.2.1
  have hne : s.top.atm.prevChanAddr ≠ s.chanAddr := hc.2.2.1
  have hsel := h.moved hne
  refine .inl ⟨hsel, ?_⟩
  obtain ⟨op, ho, ha⟩ := h.addressed hsel
  have hb := h.bounded
  rw [hz] at ha
  unfold Host.op at ho
  cases hpc : s.host.pc with
  | head => rfl
  | confirm v cnt =>
    obtain ⟨h0, hp⟩ := h.confirming v cnt hpc
    exact absurd (hp.trans h0.symm) hne
  | stopped => simp [hpc] at ho
  | writeStatus b a =>
    simp only [hpc, Option.some.injEq] at ho
    rw [← ho] at ha
    exact absurd (congrArg BitVec.toNat ha) (by simp [Op.chan])
  | _ =>
    simp only [hpc, Option.some.injEq, Pc.Bounded] at ho hb
    rw [← ho] at ha
    have hv := congrArg BitVec.toNat ha
    simp [Op.chan] at hv
    omega

theorem exchange_of_encrypting (hx : Encrypting k d 33 s.top.atm) (hk : k ≠ 4) (hc : s.Calm 69)
    (hs : s.host.csv = s.host.dataFromCSV) (he : s.Enabled c) (hr : NoReset (s.pins c) s.top) :
    (s.clock g bankID c).Exchange bankID k d s.host.dataFromCSV :=
  .waiting (fun _ => (hx.present hk hr).1) (hx.present (r := 0) hk hr).2
    (hc.clock he (by decide)).not_exchanging (hc.holds ⟨rfl, hs⟩)

theorem Round.clock (h : s.RoundInv bankID) (hc : s.Synced c) :
    (s.clock g bankID c).Round bankID := by
  have he := hc.enabled
  cases hr : (s.top.edge (s.pins c)).debouncedReset with
  | true =>
    refine .away ?_
    have hm : (s.clock g bankID c).top.atm.systemState = .ready := by
      change (Frontend.Atm.clock g (s.top.edge (s.pins c)) s.top.atm).toMain.systemState = _
      simp only [Frontend.Atm.clock, mainProcess, hr, if_true]
      rfl
    rw [hm]
    simp [SystemState.Resyncing]
  | false =>
    cases h.round with
    | away hs =>
      by_cases hn : (s.clock g bankID c).top.atm.systemState.Resyncing
      · obtain ⟨-, hrec⟩ := reconnects_of_resyncing (g := g) hs hn
        have hse : s.top.atm.startEncrypt = false := by
          by_contra hse
          exact hc.fresh ⟨hr, hrec, by simpa using hse⟩
        have hm : (s.top.atm.clock g (s.top.edge (s.pins c))).toMain =
            tick g (s.top.edge (s.pins c)) s.top.atm.reconnect := by
          simp only [Frontend.Atm.clock, mainProcess, hr, if_pos hrec, Bool.false_eq_true, if_false]
        have hx : Entering s.top.atm.cacheUpdateCount s.top.atm.cache
            (s.top.atm.clock g (s.top.edge (s.pins c))) := {
          state := by rw [hm]; rfl
          count := by rw [hm]; rfl
          cache := by rw [hm]; rfl
          startEncrypt := by rw [hm]; rfl
          notOver := (Cipher.clock_stop hr hse).2 }
        exact .entering _ _ hx
          (((h.calm_of_reconnects (n := 0) hrec).clock he (by decide)).mono (by decide))
      · exact .away hn
    | entering k d hx hcalm =>
      by_cases hk : k = 4
      · subst hk
        refine .away ?_
        rw [show (s.clock g bankID c).top.atm.systemState = .ready from (hx.ready hr).1]
        simp [SystemState.Resyncing]
      · exact .encrypting k d 0 hk (by decide) (hx.clock hk hr) (hcalm.clock he (by decide))
    | encrypting k d n hk hn hx hcalm =>
      rcases Nat.lt_or_eq_of_le hn with hlt | rfl
      · exact .encrypting k d (n + 1) hk hlt (hx.clock hk hlt hr) (hcalm.clock he (by omega))
      · exact .exchanging k d s.host.dataFromCSV
          (exchange_of_encrypting hx hk hcalm h.saved he hr)
    | exchanging k d rows hx =>
      rcases hx.clock (g := g) h.toWf he hr with hx' | ⟨a, hx'⟩
      · exact .exchanging k d rows hx'
      · exact .entering (k + 1) _ hx'.entering hx'.calm

theorem RoundInv.clock (h : s.RoundInv bankID) (hc : s.Synced c) :
    (s.clock g bankID c).RoundInv bankID :=
  { h.toPollInv.clock hc.enabled with
    saved := by
      obtain ⟨rows, hd, hs⟩ := exists_holds g bankID c ⟨rfl, h.saved⟩
      exact hs.trans hd.symm
    round := .clock h hc }

theorem roundInv_powerUp (bankID : BitVec 5) (rows : List Row) : (powerUp rows).RoundInv bankID :=
  { wf_powerUp rows with
    confirming := fun _ _ h => Pc.noConfusion h
    moved := fun h => absurd rfl h
    saved := rfl
    round := .away (by simp [powerUp, TopLevel.powerUp, Atm.powerUp, SystemState.Resyncing]) }

theorem roundInv (g : Generics) {rows : List Row} {cs : List Cycle}
    (h : Runs (clock g bankID) Synced (powerUp rows) cs) : (after g bankID rows cs).RoundInv bankID :=
  h.invariant (fun _ _ hc hi => hi.clock hc) (roundInv_powerUp bankID rows)

theorem Exchange.run_cycles {cs : List Cycle} (h : s.Exchange bankID k d rows) (hi : s.RoundInv bankID)
    (hr : Runs (Sys.clock g bankID) (fun c s => s.Synced c ∧ NoReset (s.pins c) s.top ∧
      s.top.atm.systemState ≠ .communicationRegained) s cs) :
    let u := run (Sys.clock g bankID) s cs
    u.Exchange bankID k d rows ∨ ∃ a, u.Exchanged bankID k d rows a := by
  refine (hr.invariant (P := fun u : Sys => u.RoundInv bankID ∧
    (u.Exchange bankID k d rows ∨ ∃ a, u.Exchanged bankID k d rows a)) ?_ ⟨hi, .inl h⟩).2
  rintro c u ⟨hc, hn, hs⟩ ⟨hi, hx | ⟨a, hx⟩⟩
  · exact ⟨hi.clock hc, hx.clock hi.toWf hc.enabled hn⟩
  · exact absurd hx.entering.state hs

theorem RoundInv.begins (h : s.RoundInv bankID) (hc : s.Synced c)
    (hs : s.top.atm.systemState = .communicationRegained)
    (hn : (s.clock g bankID c).top.atm.systemState = .communicateCache) :
    ∃ k, (s.clock g bankID c).Exchange bankID k (s.clock g bankID c).top.atm.cache
      (s.clock g bankID c).host.dataFromCSV := by
  have hr : NoReset (s.pins c) s.top := not_reset_of_not_ready (g := g) (s := s.top.atm)
    fun h => SystemState.noConfusion (h.symm.trans hn)
  cases h.round with
  | away ha => exact absurd (.inl hs) ha
  | entering k d hx hcalm =>
    by_cases hk : k = 4
    · subst hk
      exact absurd ((hx.ready (g := g) hr).1.symm.trans hn) (by decide)
    · exact absurd ((hx.clock (g := g) hk hr).state.symm.trans hn) (by decide)
  | encrypting k d n hk hle hx hcalm =>
    rcases Nat.lt_or_eq_of_le hle with hlt | rfl
    · exact absurd ((hx.clock (g := g) hk hlt hr).state.symm.trans hn) (by decide)
    · rw [(hcalm.holds ⟨rfl, h.saved⟩).dataFromCSV,
        show (s.clock g bankID c).top.atm.cache = d from (hx.present (r := 0) hk hr).1.cache]
      exact ⟨k, exchange_of_encrypting hx hk hcalm h.saved hc.enabled hr⟩
  | exchanging k d rows hx => rcases hx.state with h | h <;> exact absurd (h.symm.trans hs) (by decide)

end Round

end Sys

end AtmController.System
