import AtmController.Backend.Answer
import AtmController.Frontend.Stays
import AtmController.System.Exchange
import AtmController.System.ShownRecord

namespace AtmController.System

open Clocked Slice Backend Frontend Frontend.Atm Frontend.TopLevel

namespace Sys

variable {g : Generics} {bankID : BitVec 5} {c : Cycle} {s : Sys} {d : Durable} {rows : List Row}
  {v : BitVec 64} {r : Nat → BitVec 8} {w : Keys} {k : Nat}

/-! ### One cycle -/

structure Steady (g : Generics) (bankID : BitVec 5) (c : Cycle) (s : Sys) : Prop where
  enabled : s.Enabled c
  noReset : NoReset (s.pins c) s.top
  running : c.act ≠ .stop ∧ c.act ≠ .restart
  inTime : (s.clock g bankID c).top.atm.systemState ≠ .communicationLost

theorem Steady.host (h : s.Steady g bankID c) (ht : c.act ≠ .transfer) :
    (s.clock g bankID c).host = s.host ∧ (s.clock g bankID c).gap = s.gap + 1 ∧
      ((s.clock g bankID c).selected = true → s.selected = true ∨ 100 ≤ s.gap) := by
  have he := h.enabled
  unfold Enabled at he
  unfold Sys.clock
  cases hact : c.act with
  | idle => exact ⟨rfl, rfl, .inl⟩
  | select =>
    rw [hact] at he
    exact ⟨rfl, rfl, fun _ => .inr he.2.1⟩
  | transfer => exact absurd hact ht
  | stop => exact absurd hact h.running.1
  | restart => exact absurd hact h.running.2

theorem Steady.transfer (h : s.Steady g bankID c) (hw : s.Wf) (ht : c.act = .transfer) :
    (s.clock g bankID c).host = s.host.complete bankID (s.data c) ∧
      (s.clock g bankID c).gap = 0 ∧ (s.clock g bankID c).selected = false ∧ s.selected = true ∧
        ∃ op, s.host.op = some op ∧ s.chanAddr = op.chan := by
  have he := h.enabled
  simp only [Enabled, ht] at he
  refine ⟨?_, ?_, ?_, he, hw.addressed he⟩ <;> simp only [Sys.clock, ht]

theorem Wf.silent (hw : s.Wf) (he : s.Enabled c)
    (h : c.act = .transfer → ∀ ch b, s.host.op ≠ some (.write ch b)) :
    (s.top.edge (s.pins c)).h2fValid = false := by
  by_contra hv
  obtain ⟨hact, ho⟩ := hw.write he (Bool.eq_true_of_not_eq_false hv)
  exact h hact _ _ ho

theorem not_message_of_quiet (ha : s.chanAddr = 0) (hc : s.top.atm.systemState ≠ .communicating)
    (hr : ¬ s.top.atm.systemState.Resyncing) : ¬ IsMessage (s.data c) := by
  have hz : (s.top.edge (s.pins c)).chanAddr = 0 := ha
  simp only [data, TopLevel.f2hData, Atm.f2hData, hz, if_true]
  cases hs : s.top.atm.systemState <;>
    simp_all [IsMessage, SystemState.Resyncing]

theorem Steady.stays_at_head (h : s.Steady g bankID c) (hw : s.Wf) (hpc : s.host.pc = .head)
    (hc : s.top.atm.systemState ≠ .communicating) (hr : ¬ s.top.atm.systemState.Resyncing) :
    (s.clock g bankID c).host = s.host := by
  by_cases ht : c.act = .transfer
  · obtain ⟨hhost, -, -, -, op, ho, ha⟩ := h.transfer hw ht
    simp only [Host.op, hpc, Option.some.injEq] at ho
    have hm := not_message_of_quiet (c := c) (ha.trans (by rw [← ho]; rfl)) hc hr
    rw [hhost, Host.complete, hpc]
    simp only
    rw [if_neg (show ¬ (s.data c = 1 ∨ s.data c = 2 ∨ s.data c = 5) from hm), ← hpc]
  · exact (h.host ht).1

theorem data_verdict (hs : s.top.atm.systemState = .communicating) (ha : s.chanAddr = 0)
    (hr : NoReset (s.pins c) s.top) :
    s.data c = if s.top.atm.adequateCashInAtm then 1 else 2 := by
  have hz : (s.top.edge (s.pins c)).chanAddr = 0 := ha
  simp only [data, TopLevel.f2hData, Atm.f2hData, hz, hs, hr, Bool.false_eq_true, if_true, if_false]

/-! ### The question -/

theorem awaiting_of_silent {j n : Nat} (h : Awaiting d v n r j s.top.atm) (hj : j < 8)
    (hs : s.Steady g bankID c) (hv : (s.top.edge (s.pins c)).h2fValid = false) :
    Awaiting d v (n + 1) r j (s.clock g bankID c).top.atm ∧
      (s.clock g bankID c).top.atm.flags = s.top.atm.flags := by
  have hst : status (s.top.edge (s.pins c)) s.top.atm.toMain = s.top.atm.toMain :=
    if_neg fun hc => Bool.noConfusion (hv.symm.trans hc.2)
  obtain ⟨ha, hf⟩ := h.clock (g := g) hs.noReset hs.inTime hj
    (by rw [Main.collect_of_not_valid _ _ _ hv]; exact h.collected)
    fun hi => Bool.noConfusion (hv.symm.trans hi.2.1)
  exact ⟨ha, hf.trans (congrArg Main.flags hst)⟩

theorem data_of_awaiting {n : Nat} (h : Awaiting d v n r k s.top.atm) (hn : 42 ≤ n) (ha : s.chanAddr = 0)
    (hr : NoReset (s.pins c) s.top) : s.data c = verdict d v := by
  rw [data_verdict h.state ha hr]
  have hp : s.top.atm.adequateCashInAtm = decide (NoteAllocator.Granted (asks d v)) :=
    h.allocated.allocationPossible rfl rfl hn
  rw [hp, verdict]
  by_cases hg : NoteAllocator.Granted (asks d v) <;> simp [hg]

/-- The host asks, reads `v` and answers; it has completed `k` accesses since. The first poll may
come before the allocator is done, the second one is 100 cycles later. -/
inductive Asked (bankID : BitVec 5) (d : Durable) (rows : List Row) (v : BitVec 64) (k : Nat)
    (s : Sys) : Prop
  | polling (n) : (∀ r, Awaiting d v n r 0 s.top.atm) → s.host.pc = .head →
      k = 0 ∨ k ≤ 2 ∧ 42 ≤ n → Asked bankID d rows v k s
  | confirming (b) : (∀ r, Awaiting d v s.gap r 0 s.top.atm) → s.host.pc = .confirm b 1 →
      (s.selected = true → 100 ≤ s.gap) → k ≤ 1 ∨ k ≤ 3 ∧ b = verdict d v →
      Asked bankID d rows v k s
  | confirmed : (∀ r, Awaiting d v 42 r 0 s.top.atm) → s.host.pc = .confirm (verdict d v) 2 →
      k ≤ 4 → Asked bankID d rows v k s
  | reading (i) : (∀ r, Awaiting d v 42 r 0 s.top.atm) → i < 8 →
      s.host.pc = .readInput (verdict d v) i (readUpTo (encipher v) i) → k ≤ 5 + i →
      Asked bankID d rows v k s
  | stating (b) : (∀ r, Awaiting d v 42 r 0 s.top.atm) →
      (answerTo bankID d rows v).status = some b →
      s.host.pc = .writeStatus b (answerTo bankID d rows v) → k ≤ 13 → Asked bankID d rows v k s
  | replying (j acc adm) : Awaiting d v 42 (byte (answerTo bankID d rows v).message) j s.top.atm →
      s.top.atm.flags = (acc, adm) → (answerTo bankID d rows v).Reports acc adm → j < 8 →
      s.host.pc = .writeReply j (answerTo bankID d rows v) → k ≤ 14 + j → Asked bankID d rows v k s

inductive Ended (bankID : BitVec 5) (d : Durable) (rows : List Row) (v : BitVec 64) (s : Sys) : Prop
  | rejected : s.top.atm.systemState = .ready → s.top.atm.durable = d → s.top.atm.enInput = v →
      (answerTo bankID d rows v).status = some 4 → s.host.Holds rows → Ended bankID d rows v s
  | concluding (acc adm) : Concluding d v (answerTo bankID d rows v).message acc adm s.top.atm →
      (answerTo bankID d rows v).Reports acc adm → s.host.pc = .head →
      s.host.Holds ((answerTo bankID d rows v).settled rows) → Ended bankID d rows v s

section Asked

variable (hs : s.Steady g bankID c) (hw : s.Wf)

include hs hw

theorem Asked.idle (h : s.Asked bankID d rows v k) (ht : c.act ≠ .transfer) :
    (s.clock g bankID c).Asked bankID d rows v k := by
  have hv := hw.silent hs.enabled fun hact => absurd hact ht
  obtain ⟨hhost, hgap, hsel⟩ := hs.host ht
  cases h with
  | polling n h hpc hk =>
    exact .polling (n + 1) (fun r => (awaiting_of_silent (h r) (by decide) hs hv).1)
      (by rw [hhost, hpc]) (hk.imp_right fun hk => ⟨hk.1, by omega⟩)
  | confirming b h hpc hg hk =>
    refine .confirming b (fun r => ?_) (by rw [hhost, hpc]) (fun hc => ?_) hk
    · rw [hgap]
      exact (awaiting_of_silent (h r) (by decide) hs hv).1
    · rw [hgap]
      rcases hsel hc with hsel | hsel
      · exact (hg hsel).trans (Nat.le_succ _)
      · exact hsel.trans (Nat.le_succ _)
  | confirmed h hpc hk =>
    exact .confirmed (fun r => (awaiting_of_silent (h r) (by decide) hs hv).1.mono (by decide))
      (by rw [hhost, hpc]) hk
  | reading i h hi hpc hk =>
    exact .reading i (fun r => (awaiting_of_silent (h r) (by decide) hs hv).1.mono (by decide)) hi
      (by rw [hhost, hpc]) hk
  | stating b h hb hpc hk =>
    exact .stating b (fun r => (awaiting_of_silent (h r) (by decide) hs hv).1.mono (by decide)) hb
      (by rw [hhost, hpc]) hk
  | replying j acc adm h hf hrep hj hpc hk =>
    obtain ⟨ha, hf'⟩ := awaiting_of_silent h hj hs hv
    exact .replying j acc adm (ha.mono (by decide)) (hf'.trans hf) hrep hj (by rw [hhost, hpc]) hk

variable (ht : c.act = .transfer)

include ht

theorem awaiting_of_read {a : BitVec 7} {n : Nat} (ho : s.host.op = some (.read a))
    (h : ∀ r, Awaiting d v n r 0 s.top.atm) :
    (∀ r, Awaiting d v (n + 1) r 0 (s.clock g bankID c).top.atm) ∧ s.chanAddr = a := by
  obtain ⟨-, -, -, -, op, hop, ha⟩ := hs.transfer hw ht
  have hv := hw.silent hs.enabled fun _ ch b h => by simp [ho] at h
  refine ⟨fun r => (awaiting_of_silent (h r) (by decide) hs hv).1, ?_⟩
  rw [ha, ← Option.some.inj (ho.symm.trans hop)]
  rfl

theorem asked_of_polling {n : Nat} (h : ∀ r, Awaiting d v n r 0 s.top.atm)
    (hpc : s.host.pc = .head) (hk : k = 0 ∨ k ≤ 2 ∧ 42 ≤ n) :
    (s.clock g bankID c).Asked bankID d rows v (k + 1) := by
  obtain ⟨hhost, hgap, hsel, -⟩ := hs.transfer hw ht
  obtain ⟨hn, ha⟩ := awaiting_of_read hs hw ht (by rw [Host.op, hpc]) h
  have hm : IsMessage (s.data c) := by
    rw [data_verdict (h 0).state ha hs.noReset]
    cases s.top.atm.adequateCashInAtm <;> unfold IsMessage <;> decide
  refine .confirming (s.data c) (fun r => ?_) ?_ (fun hc => ?_) ?_
  · exact (hn r).mono (by rw [hgap]; exact Nat.zero_le _)
  · rw [hhost]
    simp only [Host.complete, hpc]
    exact if_pos hm
  · exact Bool.noConfusion (hsel.symm.trans hc)
  · rcases hk with rfl | ⟨hk, h42⟩
    · exact .inl le_rfl
    · exact .inr ⟨by omega, data_of_awaiting (h 0) h42 ha hs.noReset⟩

theorem asked_of_confirming {b : BitVec 8} (h : ∀ r, Awaiting d v s.gap r 0 s.top.atm)
    (hpc : s.host.pc = .confirm b 1) (hg : s.selected = true → 100 ≤ s.gap)
    (hk : k ≤ 1 ∨ k ≤ 3 ∧ b = verdict d v) :
    (s.clock g bankID c).Asked bankID d rows v (k + 1) := by
  obtain ⟨hhost, -, -, hsel, -⟩ := hs.transfer hw ht
  obtain ⟨hn, ha⟩ := awaiting_of_read hs hw ht (by rw [Host.op, hpc]) h
  have hgap := hg hsel
  rw [data_of_awaiting (h 0) (by omega) ha hs.noReset] at hhost
  simp only [Host.complete, hpc] at hhost
  by_cases hb : verdict d v = b
  · refine .confirmed (fun r => (hn r).mono (by omega)) ?_ (by omega)
    rw [hhost, if_pos hb, hb]
    rfl
  · refine .polling _ hn ?_ (.inr ⟨?_, by omega⟩)
    · rw [hhost, if_neg hb]
    · have := hk.resolve_right fun hk => hb hk.2.symm
      omega

theorem asked_of_confirmed (h : ∀ r, Awaiting d v 42 r 0 s.top.atm)
    (hpc : s.host.pc = .confirm (verdict d v) 2) (hk : k ≤ 4) :
    (s.clock g bankID c).Asked bankID d rows v (k + 1) := by
  obtain ⟨hhost, -⟩ := hs.transfer hw ht
  obtain ⟨hn, ha⟩ := awaiting_of_read hs hw ht (by rw [Host.op, hpc]) h
  refine .reading 0 (fun r => (hn r).mono (by decide)) (by decide) ?_ (by omega)
  rw [hhost, data_of_awaiting (h 0) le_rfl ha hs.noReset]
  simp only [Host.complete, hpc, if_true]
  rfl

theorem asked_of_reading {i : Nat} (h : ∀ r, Awaiting d v 42 r 0 s.top.atm) (hi : i < 8)
    (hpc : s.host.pc = .readInput (verdict d v) i (readUpTo (encipher v) i))
    (hh : s.host.Holds rows) (hk : k ≤ 5 + i) :
    (s.clock g bankID c).Asked bankID d rows v (k + 1) := by
  obtain ⟨hhost, -⟩ := hs.transfer hw ht
  obtain ⟨hn, ha⟩ := awaiting_of_read hs hw ht (by rw [Host.op, hpc]) h
  have hn' := fun r => (hn r).mono (m := 42) (by decide)
  have hb : s.data c = byte (encipher v) i :=
    (data_of_shown (.inl (h 0).state) hs.noReset ha hi).trans (by rw [(h 0).enOutput])
  rw [hb] at hhost
  simp only [Host.complete, hpc, ← readUpTo_succ] at hhost
  split_ifs at hhost with hlt
  · exact .reading (i + 1) hn' (by omega) (by rw [hhost]) (by omega)
  · obtain rfl : i = 7 := by omega
    have h5 : verdict d v ≠ 5 := by
      rw [verdict]
      split_ifs <;> decide
    obtain ⟨b, hb⟩ : ∃ b, (answerTo bankID d rows v).status = some b := by
      rcases transact_status bankID rows (verdict d v) (words v) with hb | hb | hb | hb <;>
        exact ⟨_, hb⟩
    refine .stating b hn' hb ?_ (by omega)
    rw [hhost, Host.answer, if_neg h5, decrypt64_readUpTo, hh.dataFromCSV, Host.reply]
    simp only [answerTo] at hb
    rw [hb]

theorem asked_of_stating {b : BitVec 8} (h : ∀ r, Awaiting d v 42 r 0 s.top.atm)
    (hb : (answerTo bankID d rows v).status = some b)
    (hpc : s.host.pc = .writeStatus b (answerTo bankID d rows v)) (hh : s.host.Holds rows)
    (hk : k ≤ 13) : (s.clock g bankID c).Asked bankID d rows v (k + 1) ∨
      (s.clock g bankID c).Ended bankID d rows v := by
  obtain ⟨hhost, -, -, -, op, hop, ha⟩ := hs.transfer hw ht
  have ho : s.host.op = some (.write 9 b) := by rw [Host.op, hpc]
  rw [ho] at hop
  have h9 : (s.top.edge (s.pins c)).chanAddr = 9 := ha.trans (by rw [← Option.some.inj hop]; rfl)
  have hwr : s.written c = some b := by simp only [written, ht, ho]
  have hv : (s.top.edge (s.pins c)).h2fValid = true := by
    change (s.written c).isSome = true
    rw [hwr]
    rfl
  have hd : (s.top.edge (s.pins c)).h2fData = b := by
    change (s.written c).getD 0 = b
    rw [hwr]
    rfl
  have hpc' : (s.clock g bankID c).host = { s.host with
      pc := .writeReply 0 (answerTo bankID d rows v) } := by
    rw [hhost, Host.complete, hpc]
  by_cases hb4 : b = 4
  · obtain ⟨hr, hdur, hen⟩ := (h 0).invalid (g := g) hs.noReset hs.inTime (by decide)
      ⟨h9, hv, hd.trans hb4⟩
    exact .inr (.rejected hr hdur hen (hb4 ▸ hb) (by rw [hpc']; exact ⟨hh.1, hh.2⟩))
  · have hb' : b = 1 ∨ b = 2 ∨ b = 3 := by
      have hst := transact_status bankID rows (verdict d v) (words v)
      rw [hb] at hst
      simp only [Option.some.injEq] at hst
      tauto
    obtain ⟨hn, hf⟩ := (h (byte (answerTo bankID d rows v).message)).clock (g := g) hs.noReset
      hs.inTime (Nat.zero_lt_succ _)
      (by rw [Main.collect_of_lt _ _ _ (by rw [h9]; decide)]; exact (h _).collected)
      fun hi => hb4 (hd.symm.trans hi.2.2)
    obtain ⟨acc, adm, hfl, hrep⟩ := flags_of_status (m := s.top.atm.toMain) hb' hb h9 hv hd
    exact .inl (.replying 0 acc adm (hn.mono (by decide)) (hf.trans hfl) hrep (by decide)
      (by rw [hpc']) (by omega))

theorem asked_of_replying {j : Nat} {acc adm : Bool}
    (h : Awaiting d v 42 (byte (answerTo bankID d rows v).message) j s.top.atm)
    (hf : s.top.atm.flags = (acc, adm)) (hrep : (answerTo bankID d rows v).Reports acc adm)
    (hj : j < 8) (hpc : s.host.pc = .writeReply j (answerTo bankID d rows v))
    (hh : s.host.Holds rows) (hk : k ≤ 14 + j) :
    (s.clock g bankID c).Asked bankID d rows v (k + 1) ∧ (s.clock g bankID c).host.Holds rows ∨
      (s.clock g bankID c).Ended bankID d rows v := by
  obtain ⟨hhost, -⟩ := hs.transfer hw ht
  obtain ⟨hz, hcol⟩ := hw.collects hs.enabled ht hpc hj h.collected
  have hne : (s.top.edge (s.pins c)).chanAddr ≠ 9 := fun h9 => by
    rw [h9] at hz
    exact absurd hz (by simp; omega)
  simp only [Host.complete, hpc] at hhost
  split_ifs at hhost with hlt
  · obtain ⟨hn, hf'⟩ := h.clock (g := g) hs.noReset hs.inTime (by omega) hcol fun hi => hne hi.1
    rw [status_of_ne _ _ hne] at hf'
    exact .inl ⟨.replying (j + 1) acc adm (hn.mono (by decide)) (hf'.trans hf) hrep (by omega)
      (by rw [hhost]) (by omega), by rw [hhost]; exact ⟨hh.1, hh.2⟩⟩
  · obtain rfl : j = 7 := by omega
    obtain ⟨hset, hhead⟩ := hh.settle (a := answerTo bankID d rows v)
    obtain ⟨hrp, hdec⟩ := h.lastByte (g := g) hs.noReset hs.inTime hcol hne le_rfl hf
    exact .inr (.concluding acc adm (.deciphering hrp hdec) hrep (by rw [hhost, hhead])
      (by rwa [hhost]))

theorem Asked.transfer (h : s.Asked bankID d rows v k) (hh : s.host.Holds rows) :
    (s.clock g bankID c).Asked bankID d rows v (k + 1) ∧ (s.clock g bankID c).host.Holds rows ∨
      (s.clock g bankID c).Ended bankID d rows v := by
  have hkeep (hpc : ∀ k a, s.host.pc ≠ .writeReply k a) :
      (s.clock g bankID c).host.Holds rows := by
    rw [(hs.transfer hw ht).1]
    exact hh.complete fun k a h => absurd h (hpc k a)
  cases h with
  | polling n h hpc hk =>
    exact .inl ⟨asked_of_polling hs hw ht h hpc hk, hkeep fun _ _ => by simp [hpc]⟩
  | confirming b h hpc hg hk =>
    exact .inl ⟨asked_of_confirming hs hw ht h hpc hg hk, hkeep fun _ _ => by simp [hpc]⟩
  | confirmed h hpc hk =>
    exact .inl ⟨asked_of_confirmed hs hw ht h hpc hk, hkeep fun _ _ => by simp [hpc]⟩
  | reading i h hi hpc hk =>
    exact .inl ⟨asked_of_reading hs hw ht h hi hpc hh hk, hkeep fun _ _ => by simp [hpc]⟩
  | stating b h hb hpc hk =>
    exact (asked_of_stating hs hw ht h hb hpc hh hk).imp_left fun ha =>
      ⟨ha, hkeep fun _ _ => by simp [hpc]⟩
  | replying j acc adm h hf hrep hj hpc hk => exact asked_of_replying hs hw ht h hf hrep hj hpc hh hk

end Asked

theorem Asked.state (h : s.Asked bankID d rows v k) :
    s.top.atm.systemState = .communicating ∧ k < 22 := by
  cases h with
  | polling n h hpc hk => exact ⟨(h 0).state, by omega⟩
  | confirming b h hpc hg hk => exact ⟨(h 0).state, by omega⟩
  | confirmed h hpc hk => exact ⟨(h 0).state, by omega⟩
  | reading i h hi hpc hk => exact ⟨(h 0).state, by omega⟩
  | stating b h hb hpc hk => exact ⟨(h 0).state, by omega⟩
  | replying j acc adm h hf hrep hj hpc hk => exact ⟨h.state, by omega⟩

/-! ### The whole transaction -/

def served (c : Cycle) (s : Sys) : Nat :=
  if c.act = .transfer ∧ s.top.atm.systemState = .communicating then 1 else 0

/-- The system with the record of the keys and the number of these accesses beside it. -/
abbrev watched (g : Generics) (bankID : BitVec 5) : Cycle → Sys × Keys × Nat → Sys × Keys × Nat :=
  ghost (Sys.clock g bankID) fun c s x =>
    (x.1.next (s.top.edge (s.pins c)) s.top.atm, x.2 + s.served c)

theorem watched_fst (x : Sys × Keys × Nat) (cs : List Cycle) :
    (run (watched g bankID) x cs).1 = run (Sys.clock g bankID) x.1 cs := run_ghost_fst x cs

/-- Where the transaction is. -/
inductive Stage (bankID : BitVec 5) (d : Durable) (rows : List Row) (w : Keys) (k : Nat)
    (s : Sys) : Prop
  | preparing : Preparing d s.top.atm → KeysInv s.top.atm.toMain w → s.host.pc = .head →
      s.host.Holds rows → k = 0 → Stage bankID d rows w k s
  | foreign : Foreign s.top.atm → Stage bankID d rows w k s
  | asked (v : BitVec 64) : w.bytes = typedBytes v 8 → s.Asked bankID d rows v k → s.host.Holds rows →
      Stage bankID d rows w k s
  | ended (v : BitVec 64) : w.bytes = typedBytes v 8 → s.Ended bankID d rows v →
      Stage bankID d rows w k s

theorem Ended.clock (h : s.Ended bankID d rows v) (hm : d.cacheMode = false)
    (hs : s.Steady g bankID c) (hr : s.top.atm.systemState ≠ .ready) (hw : s.Wf) :
    (s.clock g bankID c).Ended bankID d rows v := by
  cases h with
  | rejected hr' => exact absurd hr' hr
  | concluding acc adm h hrep hpc hh =>
    have hst := h.state
    have hhost := hs.stays_at_head hw hpc
      (by rcases hst with hst | hst | hst | hst | hst <;> simp [hst])
      (by rcases hst with hst | hst | hst | hst | hst <;> simp [hst, SystemState.Resyncing])
    exact .concluding acc adm (h.clock hm hr hs.noReset) hrep (by rw [hhost, hpc])
      (by rwa [hhost])

theorem Stage.clock (h : s.Stage bankID d rows w k) (hm : d.cacheMode = false)
    (hs : s.Steady g bankID c) (hr : s.top.atm.systemState ≠ .ready) (hw : s.Wf) :
    (s.clock g bankID c).Stage bankID d rows (w.next (s.top.edge (s.pins c)) s.top.atm)
      (k + s.served c) := by
  cases h with
  | preparing hp hk hpc hh h0 =>
    have hst := hp.state
    have hhost := hs.stays_at_head hw hpc
      (by rcases hst with hst | hst | hst <;> simp [hst])
      (by rcases hst with hst | hst | hst <;> simp [hst, SystemState.Resyncing])
    have hk' := keysInv_clock (g := g) (i := s.top.edge (s.pins c)) hk
    have h0' : k + s.served c = 0 := by
      rw [h0, served, if_neg]
      rcases hst with hst | hst | hst <;> simp [hst]
    rcases hp.clock (g := g) hs.noReset fun _ => 0 with hp' | ha | hf
    · exact .preparing hp' hk' (by rw [hhost, hpc]) (by rwa [hhost]) h0'
    · simp only [KeysInv, ha.state] at hk'
      exact .asked _ hk' (.polling 35 (fun r => ha.any r) (by rw [hhost, hpc]) (.inl h0'))
        (by rwa [hhost])
    · exact .foreign hf
  | foreign hf => exact .foreign (hf.clock hr hs.noReset)
  | asked v hk ha hh =>
    have hst := ha.state.1
    rw [Keys.next_of_ne hr (by simp [hst])]
    by_cases ht : c.act = .transfer
    · rw [served, if_pos ⟨ht, hst⟩]
      rcases ha.transfer hs hw ht hh with ⟨ha', hh'⟩ | he
      · exact .asked v hk ha' hh'
      · exact .ended v hk he
    · rw [served, if_neg fun h => ht h.1]
      exact .asked v hk (ha.idle hs hw ht) (by rw [(hs.host ht).1]; exact hh)
  | ended v hk he =>
    have hst : s.top.atm.systemState ≠ .takingInput := by
      cases he with
      | rejected hr' => exact absurd hr' hr
      | concluding acc adm h => rcases h.state with hst | hst | hst | hst | hst <;> simp [hst]
    rw [Keys.next_of_ne hr hst]
    exact .ended v hk (he.clock hm hs hr hw)

structure Idle (g : Generics) (s : Sys) : Prop extends s.Wf where
  ready : s.top.atm.systemState = .ready
  online : s.top.atm.cacheMode = false
  allocator : s.top.atm.noteAllocator.systemState = .initial
  search : s.top.atm.noteAllocator.binarysearchStart = false
  polling : s.host.pc = .head
  saved : s.host.csv = s.host.dataFromCSV
  timeCounter : s.top.atm.timeCounter ≤ g.N

theorem Idle.begin (h : s.Idle g) (hs : s.Steady g bankID c)
    (hn : (s.clock g bankID c).top.atm.systemState = .takingInput) :
    (s.clock g bankID c).Stage bankID
      { s.top.atm.durable with bankId := (s.clock g bankID c).top.atm.bankId }
      s.host.dataFromCSV {} 0 := by
  have hhost := hs.stays_at_head h.toWf h.polling (by simp [h.ready])
    (by simp [h.ready, SystemState.Resyncing])
  have hk : KeysInv s.top.atm.toMain {} := by simp only [KeysInv, h.ready]
  have hk' := keysInv_clock (g := g) (i := s.top.edge (s.pins c)) hk
  have hr : (s.top.edge (s.pins c)).debouncedReset = false := hs.noReset
  have hnext : Keys.next (s.top.edge (s.pins c)) s.top.atm {} = {} := by
    simp only [Keys.next, hr, h.ready, Bool.false_eq_true, if_false]
  rw [hnext] at hk'
  exact .preparing (Preparing.begin h.ready h.online h.allocator h.search hr hn) hk'
    (by rw [hhost, h.polling]) (by rw [hhost]; exact ⟨rfl, h.saved⟩) rfl

def Transacting (g : Generics) (bankID : BitVec 5) (c : Cycle) (s : Sys) : Prop :=
  s.Steady g bankID c ∧ s.top.atm.systemState ≠ .ready

/-- What the transaction has come to in the state `u` when the user has typed `w`. -/
structure Outcome (bankID : BitVec 5) (d : Durable) (rows : List Row) (w : Keys) (u : Sys) :
    Prop where
  typed : w.bytes = typedBytes u.top.atm.enInput 8
  loaded : ∀ a, accountOf bankID rows u.top.atm.enInput = some a → a.isAdmin = true →
    w.bytes.drop 4 = [u.top.atm.stock.n2000, u.top.atm.stock.n1000, u.top.atm.stock.n500,
      u.top.atm.stock.n100]
  transacted : Transacted bankID d rows u.top.atm.enInput u.top.atm.durable u.host
  returned : accountOf bankID rows u.top.atm.enInput = none → u.top.atm.systemState = .ready

theorem loaded_of_transacted {u : Sys} (hw : w.bytes = typedBytes v 8)
    (ht : Transacted bankID d rows v u.top.atm.durable u.host) {a : Account}
    (ha : accountOf bankID rows v = some a) (hadm : a.isAdmin = true) :
    w.bytes.drop 4 = [u.top.atm.stock.n2000, u.top.atm.stock.n1000, u.top.atm.stock.n500,
      u.top.atm.stock.n100] := by
  have hstock : u.top.atm.stock = _ := congrArg Durable.stock (ht.admin a ha hadm).1
  rw [hw, hstock]
  rfl

theorem outcome_of_transacted {u : Sys} (hw : w.bytes = typedBytes u.top.atm.enInput 8)
    (ht : Transacted bankID d rows u.top.atm.enInput u.top.atm.durable u.host)
    (hr : accountOf bankID rows u.top.atm.enInput = none → u.top.atm.systemState = .ready) :
    u.Outcome bankID d rows w :=
  ⟨hw, fun _ => loaded_of_transacted hw ht, ht, hr⟩

theorem Stage.outcome (h : s.Stage bankID d rows w k) (hrows : ∀ r ∈ rows, 0 ≤ r.balance.toInt)
    (hb : s.top.atm.bankId = bankBits s.top.atm.enInput)
    (hs : s.top.atm.systemState = .ready ∨ s.top.atm.systemState = .dummy) :
    s.Outcome bankID d rows w := by
  cases h with
  | preparing hp =>
    rcases hp.state with hst | hst | hst <;> simp [hst] at hs
  | foreign hf => exact absurd hb hf.bank
  | asked v hk ha => simp [ha.state.1] at hs
  | ended v hk he =>
    cases he with
    | rejected hr hd hv hst hh =>
      subst hv hd
      have hn := status_four_iff.mp hst
      exact outcome_of_transacted hk (transacted_of_unknown hn hh) fun _ => hr
    | concluding acc adm hc hrep hpc hh =>
      cases hc with
      | deciphering _ hst => simp [hst] at hs
      | loading _ _ hst => simp [hst] at hs
      | dispensing _ hst => simp [hst] at hs
      | concluded hcom hv =>
        subst hv
        exact outcome_of_transacted hk (transacted_of_comes hrows hrep hcom hh)
          fun hn => absurd hn (known_of_reports hrep)

theorem Stage.returned (h : s.Stage bankID d rows w k)
    (hb : s.top.atm.bankId = bankBits s.top.atm.enInput)
    (hn : accountOf bankID rows s.top.atm.enInput = none) {j : Nat} {a : Answer}
    (hpc : s.host.pc = .writeReply j a) : s.top.atm.systemState = .ready := by
  cases h with
  | preparing hp hk hpc' => simp [hpc] at hpc'
  | foreign hf => exact absurd hb hf.bank
  | asked v hk ha =>
    cases ha with
    | replying j acc adm h hf hrep =>
      rw [h.enInput] at hn
      exact absurd hn (known_of_reports hrep)
    | _ => simp_all
  | ended v hk he =>
    cases he with
    | rejected hr => exact hr
    | concluding acc adm hc hrep hpc' => simp [hpc] at hpc'

theorem Stage.served_lt (h : s.Stage bankID d rows w k)
    (hs : s.top.atm.systemState = .communicating) : k < 22 := by
  cases h with
  | preparing hp => rcases hp.state with hst | hst | hst <;> simp [hst] at hs
  | foreign hf => rcases hf.state with hst | hst <;> simp [hst] at hs
  | asked v hk ha => exact ha.state.2
  | ended v hk he =>
    cases he with
    | rejected hr => simp [hr] at hs
    | concluding acc adm hc =>
      rcases hc.state with hst | hst | hst | hst | hst <;> simp [hst] at hs

/-! ### How long it takes -/

theorem Stage.state (h : s.Stage bankID d rows w k) :
    s.top.atm.systemState = .takingInput ∨ s.top.atm.systemState.Serves ∨ Foreign s.top.atm ∨
      s.top.atm.systemState = .ready ∨ s.top.atm.systemState = .dummy := by
  cases h with
  | preparing hp => rcases hp.state with hst | hst | hst <;> simp [hst, SystemState.Serves]
  | foreign hf => exact .inr (.inr (.inl hf))
  | asked v hk ha => simp [ha.state.1, SystemState.Serves]
  | ended v hk he =>
    cases he with
    | rejected hr => simp [hr]
    | concluding acc adm hc =>
      rcases hc.state with hst | hst | hst | hst | hst <;> simp [hst, SystemState.Serves]

structure Timed (g : Generics) (bankID : BitVec 5) (d : Durable) (rows : List Row)
    (x : Sys × Keys × Nat) : Prop where
  wf : x.1.Wf
  stage : x.1.Stage bankID d rows x.2.1 x.2.2
  paced : 0 < g.maxNoOfBlinks → x.1.top.atm.Paced g
  live : 0 < g.maxNoOfBlinks → x.1.top.atm.systemState ≠ .takingInput → x.1.top.atm.Live g

theorem Timed.clock {x : Sys × Keys × Nat} (h : Timed g bankID d rows x) (hm : d.cacheMode = false)
    (hc : Transacting g bankID c x.1) : Timed g bankID d rows (watched g bankID c x) where
  wf := h.wf.clock hc.1.enabled
  stage := h.stage.clock hm hc.1 hc.2 h.wf
  paced := fun hmax => paced_clock hmax (h.paced hmax)
  live := fun hmax _ => by
    by_cases hs : x.1.top.atm.systemState = .takingInput
    · have hp : Preparing d x.1.top.atm := by
        cases h.stage with
        | preparing hp => exact hp
        | foreign hf => rcases hf.state with hst | hst <;> simp [hst] at hs
        | asked v hk ha => simp [ha.state.1] at hs
        | ended v hk he =>
          cases he with
          | rejected hr => simp [hr] at hs
          | concluding acc adm hc =>
            rcases hc.state with hst | hst | hst | hst | hst <;> simp [hst] at hs
      exact (h.paced hmax).live_clock hmax hs hp.encrypter hp.decrypter hc.1.noReset
    · exact live_clock hmax (h.live hmax hs)

theorem Idle.timed (h : s.Idle g) (hs : s.Steady g bankID c)
    (hn : (s.clock g bankID c).top.atm.systemState = .takingInput) :
    Timed g bankID { s.top.atm.durable with bankId := (s.clock g bankID c).top.atm.bankId }
      s.host.dataFromCSV (s.clock g bankID c, {}, 0) where
  wf := h.toWf.clock hs.enabled
  stage := h.begin hs hn
  paced := fun hmax => .begin hmax h.ready h.online h.timeCounter hs.noReset hn
  live := fun _ hne => absurd hn hne

theorem Timed.exists_over {x : Sys × Keys × Nat} {cs : List Cycle}
    (h : Timed g bankID d rows x) (hmax : 0 < g.maxNoOfBlinks) (hm : d.cacheMode = false)
    (hr : Runs (Sys.clock g bankID) (Transacting g bankID) x.1 cs)
    (hs : x.1.top.atm.systemState ≠ .takingInput) (hlt : g.transactionTime < cs.length) :
    ∃ ds, ds <+: cs ∧ ds.length ≤ g.transactionTime + 1 ∧
      (Foreign (run (Sys.clock g bankID) x.1 ds).top.atm ∨
        (run (Sys.clock g bankID) x.1 ds).top.atm.systemState = .ready ∨
        (run (Sys.clock g bankID) x.1 ds).top.atm.systemState = .dummy) := by
  rcases h.stage.state with hst | hst | hst
  · exact absurd hst hs
  · have hg : Runs (watched g bankID) (fun c y => Transacting g bankID c y.1) x cs :=
      runs_ghost.mpr hr
    have hle := timeLeft_le hmax (h.live hmax hs) hst
    have hstep (c : Cycle) (y : Sys × Keys × Nat) (hc : Transacting g bankID c y.1)
        (hy : Timed g bankID d rows y ∧ y.1.top.atm.systemState.Serves) :
        (Foreign (watched g bankID c y).1.top.atm ∨
          (watched g bankID c y).1.top.atm.systemState = .ready ∨
          (watched g bankID c y).1.top.atm.systemState = .dummy) ∨
        (Timed g bankID d rows (watched g bankID c y) ∧
          (watched g bankID c y).1.top.atm.systemState.Serves) ∧
          (watched g bankID c y).1.top.atm.timeLeft g < y.1.top.atm.timeLeft g := by
      obtain ⟨hy, hys⟩ := hy
      have hne : y.1.top.atm.systemState ≠ .takingInput := fun hq => by
        rw [hq] at hys
        exact hys
      have hy' := hy.clock hm hc
      rcases hy'.stage.state with hq | hq | hq
      · have hmem := mem_successors g (y.1.top.edge (y.1.pins c)) y.1.top.atm
        rw [show (y.1.top.atm.clock g _).systemState = .takingInput from hq] at hmem
        revert hys hmem
        cases y.1.top.atm.systemState <;> simp [SystemState.Serves, SystemState.successors]
      · exact .inr ⟨⟨hy', hq⟩, timeLeft_clock hmax (hy.live hmax hne) hc.1.noReset hys hq⟩
      · exact .inl hq
    obtain ⟨ds, hds, hlen, hover⟩ := hg.exists_prefix_of_measure
      (P := fun y => Timed g bankID d rows y ∧ y.1.top.atm.systemState.Serves)
      (Q := fun y => Foreign y.1.top.atm ∨ y.1.top.atm.systemState = .ready ∨
        y.1.top.atm.systemState = .dummy) (fun y => y.1.top.atm.timeLeft g) hstep ⟨h, hst⟩ (by omega)
    rw [watched_fst] at hover
    exact ⟨ds, hds, by omega, hover⟩
  · exact ⟨[], List.nil_prefix, Nat.zero_le _, hst⟩

theorem foreign_run {cs : List Cycle} (h : Foreign s.top.atm)
    (hr : Runs (Sys.clock g bankID) (Transacting g bankID) s cs) :
    Foreign (run (Sys.clock g bankID) s cs).top.atm :=
  hr.invariant (P := fun u : Sys => Foreign u.top.atm) (fun _ _ hc hf => hf.clock hc.2 hc.1.noReset) h

/-- An online transaction from the start to its end, without a reset, a timeout or a failure of
the channel. -/
theorem online_transaction (g : Generics) (bankID : BitVec 5) {s : Sys} {c : Cycle}
    {cs : List Cycle} (hi : s.Idle g) (hrows : ∀ r ∈ s.host.dataFromCSV, 0 ≤ r.balance.toInt)
    (hc : s.Steady g bankID c) (hn : (s.clock g bankID c).top.atm.systemState = .takingInput)
    (hr : Runs (Sys.clock g bankID) (Transacting g bankID) (s.clock g bankID c) cs) :
    let d := { s.top.atm.durable with bankId := (s.clock g bankID c).top.atm.bankId }
    let x := run (watched g bankID) (s.clock g bankID c, {}, 0) cs
    let u := x.1
    (u.top.atm.systemState = .communicating → x.2.2 < 22) ∧
      (u.top.atm.bankId = bankBits u.top.atm.enInput →
        (u.top.atm.systemState = .ready ∨ u.top.atm.systemState = .dummy →
          u.Outcome bankID d s.host.dataFromCSV x.2.1) ∧
        (accountOf bankID s.host.dataFromCSV u.top.atm.enInput = none →
          (∃ j a, u.host.pc = .writeReply j a) → u.top.atm.systemState = .ready) ∧
        -- the end is reached in time after the last key
        (0 < g.maxNoOfBlinks → ∀ js ds, cs = js ++ ds →
          (run (Sys.clock g bankID) (s.clock g bankID c) js).top.atm.systemState ≠ .takingInput →
          g.transactionTime < ds.length → ∃ es, es <+: ds ∧ es.length ≤ g.transactionTime + 1 ∧
            let e := run (Sys.clock g bankID) (s.clock g bankID c) (js ++ es)
            e.top.atm.systemState = .ready ∨ e.top.atm.systemState = .dummy)) := by
  intro d x u
  have htimed {js : List Cycle}
      (hjs : Runs (Sys.clock g bankID) (Transacting g bankID) (s.clock g bankID c) js) :
      Timed g bankID d s.host.dataFromCSV (run (watched g bankID) (s.clock g bankID c, {}, 0) js) := by
    have hg : Runs (watched g bankID) (fun c y => Transacting g bankID c y.1)
        (s.clock g bankID c, {}, 0) js := runs_ghost.mpr hjs
    exact hg.invariant (P := Timed g bankID d s.host.dataFromCSV)
      (fun _ _ hc h => h.clock hi.online hc) (hi.timed hc hn)
  have hstage := (htimed hr).stage
  refine ⟨hstage.served_lt, fun hb => ⟨hstage.outcome hrows hb,
    fun hnone ⟨j, a, hpc⟩ => hstage.returned hb hnone hpc, ?_⟩⟩
  rintro hmax js ds rfl hs hlt
  obtain ⟨hjs, hds⟩ := (runs_append _ _).mp hr
  have hfst := @watched_fst g bankID (s.clock g bankID c, {}, 0)
  obtain ⟨es, hes, hlen, hover⟩ := (htimed hjs).exists_over hmax hi.online
    (by rw [hfst]; exact hds) (by rw [hfst]; exact hs) hlt
  rw [hfst] at hover
  refine ⟨es, hes, hlen, ?_⟩
  rw [run_append]
  refine hover.resolve_left fun hf => ?_
  obtain ⟨fs, rfl⟩ := hes
  have hend := foreign_run hf ((runs_append _ _).mp hds).2
  rw [← run_append, ← run_append, ← hfst] at hend
  exact hend.bank hb

/-! ### A withdrawal of 500 -/

structure Working (c : Cycle) (s : Sys) : Prop where
  enabled : s.Enabled c
  noReset : NoReset (s.pins c) s.top
  running : c.act ≠ .stop ∧ c.act ≠ .restart
  ready : s.top.atm.systemState ≠ .ready
  lost : s.top.atm.systemState ≠ .communicationLost

abbrev Works (g : Generics) (bankID : BitVec 5) : Sys → Sys → Prop :=
  Reaches (Sys.clock g bankID) Working

theorem runs_transacting {cs : List Cycle} (h : Runs (Sys.clock g bankID) Working s cs)
    (hl : (run (Sys.clock g bankID) s cs).top.atm.systemState ≠ .communicationLost) :
    Runs (Sys.clock g bankID) (Transacting g bankID) s cs := by
  induction cs generalizing s with
  | nil => trivial
  | cons c cs ih =>
    obtain ⟨hc, hcs⟩ := h
    refine ⟨⟨⟨hc.enabled, hc.noReset, hc.running, ?_⟩, hc.ready⟩, ih hcs hl⟩
    cases cs with
    | nil => exact hl
    | cons c' cs => exact hcs.1.lost

theorem works_of_arrives {u : Sys}
    (h : Arrives g bankID (fun v => v.top.atm.systemState = .communicating) s u) :
    Works g bankID s u :=
  h.mono fun c v h => ⟨h.enabled, h.noReset, h.goesOn, by rw [h.meets]; decide,
    by rw [h.meets]; decide⟩

theorem works_of_calm (bankID : BitVec 5) {u : TopLevel} {Q : Atm → Prop}
    (hQ : ∀ s : Atm, Q s → s.systemState ≠ .ready ∧ s.systemState ≠ .communicationLost)
    (h : Reaches (TopLevel.clock g) (TopLevel.Calm s.chanAddr Q) s.top u)
    (hp : s.top.atm.prevChanAddr = s.chanAddr) :
    ∃ n, Works g bankID s { s with top := u, gap := s.gap + n } := by
  obtain ⟨n, hn⟩ := exists_user g bankID (fun _ _ h => h.alone.1) h hp
  exact ⟨n, hn.mono fun c v ⟨hv, hact, _, hb⟩ =>
    ⟨hv.enabled, hb.noReset, by simp [hact], (hQ _ hb.meets).1, (hQ _ hb.meets).2⟩⟩

def starting : Sys where
  top :=
    { atm := { systemState := .ready, stock := ⟨1, 1, 1, 1⟩, limits := ⟨5000, ⟨9, 9, 9, 9⟩⟩ }
      loadBankIdDebouncer := ⟨false, 0, false⟩
      dataInDebouncer := ⟨false, 0, false⟩
      startDebouncer := ⟨true, 0, true⟩
      doneDebouncer := ⟨false, 0, false⟩
      resetDebouncer := ⟨false, 0, false⟩ }
  host := ⟨.head, [⟨0, 0, 0, 1000⟩], [⟨0, 0, 0, 1000⟩]⟩
  chanAddr := 0
  selected := false
  gap := 0

def startCycle : Cycle := ⟨{ start := true }, 0, .idle⟩

theorem starting_idle : starting.Idle {} where
  bounded := trivial
  addressed := fun h => Bool.noConfusion h
  ready := rfl
  online := rfl
  allocator := rfl
  search := rfl
  polling := rfl
  saved := rfl
  timeCounter := Nat.zero_le _

theorem starting_steady : starting.Steady {} 0 startCycle :=
  ⟨trivial, rfl, by decide, by decide⟩

theorem starting_parked : starting.top.Settled { start := true } ∧
    starting.top.atm.Parked {} 0 starting.top.atm.durable NoteAllocator.powerUp :=
  ⟨⟨⟨rfl, rfl⟩, ⟨rfl, rfl⟩, ⟨rfl, rfl⟩, ⟨rfl, rfl⟩, ⟨rfl, rfl⟩⟩,
    { durable := rfl
      session := rfl
      addr := rfl
      timeCounter := Nat.zero_le _
      encrypter := ⟨rfl, rfl⟩
      decrypter := ⟨rfl, rfl⟩
      allocator := rfl
      state := rfl
      count := rfl
      taken := rfl }⟩

theorem exists_debited : ∃ u, Works {} 0 (starting.clock {} 0 startCycle) u ∧
    u.top.atm.systemState = .dummy ∧ u.top.atm.bankId = 0 ∧ u.top.atm.enInput = 500 := by
  have hN : debounceTime ≤ ({} : Generics).N := by rw [debounceTime_eq]; decide
  have hlate : 2 * ({} : Generics).N + 4000 < 31 * (({} : Generics).N + 1) := by decide
  obtain ⟨hs₀, hp₀⟩ := starting_parked
  obtain ⟨hs₁, hat₁⟩ := hs₀.step (g := {}) (p := starting.pins startCycle) rfl
  have hp₁ := hp₀.start (v := 500) (i := Buttons.edge { start := true } (starting.pins startCycle))
    ⟨rfl, rfl, rfl⟩ rfl rfl
  rw [← hat₁] at hp₁
  obtain ⟨t₂, m, w, h₂, hs₂, hm, hw, hp₂⟩ := exists_waiting_of_typing (f := false) hN hs₁ rfl rfl hp₁
    (by decide) fun _ => 0
  have hfin := (allocating_finished (d := starting.top.atm.durable) (v := 500)
    (a := NoteAllocator.powerUp) rfl hm).state
  obtain ⟨n, h₂⟩ := works_of_calm 0 (s := starting.clock {} 0 startCycle)
    (fun _ hs => by rcases hs.2 with h | h | h | h <;> simp [h]) h₂ hp₁.addr
  -- the host answers
  obtain ⟨s₃, h₃, hs₃, hh₃, hm₃⟩ := exists_asked {} 0 hfin
    (s := { starting.clock {} 0 startCycle with
      top := t₂, gap := (starting.clock {} 0 startCycle).gap + n })
    (R := fun v => v.top.atm.systemState = .communicating) (v := 500) (w := w) 1 rfl
    (by cases (allocating _ _ NoteAllocator.powerUp m).allocationPossible <;> rfl) ⟨hs₂, rfl⟩ rfl hp₂
    (by omega) fun _ h _ => h
  obtain ⟨s₄, h₄, hs₄, hh₄, hm₄⟩ := exists_answered {} 0 hfin
    (R := fun v => v.top.atm.systemState = .communicating) (.inl rfl) hs₃ hh₃ hm₃ (by omega)
    fun _ h _ => h
  obtain ⟨s₅, h₅, ho, -, hst, hs₅, hc₅, -, hd₅⟩ := exists_accepted {} 0 hfin
    (R := fun v => v.top.atm.systemState = .communicating) hs₄ hh₄ hm₄ (by omega) fun _ _ h _ => h
  -- the notes leave the stock
  obtain ⟨t₆, m, h₆, hs₆, hm, hov⟩ := exists_over_of_decrypting (c := 17) hs₅.settled hd₅ hfin
  obtain ⟨n', h₆⟩ := works_of_calm 0 (s := s₅.clock {} 0 ⟨{}, 0, .transfer⟩)
    (fun s (hs : s.systemState = .decrypt ∨ s.systemState = .dispensingCash) => by
      rcases hs with h | h <;> simp [h]) (by rw [hc₅]; exact h₆) (by rw [hc₅]; exact hd₅.addr)
  have hlast : Works {} 0 s₅ _ := Reaches.single _ ⟨ho.enabled, ho.noReset, ho.goesOn,
    by rw [hst]; decide, by rw [hst]; decide⟩
  refine ⟨_, ((((h₂.trans (works_of_arrives h₃)).trans (works_of_arrives h₄)).trans
    (works_of_arrives h₅)).trans hlast).trans h₆, hov.state, ?_, hov.enInput⟩
  have hb : m.bankId = 0 := congrArg Durable.bankId hm.durable
  have hob : t₆.atm.bankId = m.outcome.bankId := congrArg Durable.bankId hov.durable
  refine hob.trans (Eq.trans ?_ hb)
  unfold Frontend.Atm.outcome
  split <;> rfl

theorem online_transaction_of_500 : ∃ cs,
    let u := (run (watched {} 0) (starting.clock {} 0 startCycle, {}, 0) cs).1
    u.top.atm.systemState = .dummy ∧ Leaves (asks starting.top.atm.durable 500) u.top.atm.stock ∧
      u.host.Holds [⟨0, 0, 0, 500⟩] ∧ u.top.atm.cache.cache1 = 400 := by
  obtain ⟨u, ⟨cs, hr, hu⟩, hs, hb, hv⟩ := exists_debited
  have hrun : (run (watched {} 0) (starting.clock {} 0 startCycle, {}, 0) cs).1 = u :=
    (watched_fst _ cs).trans hu
  obtain ⟨-, h⟩ := online_transaction {} 0 starting_idle (by decide) starting_steady rfl
    (runs_transacting hr (by rw [hu, hs]; decide))
  rw [hrun] at h
  obtain ⟨-, -, htr, -⟩ := (h (by rw [hb, hv]; decide)).1 (.inr hs)
  rw [hv] at htr
  have hpay : Payable { starting.top.atm.durable with
      bankId := (starting.clock {} 0 startCycle).top.atm.bankId } 500 1000 :=
    ⟨by decide, by decide, 0, 0, 1, 0, by decide, by decide, by decide, by decide, by decide⟩
  obtain ⟨hl, hh, hc⟩ := htr.paid ⟨0, false, 1000⟩ (by decide) rfl hpay
  exact ⟨cs, by rw [hrun]; exact hs, by rw [hrun]; exact hl, by rw [hrun]; exact hh,
    by rw [hrun]; exact hc⟩

end Sys

end AtmController.System
