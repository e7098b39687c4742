import AtmController.System.Unsynchronised

/-! Where the bytes of an accepted reply come from: beside the system, a ghost record of the
iteration of the host's loop that wrote each byte, and of the visit to state 00011 in which the
host read each channel. -/

namespace AtmController.System

open Clocked Backend Frontend Slice

structure Provenance where
  /-- How often the ATM has entered state 00011. -/
  visit : Nat := 0
  /-- How often the host has polled at the head of its loop. -/
  iteration : Nat := 0
  /-- The iteration that last read a channel, and in which visit, if it was in one. -/
  readBy : Nat → Option (Nat × Nat) := fun _ => none
  /-- The iteration that wrote a byte of `response_from_backend`. -/
  writtenBy : Nat → Option Nat := fun _ => none

/-- The system with its ghost record. -/
structure Audited where
  sys : Sys
  log : Provenance := {}

def channelFrom (first : Nat) (i : AtmEdge) : Option Nat :=
  if i.h2fValid ∧ first ≤ i.chanAddr.toNat ∧ i.chanAddr.toNat < first + 8 then
    some (i.chanAddr.toNat - first)
  else none

/-- The byte of `response_from_backend` that an edge assigns. -/
def assigned (i : AtmEdge) (s : Atm) : Option Nat :=
  match s.systemState with
  | .setup => channelFrom 18 i
  | .communicating | .communicateCache => channelFrom 10 i
  | _ => none

def Provenance.next (g : Generics) (c : Cycle) (s : Sys) (l : Provenance) : Provenance where
  visit := if s.Offers g c then l.visit + 1 else l.visit
  iteration := if c.act = .transfer ∧ s.host.pc = .head then l.iteration + 1 else l.iteration
  readBy := match c.act, s.host.pc with
    | .transfer, .readInput _ i _ => fun k =>
      if k = i + 1 then
        if s.top.atm.systemState = .communicating then some (l.iteration, l.visit) else none
      else l.readBy k
    | _, _ => l.readBy
  writtenBy := fun k =>
    if assigned (s.top.edge (s.pins c)) s.top.atm = some k then some l.iteration
    else l.writtenBy k

namespace Audited

def clock (g : Generics) (bankID : BitVec 5) (c : Cycle) (x : Audited) : Audited :=
  ⟨x.sys.clock g bankID c, x.log.next g c x.sys⟩

def powerUp (rows : List Row) : Audited := { sys := .powerUp rows }

theorem run_sys (g : Generics) (bankID : BitVec 5) (x : Audited) (cs : List Cycle) :
    (run (clock g bankID) x cs).sys = run (Sys.clock g bankID) x.sys cs :=
  run_proj (f := sys) (fun _ _ => rfl) x cs

theorem runs_sys {g : Generics} {bankID : BitVec 5} {ok : Cycle → Sys → Prop} {x : Audited}
    {cs : List Cycle} : Runs (clock g bankID) (fun c y => ok c y.sys) x cs ↔
      Runs (Sys.clock g bankID) ok x.sys cs :=
  runs_proj (f := sys) fun _ _ => rfl

end Audited

def readDone : Pc → Nat
  | .readInput _ i _ => i
  | .writeStatus .. | .writeReply .. => 8
  | _ => 0

def writeDone : Pc → Nat
  | .writeReply k _ => k
  | _ => 0

theorem done_of_not_exchanging {pc : Pc} (h : ¬ pc.Exchanging) :
    readDone pc = 0 ∧ writeDone pc = 0 := by
  cases pc with
  | readInput v i inp => exact absurd trivial h
  | writeStatus b a => exact absurd trivial h
  | writeReply k a => exact absurd trivial h
  | _ => exact ⟨rfl, rfl⟩

theorem done_answer (bankID : BitVec 5) (v : BitVec 8) (inp : Block) (h : Host) :
    readDone (h.answer bankID v inp).pc ≤ 8 ∧ writeDone (h.answer bankID v inp).pc = 0 := by
  rcases Host.answer_cases bankID v inp h with ⟨a, ha⟩ | ha
  · rw [ha]
    rcases Host.reply_cases a h with ⟨b, -, hr⟩ | ⟨-, hr⟩ <;>
      simp [hr, readDone, writeDone]
  · rw [ha]
    simp [readDone, writeDone]

namespace Sys

variable {g : Generics} {bankID : BitVec 5} {c : Cycle} {s : Sys}

def Replies (c : Cycle) (s : Sys) : Prop :=
  (s.pins c).h2fValid = true ∧ 10 ≤ s.chanAddr.toNat ∧ s.chanAddr.toNat < 18

instance (c : Cycle) (s : Sys) : Decidable (s.Replies c) := inferInstanceAs (Decidable (_ ∧ _))

inductive Moves (c : Cycle) (s : Sys) (pc' : Pc) : Prop
  | rest : ¬ s.Replies c → pc' = s.host.pc → c.act ≠ .transfer → Moves c s pc'
  | outside : ¬ s.Replies c → readDone pc' = 0 → writeDone pc' = 0 → writeDone s.host.pc = 0 →
      Moves c s pc'
  | read (v i inp) : ¬ s.Replies c → c.act = .transfer → s.host.pc = .readInput v i inp →
      readDone pc' ≤ i + 1 → writeDone pc' = 0 → Moves c s pc'
  | status (b a) : ¬ s.Replies c → c.act = .transfer → s.host.pc = .writeStatus b a →
      pc' = .writeReply 0 a → Moves c s pc'
  | reply (k a) : s.Replies c → c.act = .transfer → s.host.pc = .writeReply k a →
      s.chanAddr.toNat = 10 + k →
      pc' = (if k < 7 then .writeReply (k + 1) a else .head) → Moves c s pc'

theorem moves (g : Generics) (bankID : BitVec 5) (hw : s.Wf) (he : s.Enabled c) :
    Moves c s (s.clock g bankID c).host.pc := by
  have hno (hn : ∀ k a, s.host.pc ≠ .writeReply k a) : ¬ s.Replies c := by
    rintro ⟨hv, hlo, hhi⟩
    obtain ⟨-, a, hpc, -⟩ := hw.reply he hv hlo hhi
    exact hn _ a hpc
  have hidle (hn : c.act ≠ .transfer) : ¬ s.Replies c := by
    rintro ⟨hv, hlo, hhi⟩
    exact hn (hw.reply he hv hlo hhi).1
  have hb := hw.bounded
  cases hact : c.act with
  | idle => exact .rest (hidle (by simp [hact])) (by simp [clock, hact]) (by simp [hact])
  | select => exact .rest (hidle (by simp [hact])) (by simp [clock, hact]) (by simp [hact])
  | stop =>
    simp only [Enabled, hact] at he
    exact .outside (hidle (by simp [hact])) (by simp [clock, hact, Host.stop, readDone])
      (by simp [clock, hact, Host.stop, writeDone]) (by rw [he.2]; rfl)
  | restart =>
    simp only [Enabled, hact] at he
    exact .outside (hidle (by simp [hact])) (by simp [clock, hact, Host.start, readDone])
      (by simp [clock, hact, Host.start, writeDone]) (by rw [he.2]; rfl)
  | transfer =>
    simp only [Enabled, hact] at he
    obtain ⟨op, ho, ha⟩ := hw.addressed he
    have hpc' : (s.clock g bankID c).host.pc = (s.host.complete bankID (s.data c)).pc := by
      simp [clock, hact]
    rw [hpc']
    cases hpc : s.host.pc with
    | stopped => simp [Host.op, hpc] at ho
    | setup k =>
      refine .outside (hno (by simp [hpc])) ?_ ?_ (by rw [hpc]; rfl)
      all_goals
        simp only [Host.complete, hpc]
        split_ifs <;> rfl
    | head =>
      refine .outside (hno (by simp [hpc])) ?_ ?_ (by rw [hpc]; rfl)
      all_goals
        simp only [Host.complete, hpc]
        split_ifs <;> rfl
    | confirm v cnt =>
      refine .outside (hno (by simp [hpc])) ?_ ?_ (by rw [hpc]; rfl)
      all_goals
        simp only [Host.complete, hpc]
        split_ifs <;> rfl
    | readInput v i inp =>
      rw [hpc] at hb
      refine .read v i inp (hno (by simp [hpc])) hact hpc ?_ ?_
      all_goals
        simp only [Host.complete, hpc]
        split_ifs with hi
      · exact le_rfl
      · exact (done_answer _ _ _ _).1.trans (by have := hb.2; omega)
      · rfl
      · exact (done_answer _ _ _ _).2
    | writeStatus b a =>
      exact .status b a (hno (by simp [hpc])) hact hpc (by simp [Host.complete, hpc])
    | writeReply k a =>
      rw [hpc] at hb
      simp only [Pc.Bounded] at hb
      simp only [Host.op, hpc, Option.some.injEq] at ho
      have hk : s.chanAddr.toNat = 10 + k := by
        rw [ha, ← ho]
        change (BitVec.ofNat 7 (10 + k)).toNat = _
        rw [BitVec.toNat_ofNat]
        omega
      refine .reply k a ⟨?_, by omega, by omega⟩ hact hpc hk ?_
      · simp [pins, written, hact, Host.op, hpc]
      · simp only [Host.complete, hpc]
        split_ifs
        · rfl
        · exact Host.settle_pc a s.host

end Sys

/-- While the ATM is in state 00011, the reads of the host are of this visit and the bytes
present are those it has written in this iteration. -/
structure AuditInv (x : Audited) : Prop extends x.sys.BitmapInv where
  bits : x.sys.top.atm.systemState = .communicating → ∀ k < 8,
    x.sys.top.atm.checksumForBackendResponse.getLsbD k = decide (k < writeDone x.sys.host.pc)
  writes : x.sys.top.atm.systemState = .communicating → ∀ k < writeDone x.sys.host.pc,
    x.log.writtenBy k = some x.log.iteration
  reads : x.sys.top.atm.systemState = .communicating → ∀ k < readDone x.sys.host.pc,
    x.log.readBy (k + 1) = some (x.log.iteration, x.log.visit)

namespace AuditInv

open Sys

variable {g : Generics} {bankID : BitVec 5} {c : Cycle} {x : Audited}

theorem bits_clock (h : AuditInv x) (hs : x.sys.top.atm.systemState = .communicating) {k : Nat}
    (hk : k < 8) :
    (x.sys.top.atm.collect 10
        (x.sys.top.edge (x.sys.pins c))).checksumForBackendResponse.getLsbD k = true ↔
      x.sys.Replies c ∧ x.sys.chanAddr.toNat = 10 + k ∨ k < writeDone x.sys.host.pc := by
  rw [Main.getLsbD_collect _ _ _ hk, h.bits hs k hk]
  change (if (x.sys.pins c).h2fValid = true ∧ x.sys.chanAddr.toNat = 10 + k then _ else _) = _ ↔ _
  by_cases hr : (x.sys.pins c).h2fValid = true ∧ x.sys.chanAddr.toNat = 10 + k
  · rw [if_pos hr]
    exact iff_of_true rfl (.inl ⟨⟨hr.1, by omega, by omega⟩, hr.2⟩)
  · rw [if_neg hr, decide_eq_true_iff]
    exact ⟨.inr, fun h => h.resolve_left fun h => hr ⟨h.1.1, h.2⟩⟩

theorem writtenBy_next (hs : x.sys.top.atm.systemState = .communicating) (k : Nat) :
    (x.clock g bankID c).log.writtenBy k =
      if x.sys.Replies c ∧ x.sys.chanAddr.toNat = 10 + k then some x.log.iteration
      else x.log.writtenBy k := by
  have ha : assigned (x.sys.top.edge (x.sys.pins c)) x.sys.top.atm = some k ↔
      x.sys.Replies c ∧ x.sys.chanAddr.toNat = 10 + k := by
    have hr : assigned (x.sys.top.edge (x.sys.pins c)) x.sys.top.atm =
        if x.sys.Replies c then some (x.sys.chanAddr.toNat - 10) else none := by
      simp only [assigned, hs]
      rfl
    rw [hr]
    split_ifs with hc
    · rw [Option.some.injEq]
      exact ⟨fun h => ⟨hc, by have := hc.2.1; omega⟩, fun h => by omega⟩
    · exact iff_of_false (by simp) fun h => hc h.1
  change (if _ then _ else _) = _
  simp only [ha]

theorem clock (h : AuditInv x) (he : x.sys.Enabled c)
    (ho : x.sys.Offers g c → ¬ x.sys.host.pc.Exchanging) : AuditInv (x.clock g bankID c) := by
  suffices hgoal : (x.clock g bankID c).sys.top.atm.systemState = .communicating →
      (∀ k < 8, (x.clock g bankID c).sys.top.atm.checksumForBackendResponse.getLsbD k =
        decide (k < writeDone (x.clock g bankID c).sys.host.pc)) ∧
      (∀ k < writeDone (x.clock g bankID c).sys.host.pc,
        (x.clock g bankID c).log.writtenBy k = some (x.clock g bankID c).log.iteration) ∧
      ∀ k < readDone (x.clock g bankID c).sys.host.pc, (x.clock g bankID c).log.readBy (k + 1) =
        some ((x.clock g bankID c).log.iteration, (x.clock g bankID c).log.visit) from
    { h.toBitmapInv.clock he with
      bits := fun hn => (hgoal hn).1
      writes := fun hn => (hgoal hn).2.1
      reads := fun hn => (hgoal hn).2.2 }
  intro hn
  have hx' : (x.clock g bankID c).sys.host.pc.Exchanging → _ := exchanging_clock h.toWf
  rcases enters hn with hs | hs
  -- the host is outside an exchange when state 00011 is entered
  · have hx : ¬ (x.clock g bankID c).sys.host.pc.Exchanging := fun hx =>
      (hx' hx).elim (ho ⟨by rw [hs]; decide, hn⟩) fun ht => ht.state h.toWf he hs
    obtain ⟨hrd, hwd⟩ := done_of_not_exchanging hx
    rw [hrd, hwd]
    refine ⟨fun k _ => ?_, fun k hk => absurd hk (by omega), fun k hk => absurd hk (by omega)⟩
    rw [show (x.clock g bankID c).sys.top.atm.checksumForBackendResponse = 0 from
      (fresh_of_offers hs h.fresh hn).1]
    simp
  · obtain ⟨-, hck, hne, -, -⟩ := Atm.communicating_stays hs hn
    have hvisit : (x.clock g bankID c).log.visit = x.log.visit := if_neg fun h => h.1 hs
    have hbits : ∀ k < 8, (x.clock g bankID c).sys.top.atm.checksumForBackendResponse.getLsbD k =
        true ↔ x.sys.Replies c ∧ x.sys.chanAddr.toNat = 10 + k ∨ k < writeDone x.sys.host.pc := by
      intro k hk
      rw [show (x.clock g bankID c).sys.top.atm.checksumForBackendResponse = _ from hck]
      exact h.bits_clock hs hk
    have hold (hr : ¬ x.sys.Replies c) : ∀ k < 8,
        (x.clock g bankID c).sys.top.atm.checksumForBackendResponse.getLsbD k =
          decide (k < writeDone x.sys.host.pc) := by
      intro k hk
      rw [Bool.eq_iff_iff, hbits k hk, decide_eq_true_iff]
      exact ⟨fun h => h.resolve_left fun h => hr h.1, .inr⟩
    have hwr : ∀ k, (x.clock g bankID c).log.writtenBy k = _ := writtenBy_next hs
    have hmoves := x.sys.moves g bankID h.toWf he
    change x.sys.Moves c (x.clock g bankID c).sys.host.pc at hmoves
    generalize (x.clock g bankID c).sys.host.pc = pc' at hmoves
    rw [hvisit]
    cases hmoves with
    | rest hr hpc hact =>
      have hit : (x.clock g bankID c).log.iteration = x.log.iteration := if_neg fun h => hact h.1
      have hrb : (x.clock g bankID c).log.readBy = x.log.readBy := by
        simp only [Audited.clock, Provenance.next]
        split
        · next h _ => exact absurd h hact
        · rfl
      rw [hpc, hit, hrb]
      exact ⟨hold hr, fun k hk => by rw [hwr, if_neg fun h => hr h.1, h.writes hs k hk], h.reads hs⟩
    | outside hr hrd hwd hpc =>
      rw [hrd, hwd, ← hpc]
      exact ⟨hold hr, fun k hk => absurd hk (by omega), fun k hk => absurd hk (by omega)⟩
    | read v i inp hr hact hpc hrd hwd =>
      have hit : (x.clock g bankID c).log.iteration = x.log.iteration :=
        if_neg fun h => by simp [hpc] at h
      have hrb : ∀ k, (x.clock g bankID c).log.readBy k =
          if k = i + 1 then some (x.log.iteration, x.log.visit) else x.log.readBy k := fun k => by
        simp only [Audited.clock, Provenance.next, hact, hpc, hs, if_true]
      have hold := hold hr
      rw [hpc] at hold
      have hreads := h.reads hs
      rw [hpc] at hreads
      rw [hwd, hit]
      refine ⟨hold, fun k hk => absurd hk (by omega), fun k hk => ?_⟩
      rw [hrb]
      split_ifs with hk'
      · rfl
      · exact hreads k (by simp only [readDone]; omega)
    | status b a hr hact hpc hpc' =>
      have hit : (x.clock g bankID c).log.iteration = x.log.iteration :=
        if_neg fun h => by simp [hpc] at h
      have hrb : (x.clock g bankID c).log.readBy = x.log.readBy := by
        simp only [Audited.clock, Provenance.next, hact, hpc]
      have hold := hold hr
      have hreads := h.reads hs
      rw [hpc] at hold hreads
      rw [hpc', hit, hrb]
      exact ⟨hold, fun k hk => absurd hk (by simp [writeDone]), hreads⟩
    | reply k a hr hact hpc hk hpc' =>
      have hit : (x.clock g bankID c).log.iteration = x.log.iteration :=
        if_neg fun h => by simp [hpc] at h
      have hrb : (x.clock g bankID c).log.readBy = x.log.readBy := by
        simp only [Audited.clock, Provenance.next, hact, hpc]
      have hreads := h.reads hs
      have hwrites := h.writes hs
      rw [hpc] at hbits hreads hwrites
      simp only [hr, true_and, hk, writeDone] at hbits
      have hk8 : k < 8 := by
        have hb := h.bounded
        rw [hpc] at hb
        exact hb
      split_ifs at hpc' with hk7
      · rw [hpc', hit, hrb]
        refine ⟨fun j hj => ?_, fun j hj => ?_, hreads⟩
        · rw [Bool.eq_iff_iff, hbits j hj, decide_eq_true_iff]
          simp only [writeDone]
          omega
        · rw [hwr]
          split_ifs with hj'
          · rfl
          · have hne : j ≠ k := fun h => hj' ⟨hr, by rw [hk, h]⟩
            exact hwrites j (by simp only [writeDone] at hj ⊢; omega)
      -- the eighth byte fills the bitmap
      · refine absurd ?_ hne
        apply BitVec.eq_of_getLsbD_eq
        intro j hj
        rw [← hck]
        change (x.clock g bankID c).sys.top.atm.checksumForBackendResponse.getLsbD j = _
        rw [(hbits j hj).mpr (by omega)]
        clear hbits
        revert j
        decide

end AuditInv

namespace Audited

variable {g : Generics} {bankID : BitVec 5}

/-- The eight bytes that the ATM holds once it accepts a reply were written in one iteration of
the host's loop, which read the eight channels in this visit to state 00011. -/
def Intact (g : Generics) (bankID : BitVec 5) (c : Cycle) (x : Audited) : Prop :=
  x.sys.Accepts g c → ∃ iteration, ∀ k < 8,
    (x.clock g bankID c).log.writtenBy k = some iteration ∧
      x.log.readBy (k + 1) = some (iteration, x.log.visit)

/-- No transaction is offered to a host that is still answering an earlier message. -/
structure Patient (g : Generics) (c : Cycle) (x : Audited) : Prop where
  enabled : x.sys.Enabled c
  offers : x.sys.Offers g c → ¬ x.sys.host.pc.Exchanging

theorem auditInv_powerUp (rows : List Row) : AuditInv (powerUp rows) :=
  { Sys.bitmapInv_powerUp rows with
    bits := fun h => SystemState.noConfusion h
    writes := fun h => SystemState.noConfusion h
    reads := fun h => SystemState.noConfusion h }

theorem intact_of_auditInv {c : Cycle} {x : Audited} (h : AuditInv x) (he : x.sys.Enabled c) :
    x.Intact g bankID c := by
  intro ha
  obtain ⟨hs, hn⟩ := ha
  obtain ⟨-, -, hF⟩ := Atm.communicating_accepts hs hn
  obtain ⟨hact, k, a, hpc⟩ := Sys.Accepts.reply ⟨hs, hn⟩ h.toBitmapInv he
  have hall : ∀ j < 8, x.sys.Replies c ∧ x.sys.chanAddr.toNat = 10 + j ∨ j < k := by
    intro j hj
    have hb := h.bits_clock (c := c) hs hj
    rw [hpc] at hb
    refine hb.mp ?_
    rw [hF]
    clear hb
    revert j
    decide
  have hwr := h.writes hs
  have hrd := h.reads hs
  rw [hpc] at hwr hrd
  refine ⟨x.log.iteration, fun j hj => ⟨?_, hrd j hj⟩⟩
  rw [AuditInv.writtenBy_next hs]
  split_ifs with hc
  · rfl
  · exact hwr j ((hall j hj).resolve_left hc)

/-- Every reply is intact as long as no transaction is offered to a host that is still answering
an earlier message. -/
theorem reply_integrity (g : Generics) (bankID : BitVec 5) (rows : List Row) (cs : List Cycle)
    (h : Runs (clock g bankID) (fun c x => x.Patient g c) (powerUp rows) cs) :
    Runs (clock g bankID) (fun c x => x.Intact g bankID c) (powerUp rows) cs :=
  h.strengthen (P := AuditInv) (fun _ _ hc hi =>
    ⟨intact_of_auditInv hi hc.enabled, hi.clock hc.enabled hc.offers⟩) (auditInv_powerUp rows)

theorem reply_integrity_of_withdrawal : ∃ cs c,
    (run (clock {} 0) (powerUp [⟨0, 0, 0, 1000⟩]) cs).sys.Accepts {} c ∧
      Runs (clock {} 0) (fun c x => x.Intact {} 0 c) (powerUp [⟨0, 0, 0, 1000⟩]) (cs ++ [c]) := by
  obtain ⟨s, c, ⟨cs, hcs, rfl⟩, hc, ha⟩ := Sys.exists_answered_withdrawal
  refine ⟨cs, c, by rwa [run_sys], reply_integrity {} 0 _ _ ?_⟩
  have hrun : Runs (Sys.clock {} 0) (fun c s => s.Enabled c ∧ s.Attentive) _ (cs ++ [c]) :=
    (runs_concat cs c).mpr ⟨hcs, hc⟩
  exact (runs_sys.mpr hrun).mono fun _ _ h => ⟨h.1, h.2.not_exchanging⟩

def PastInv (x : Audited) : Prop := ∀ k n v, x.log.readBy k = some (n, v) → v ≤ x.log.visit

structure EarlierInv (x : Audited) : Prop where
  past : PastInv x
  earlier : x.sys.top.atm.systemState = .communicating → ∀ k n v,
    x.log.readBy k = some (n, v) → v < x.log.visit

theorem visit_clock (c : Cycle) (x : Audited) :
    (x.clock g bankID c).log.visit = x.log.visit + if x.sys.Offers g c then 1 else 0 := by
  change (if _ then _ else _) = _
  split_ifs <;> rfl

theorem readBy_clock {c : Cycle} {x : Audited} {k n v : Nat}
    (h : (x.clock g bankID c).log.readBy k = some (n, v)) :
    x.log.readBy k = some (n, v) ∨
      v = x.log.visit ∧ ∃ b i inp, x.sys.host.pc = .readInput b i inp := by
  simp only [clock, Provenance.next] at h
  cases hact : c.act with
  | transfer =>
    cases hpc : x.sys.host.pc with
    | readInput b i inp =>
      simp only [hact, hpc] at h
      split_ifs at h
      · exact .inr ⟨(congrArg Prod.snd (Option.some.inj h)).symm, b, i, inp, rfl⟩
      · exact .inl h
    | _ => simp only [hact, hpc] at h; exact .inl h
  | _ => simp only [hact] at h; exact .inl h

theorem PastInv.clock {c : Cycle} {x : Audited} (h : PastInv x) :
    PastInv (x.clock g bankID c) := by
  intro k n v hk
  rw [visit_clock]
  rcases readBy_clock hk with hk | ⟨rfl, -⟩
  · have := h k n v hk
    omega
  · omega

theorem EarlierInv.clock {c : Cycle} {x : Audited} (h : EarlierInv x)
    (hpc : ∃ k a, x.sys.host.pc = .writeReply k a) : EarlierInv (x.clock g bankID c) := by
  refine ⟨h.past.clock, fun hn k n v hk => ?_⟩
  replace hk : x.log.readBy k = some (n, v) := (readBy_clock hk).resolve_right fun ⟨_, _, _, _, h⟩ => by
    obtain ⟨_, _, hpc⟩ := hpc
    exact Pc.noConfusion (hpc.symm.trans h)
  rw [visit_clock]
  by_cases hs : x.sys.top.atm.systemState = .communicating
  · have := h.earlier hs k n v hk
    omega
  · rw [if_pos ⟨hs, hn⟩]
    exact Nat.lt_succ_of_le (h.past k n v hk)

open Frontend.TopLevel in
/-- A user whom the host does not know is sent back to Ready, and enters another transaction while
the host goes on writing its reply. -/
theorem exists_left_over : ∃ s t c, Sys.Proceeds {} 0 (fun _ => True) (.powerUp []) s ∧
    s.top.atm.systemState = .ready ∧
    Sys.Proceeds {} 0 (fun u => ∃ k a, u.host.pc = .writeReply k a) s t ∧
    t.Uninterrupted c ∧ t.Accepts {} c := by
  have hN : debounceTime ≤ ({} : Generics).N := by rw [debounceTime_eq]; decide
  have hlate : 2 * ({} : Generics).N + 4000 < 31 * (({} : Generics).N + 1) := by decide
  obtain ⟨s₁, h₁, hs₁, hh₁, hp₁⟩ := Sys.exists_configured {} 0 []
  obtain ⟨s₂, a, w, h₂, hs₂, hh₂, -, hfin, ha, hw, hm₂⟩ := Sys.exists_entered {} 0 (v := 0) hN hs₁
    hp₁ rfl (show (0 : BitVec 5) = bankBits 0 by decide)
  obtain ⟨s₃, h₃, hs₃, hh₃, hm₃⟩ := Sys.exists_asked {} 0 hfin (R := fun _ => True) 4 rfl
    rfl hs₂ (hh₂.trans hh₁) hm₂ (by omega) fun _ _ _ => trivial
  -- status 4 ends the transaction for the ATM alone
  obtain ⟨s₄, m, h₄, hs₄, hc₄, -, hh₄, hu₄, hst₄⟩ := Sys.exists_waited {} 0 hfin
    (R := fun _ => True) (o := .write 9 4)
    (Q := fun m => m.Underway {} 9 _ a 0 ∧ m.systemState = .ready) hs₃ (by rw [hh₃]; rfl) hm₃
    (by decide) (by omega) (fun _ _ _ _ => trivial)
    (fun m hm => by
      have hn := hm.invalid (i := transferEdge (.write 9 4)) rfl (by decide) ⟨rfl, rfl, rfl⟩
        (by omega)
      rwa [NoteAllocator.clock_finished rfl rfl hfin] at hn)
  rw [hh₃] at hh₄
  -- the user enters the next one
  have hi₅ := hs₄.settled.iterate (g := {}) (p := idlePins s₄.chanAddr {} 0) 2
  have hp₅ := hu₄.parked (i := Buttons.edge {} (idlePins 9 {} 0))
    (j := Buttons.edge {} (idlePins 9 {} 0)) hst₄ (quiet_edge _ _ _ rfl) (quiet_edge _ _ _ rfl)
    rfl rfl rfl rfl
  rw [NoteAllocator.clock_finished rfl rfl hfin] at hp₅
  obtain ⟨n, h₅⟩ := Sys.exists_alone {} 0 (brings_iterate {} s₄.chanAddr {} 0 2 s₄.top)
    (by rw [hc₄]; exact hu₄.addr)
  obtain ⟨s₆, a', w', h₆, hs₆, hh₆, -, hfin', -, hw', hm₆⟩ := Sys.exists_entered {} 0 (v := 0)
    (s := { s₄ with
      top := (TopLevel.clock {} (idlePins s₄.chanAddr {} 0))^[2] s₄.top, gap := s₄.gap + n }) hN
    ⟨hi₅.1, hs₄.selected⟩ (by rw [hi₅.2, hc₄]; exact hp₅) ha
    (show (0 : BitVec 5) = bankBits 0 by decide)
  -- the old reply completes it
  obtain ⟨s₇, h₇, ho, -, hs, -, -, -, hn⟩ := Sys.exists_accepted {} 0 hfin'
    (R := fun u => ∃ k a, u.host.pc = .writeReply k a) hs₆ (hh₆.trans hh₄) hm₆ (by omega)
    fun u ⟨k, hk⟩ _ _ => ⟨k, _, hk⟩
  have hpc {u : Sys} (hu : u.host = s₄.host) : ∃ k a, u.host.pc = .writeReply k a :=
    ⟨0, _, by rw [hu, hh₄]; rfl⟩
  refine ⟨s₄, s₇, _, ?_, hst₄, ?_, ⟨ho.enabled, ho.released, ho.goesOn⟩, hs, hn.state⟩
  · exact (((h₁.mono fun _ _ h => ⟨h.1, trivial⟩).trans (h₂.mono fun _ _ h => ⟨h.1, trivial⟩)).trans
      (Sys.proceeds_of_arrives h₃)).trans (Sys.proceeds_of_arrives h₄)
  · exact ((h₅.mono fun _ _ h => ⟨h.1, hpc h.2⟩).trans
      (h₆.mono fun _ _ h => ⟨h.1, hpc h.2⟩)).trans (Sys.proceeds_of_arrives h₇)

theorem EarlierInv.not_intact {c : Cycle} {x : Audited} (h : EarlierInv x)
    (ha : x.sys.Accepts g c) : ¬ x.Intact g bankID c := fun hi => by
  obtain ⟨n, hn⟩ := hi ha
  exact absurd (h.earlier ha.1 _ _ _ (hn 0 (by decide)).2) (lt_irrefl _)

theorem earlierInv_run {ok : Cycle → Sys → Prop} {rows : List Row} {cs ds : List Cycle}
    (hready : (run (Sys.clock g bankID) (.powerUp rows) cs).top.atm.systemState = .ready)
    (hds : Runs (Sys.clock g bankID) (fun c s => ok c s ∧ ∃ k a, s.host.pc = .writeReply k a)
      (run (Sys.clock g bankID) (.powerUp rows) cs) ds) :
    EarlierInv (run (clock g bankID) (powerUp rows) (cs ++ ds)) := by
  have hsys := run_sys g bankID (powerUp rows) cs
  have hpast : PastInv (run (clock g bankID) (powerUp rows) cs) :=
    run_invariant (P := PastInv) (fun _ _ h => h.clock)
      (fun k n v hk => absurd hk.symm (Option.some_ne_none _)) cs
  have hds' : Runs (clock g bankID) (fun c y => ok c y.sys ∧ ∃ k a, y.sys.host.pc = .writeReply k a)
      (run (clock g bankID) (powerUp rows) cs) ds :=
    runs_sys.mpr (by rw [hsys]; exact hds)
  rw [run_append]
  refine hds'.invariant (P := EarlierInv) (fun _ _ h hi => hi.clock h.2) ⟨hpast, fun hn => ?_⟩
  rw [hsys] at hn
  exact SystemState.noConfusion (hready.symm.trans hn)

theorem reply_left_over : ¬ ∀ g bankID rows cs,
    Runs (clock g bankID) (fun c x => x.sys.Uninterrupted c) (powerUp rows) cs →
      Runs (clock g bankID) (fun c x => x.Intact g bankID c) (powerUp rows) cs := by
  intro hall
  obtain ⟨s, t, c, ⟨cs, hcs, rfl⟩, hready, ⟨ds, hds, rfl⟩, hc, ha⟩ := exists_left_over
  rw [← run_append] at hc ha
  have hrun : Runs (Sys.clock {} 0) (fun c s => s.Uninterrupted c) (.powerUp [])
      (cs ++ ds ++ [c]) :=
    (runs_concat _ _).mpr ⟨(runs_append _ _).mpr ⟨hcs.mono fun _ _ h => h.1,
      hds.mono fun _ _ h => h.1⟩, hc⟩
  have hintact := ((runs_concat _ _).mp (hall {} 0 [] (cs ++ ds ++ [c]) (runs_sys.mpr hrun))).2
  refine (earlierInv_run hready hds).not_intact ?_ hintact
  rw [run_sys]
  exact ha

end Audited

end AtmController.System
