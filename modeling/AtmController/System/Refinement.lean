import AtmController.System.Board

namespace AtmController.System

open Clocked Backend Frontend Link

theorem complete_write {bankID : BitVec 5} {h : Host} {op : Op} (ho : h.op = some op)
    (hw : isRead op = false) (x y : BitVec 8) : h.complete bankID x = h.complete bankID y := by
  unfold Host.op at ho
  unfold Host.complete
  cases hpc : h.pc with
  | head | confirm _ _ | readInput _ _ _ =>
    rw [hpc] at ho
    cases ho
    exact Bool.noConfusion hw
  | _ => rfl

theorem clock_pinsWith (g : Generics) (c : BoardCycle) (chan : BitVec 7) (d d' : BitVec 8)
    (t : TopLevel) :
    t.clock g (Board.pinsWith c chan false d) = t.clock g (Board.pinsWith c chan false d') := by
  have h : t.atm.clock g (t.edge (Board.pinsWith c chan false d)) =
      t.atm.clock g (t.edge (Board.pinsWith c chan false d')) :=
    (Atm.clock_of_not_valid g (i := t.edge (Board.pinsWith c chan false d')) rfl d t.atm)
  simp only [TopLevel.clock, h]
  rfl

variable {g : Generics} {bankID : BitVec 5} {b : Board} {s : Sys} {c : BoardCycle}

/-- The host is in the call for `op`, which is not transferred yet, or has returned from a write. -/
def Waiting (bankID : BitVec 5) (op : Op) (b : Board) (s : Sys) : Prop :=
  s.host.op = some op ∧ (b.op = some op ∧ b.host = s.host ∨
    b.op = none ∧ isRead op = false ∧ b.host = s.host.complete bankID 0)

/-- How far an access is, on the board and in the system. -/
inductive Phase (bankID : BitVec 5) (b : Board) (s : Sys) : Prop
  | quiet (hl : Quiet b.link) (hs : s.selected = false) (ho : b.op = none) (hh : b.host = s.host)
  | written (op : Op) (hl : Quiet b.link) (hs : s.selected = false) (ho : b.op = some op)
    (hw : isRead op = false) (hop : b.host.op = some op) (hh : s.host = b.host.complete bankID 0)
  | sent (op : Op) (hl : Sent op b.link) (hs : s.selected = false) (hg : 100 ≤ s.gap)
    (hw : Waiting bankID op b s)
  | selected (op : Op) (hl : Selected op b.link) (hs : s.selected = true)
    (hw : Waiting bankID op b s)
  | replying (op : Op) (x : BitVec 8) (hl : Replying x b.link) (hs : s.selected = false)
    (ho : b.op = some op) (hr : isRead op = true) (hh : s.host = b.host.complete bankID x)

structure Refines (bankID : BitVec 5) (b : Board) (s : Sys) : Prop where
  top : s.top = b.top
  chanAddr : s.chanAddr = b.link.comm.chanAddr
  gap : s.gap = b.gap
  phase : Phase bankID b s

def follow (c : BoardCycle) (act : Act) : Cycle := ⟨c.buttons, c.swIn, act⟩

theorem Refines.top_clock (h : Refines bankID b s) (hl : b.link.Legal (b.edge c)) {act : Act}
    (hw : s.written (follow c act) = (b.link.action (b.edge c)).head?.bind written) :
    (s.clock g bankID (follow c act)).top = (b.clock g bankID c).top := by
  have hv := h2f_of_action hl rfl
  have hpins : s.pins (follow c act) = Board.pinsWith c b.link.comm.chanAddr
      (s.written (follow c act)).isSome ((s.written (follow c act)).getD 0) := by
    rw [Sys.pins, h.chanAddr]
    rfl
  change s.top.clock g (s.pins (follow c act)) = b.top.clock g (b.pins c)
  rw [hpins, hw, h.top]
  unfold Board.pins
  cases hd : (b.link.action (b.edge c)).head?.bind written with
  | some d =>
    rw [hd] at hv
    simp only [hv.1, hv.2]
    rfl
  | none =>
    rw [hd] at hv
    simp only [hv]
    exact clock_pinsWith ..

theorem clock_gap {act : Act} (hgap : s.gap = b.gap) (hl : b.link.Legal (b.edge c))
    (ht : (b.link.action (b.edge c)).filterMap Action.transfer ≠ [] ↔ act = .transfer)
    (hr : c.act = .restart ↔ act = .restart) :
    (s.clock g bankID (follow c act)).gap = (b.clock g bankID c).gap := by
  simp only [Sys.clock, Board.clock, Bridge.transfer_eq hl, follow, ht, hr, hgap]
  cases act <;> simp

theorem exchange_eq (i : BridgeEdge) (l : Bridge) (hs : i.submitted = []) :
    l.exchange i =
      if i.collected then { l with fx2 := { l.fx2 with packets := l.fx2.packets.tail } } else l := by
  unfold Bridge.exchange
  rw [hs, List.append_nil]
  split <;> rfl

def hostAct : HostAct → Act
  | .stop => .stop
  | .restart => .restart
  | _ => .idle

theorem Refines.still (h : Refines bankID b s) (hl : b.link.Legal (b.edge c))
    (ha : (b.link.action (b.edge c)).filterMap Action.transfer = [] ∧
      b.link.action (b.edge c) ≠ [.address])
    (hp : Phase bankID (b.clock g bankID c) (s.clock g bankID (follow c (hostAct c.act)))) :
    Refines bankID (b.clock g bankID c) (s.clock g bankID (follow c (hostAct c.act))) where
  top := by
    refine h.top_clock hl ?_
    have hw : s.written (follow c (hostAct c.act)) = none := by
      simp only [Sys.written, follow]
      cases c.act <;> rfl
    rw [hw]
    rcases action_singleton (b.edge c) b.link with h0 | ⟨x, hx⟩
    · rw [h0]
      rfl
    · have htr := ha.1
      rw [hx] at htr ⊢
      cases x with
      | put chan d => cases htr
      | _ => rfl
  chanAddr := by
    have hc := chanAddr_of_step (Bridge.step hl) ha.2
    have hs : (s.clock g bankID (follow c (hostAct c.act))).chanAddr = s.chanAddr := by
      simp only [Sys.clock, follow]
      cases c.act <;> rfl
    rw [hs, h.chanAddr, ← hc]
    rfl
  gap := by
    refine clock_gap h.gap hl ?_ ?_
    · rw [ha.1]
      cases c.act <;> simp [hostAct]
    · cases c.act <;> simp [hostAct]
  phase := hp

theorem Refines.select (h : Refines bankID b s) (hl : b.link.Legal (b.edge c)) {op : Op}
    (ha : b.link.action (b.edge c) = [.address]) (hr : c.act ≠ .restart)
    (hop : s.host.op = some op)
    (hc : (b.link.serve (b.edge c)).comm.chanAddr = op.chan)
    (hp : Phase bankID (b.clock g bankID c) (s.clock g bankID (follow c .select))) :
    Refines bankID (b.clock g bankID c) (s.clock g bankID (follow c .select)) where
  top := by
    refine h.top_clock hl ?_
    rw [ha]
    rfl
  chanAddr := by
    have hs : (s.clock g bankID (follow c .select)).chanAddr = op.chan := by
      simp only [Sys.clock, follow, hop]
    rw [hs, ← hc]
    rfl
  gap := clock_gap h.gap hl (by simp [ha, List.filterMap_cons]) (by simpa using hr)
  phase := hp

theorem Refines.transfer (h : Refines bankID b s) (hl : b.link.Legal (b.edge c)) {op : Op}
    (ha : op = .read op.chan ∧ b.link.action (b.edge c) = [.get op.chan] ∨
      ∃ d, op = .write op.chan d ∧ b.link.action (b.edge c) = [.put op.chan d])
    (hr : c.act ≠ .restart) (hop : s.host.op = some op)
    (hp : Phase bankID (b.clock g bankID c) (s.clock g bankID (follow c .transfer))) :
    Refines bankID (b.clock g bankID c) (s.clock g bankID (follow c .transfer)) where
  top := by
    refine h.top_clock hl ?_
    rcases ha with ⟨ho, ha⟩ | ⟨d, ho, ha⟩
    · rw [ha, Sys.written, hop, ho]
      rfl
    · rw [ha, Sys.written, hop, ho]
      rfl
  chanAddr := by
    have hne : b.link.action (b.edge c) ≠ [.address] := by
      rcases ha with ⟨-, ha⟩ | ⟨d, -, ha⟩ <;> simp [ha]
    have hc := chanAddr_of_step (Bridge.step hl) hne
    exact h.chanAddr.trans hc.symm
  gap := by
    refine clock_gap h.gap hl ?_ (by simpa using hr)
    rcases ha with ⟨-, ha⟩ | ⟨d, -, ha⟩ <;> simp [ha]
  phase := hp

theorem clock_link (g : Generics) (bankID : BitVec 5) (hs : (b.edge c).submitted = [])
    (hc : (b.edge c).collected = false) :
    (b.clock g bankID c).link = b.link.serve (b.edge c) := by
  change (b.link.serve (b.edge c)).exchange (b.edge c) = _
  rw [exchange_eq _ _ hs, hc]
  rfl

theorem submitted_eq (h : c.act ≠ .submit) : (b.edge c).submitted = [] := by
  simp only [Board.edge]
  cases hact : c.act with
  | submit => exact absurd hact h
  | _ => rfl

theorem Refines.quiet_step (h : Refines bankID b s) (he : b.Enabled c) (hl : Quiet b.link)
    (hs : s.selected = false) (ho : b.op = none) (hh : b.host = s.host) :
    Sys.Enabled (follow c (hostAct c.act)) s ∧
      Refines bankID (b.clock g bankID c) (s.clock g bankID (follow c (hostAct c.act))) := by
  obtain ⟨hleg, he⟩ := he
  obtain ⟨hq, ha, hidle⟩ := hl.step (Bridge.step hleg)
  have ha' : (b.link.action (b.edge c)).filterMap Action.transfer = [] ∧
      b.link.action (b.edge c) ≠ [.address] := by
    rcases ha with ha | ha <;> simp [ha]
  have hcol : (b.edge c).collected = false := by
    simp only [Board.edge, ho]
    cases c.act <;> rfl
  have hquiet (hsub : (b.edge c).submitted = [])
      (hop : (b.clock g bankID c).op = none)
      (hsel : (s.clock g bankID (follow c (hostAct c.act))).selected = s.selected)
      (hhost : (b.clock g bankID c).host = (s.clock g bankID (follow c (hostAct c.act))).host) :
      Refines bankID (b.clock g bankID c) (s.clock g bankID (follow c (hostAct c.act))) := by
    refine h.still hleg ha' (.quiet ?_ (hsel.trans hs) hop hhost)
    rw [clock_link g bankID hsub hcol]
    exact hq
  cases hact : c.act with
  | idle =>
    refine ⟨trivial, hact ▸ hquiet (submitted_eq (by simp [hact])) ?_ ?_ ?_⟩ <;>
      simp [Board.clock, Sys.clock, follow, hostAct, hact, ho, hh]
  | submit =>
    rw [hact] at he
    obtain ⟨-, -, hgap, hpc⟩ := he
    obtain ⟨op, hop⟩ := Sys.exists_op (s := s) (hh ▸ hpc)
    have hsub : (b.edge c).submitted = (command op).encode := by
      simp [Board.edge, hact, hh, hop]
    have hdata : c.gotData = false := by
      cases hg : c.gotData with
      | false => rfl
      | true => exact absurd hl.ep2out (hleg hg)
    refine ⟨trivial, hact ▸ h.still hleg ha' (.sent op ⟨hidle hdata, ?_, hq.ep6in, ?_⟩ ?_ ?_ ?_)⟩
    · change (b.link.serve (b.edge c)).fx2.ep2out ++ (b.edge c).submitted = _
      rw [hq.ep2out, hsub, List.nil_append]
    · change (if (b.edge c).collected then _ else (b.link.serve (b.edge c)).fx2.packets) = _
      rw [hcol]
      exact hq.packets
    · simpa [Sys.clock, follow, hostAct, hact] using hs
    · have hg : 100 ≤ s.gap + 1 := by
        rw [h.gap]
        omega
      simpa [Sys.clock, follow, hostAct, hact] using hg
    · simp [Waiting, Sys.clock, Board.clock, follow, hostAct, hact, hh, hop]
  | ret =>
    rw [hact] at he
    obtain ⟨op, hop, -⟩ := he
    rw [ho] at hop
    cases hop
  | stop =>
    rw [hact] at he
    obtain ⟨-, -, hpc⟩ := he
    refine ⟨⟨hs, hh ▸ hpc⟩, hact ▸ hquiet (submitted_eq (by simp [hact])) ?_ ?_ ?_⟩ <;>
      simp [Board.clock, Sys.clock, follow, hostAct, hact, ho, hh]
  | restart =>
    rw [hact] at he
    obtain ⟨-, -, hpc⟩ := he
    refine ⟨⟨hs, hh ▸ hpc⟩, hact ▸ hquiet (submitted_eq (by simp [hact])) ?_ ?_ ?_⟩ <;>
      simp [Board.clock, Sys.clock, follow, hostAct, hact, ho, hh]

def Returns (c : BoardCycle) (b : Board) : Prop :=
  c.act = .idle ∨ c.act = .ret ∧
    ∃ op, b.op = some op ∧ (isRead op = true → b.link.fx2.packets ≠ [])

theorem returns_of_busy (he : b.Enabled c) (hb : ¬ (b.op = none ∧ Quiet b.link)) :
    Returns c b := by
  have he := he.2
  cases hact : c.act with
  | idle => exact .inl hact
  | ret =>
    rw [hact] at he
    exact .inr ⟨hact, he⟩
  | submit | stop | restart =>
    rw [hact] at he
    exact absurd ⟨he.1, he.2.1⟩ hb

theorem collected_eq (hp : b.link.fx2.packets = []) (hact : Returns c b) :
    (b.edge c).collected = false := by
  simp only [Board.edge]
  rcases hact with hact | ⟨hact, op, ho, hr⟩
  · rw [hact]
  · rw [hact, ho]
    cases h : isRead op with
    | true => exact absurd hp (hr h)
    | false => exact h

theorem Waiting.clock {op : Op} {s' : Sys} (hw : Waiting bankID op b s)
    (hp : b.link.fx2.packets = []) (hact : Returns c b) (hs : s'.host = s.host) :
    Waiting bankID op (b.clock g bankID c) s' := by
  obtain ⟨hop, hw⟩ := hw
  rw [Waiting, hs]
  refine ⟨hop, ?_⟩
  rcases hact with hact | ⟨hact, op', ho', hr⟩
  · simpa [Board.clock, hact] using hw
  · rcases hw with ⟨ho, hh⟩ | ⟨ho, -⟩
    · rw [ho, Option.some.injEq] at ho'
      subst ho'
      have hwr : isRead op = false := by
        cases h : isRead op with
        | true => exact absurd hp (hr h)
        | false => rfl
      refine .inr ⟨by simp [Board.clock, hact], hwr, ?_⟩
      simp only [Board.clock, hact, hh]
      exact complete_write hop hwr ..
    · rw [ho] at ho'
      cases ho'

theorem hostAct_of_returns (hact : Returns c b) :
    hostAct c.act = .idle ∧ c.act ≠ .submit ∧ c.act ≠ .restart := by
  rcases hact with hact | ⟨hact, -⟩ <;> simp [hact, hostAct]

theorem Refines.sent_step {op : Op} (h : Refines bankID b s) (he : b.Enabled c)
    (hl : Sent op b.link) (hs : s.selected = false) (hg : 100 ≤ s.gap)
    (hw : Waiting bankID op b s) :
    ∃ act, Sys.Enabled (follow c act) s ∧
      Refines bankID (b.clock g bankID c) (s.clock g bankID (follow c act)) := by
  have hact := returns_of_busy he fun hq => by
    have ho := hq.2.ep2out
    rw [hl.ep2out, encode_command] at ho
    cases ho
  obtain ⟨hidle, hsub, hrest⟩ := hostAct_of_returns hact
  have hlink := clock_link g bankID (submitted_eq hsub)
    (collected_eq hl.packets hact)
  rcases hl.step (Bridge.step he.1) with ⟨ha, hl'⟩ | ⟨ha, hl'⟩
  · refine ⟨hostAct c.act, by rw [hidle]; trivial, h.still he.1 (by simp [ha]) ?_⟩
    rw [hidle]
    exact .sent op (hlink ▸ hl') hs (Nat.le_succ_of_le hg) (hw.clock hl.packets hact rfl)
  · have hpc : s.host.pc ≠ .stopped := fun h0 => by
      have hop := hw.1
      simp [Host.op, h0] at hop
    refine ⟨.select, ⟨hs, hg, hpc⟩, h.select he.1 ha hrest hw.1 hl'.chanAddr ?_⟩
    exact .selected op (hlink ▸ hl') rfl (hw.clock hl.packets hact rfl)

theorem Refines.selected_step {op : Op} (h : Refines bankID b s) (he : b.Enabled c)
    (hl : Selected op b.link) (hs : s.selected = true) (hw : Waiting bankID op b s) :
    ∃ act, Sys.Enabled (follow c act) s ∧
      Refines bankID (b.clock g bankID c) (s.clock g bankID (follow c act)) := by
  have hact : Returns c b := returns_of_busy he fun hq => by
    have hst := hl.state
    rcases hq.2.state with h0 | h0 <;> simp [h0] at hst
  obtain ⟨hidle, hsub, hrest⟩ := hostAct_of_returns hact
  have hlink := clock_link g bankID (submitted_eq hsub)
    (collected_eq hl.packets hact)
  obtain ⟨hop, hw'⟩ := hw.clock (g := g) hl.packets hact rfl
  have hhost : (s.clock g bankID (follow c .transfer)).host =
    s.host.complete bankID (s.data (follow c .transfer)) := rfl
  rcases hl.step (Bridge.step he.1) with ⟨ha, hl'⟩ | ⟨⟨d, ho, ha⟩, hl'⟩ | ⟨ho, ha, hl'⟩
  · refine ⟨hostAct c.act, by rw [hidle]; trivial, h.still he.1 ha ?_⟩
    rw [hidle]
    exact .selected op (hlink ▸ hl') hs (hw.clock hl.packets hact rfl)
  · refine ⟨.transfer, hs, h.transfer he.1 (.inr ⟨d, ho, ha⟩) hrest hop ?_⟩
    have hwr : isRead op = false := by
      rw [ho]
      rfl
    rcases hw' with ⟨ho', hh⟩ | ⟨ho', -, hh⟩
    · refine .written op (hlink ▸ hl') rfl ho' hwr (hh ▸ hop) ?_
      rw [hhost, hh]
      exact complete_write hop hwr ..
    · refine .quiet (hlink ▸ hl') rfl ho' ?_
      rw [hhost, hh]
      exact complete_write hop hwr ..
  · refine ⟨.transfer, hs, h.transfer he.1 (.inl ⟨ho, ha⟩) hrest hop ?_⟩
    have hr : isRead op = true := by
      rw [ho]
      rfl
    rcases hw' with ⟨ho', hh⟩ | ⟨-, hwr, -⟩
    · refine .replying op _ (hlink ▸ hl') rfl ho' hr ?_
      rw [hhost, hh, Sys.data, Sys.pins, h.top, h.chanAddr]
      rfl
    · exact Bool.noConfusion (hr.symm.trans hwr)

theorem Refines.written_step {op : Op} (h : Refines bankID b s) (he : b.Enabled c)
    (hl : Quiet b.link) (hs : s.selected = false) (ho : b.op = some op) (hwr : isRead op = false)
    (hop : b.host.op = some op) (hh : s.host = b.host.complete bankID 0) :
    ∃ act, Sys.Enabled (follow c act) s ∧
      Refines bankID (b.clock g bankID c) (s.clock g bankID (follow c act)) := by
  have hact : Returns c b := returns_of_busy he fun hq => by
    rw [ho] at hq
    cases hq.1
  obtain ⟨hidle, hsub, hrest⟩ := hostAct_of_returns hact
  have hlink := clock_link g bankID (submitted_eq hsub)
    (collected_eq hl.packets hact)
  obtain ⟨hl', ha, -⟩ := hl.step (Bridge.step he.1)
  refine ⟨hostAct c.act, by rw [hidle]; trivial, h.still he.1 ?_ ?_⟩
  · rcases ha with ha | ha <;> simp [ha]
  · rw [hidle]
    rcases hact with hact | ⟨hact, -⟩
    · refine .written op (hlink ▸ hl') hs ?_ hwr ?_ ?_
      · simpa [Board.clock, hact] using ho
      · simpa [Board.clock, hact] using hop
      · simpa [Board.clock, Sys.clock, follow, hact] using hh
    · refine .quiet (hlink ▸ hl') hs ?_ ?_
      · simp [Board.clock, hact]
      · simp only [Board.clock, Sys.clock, follow, hact, hh]
        exact complete_write hop hwr ..

theorem Refines.replying_step {op : Op} {x : BitVec 8} (h : Refines bankID b s)
    (he : b.Enabled c) (hl : Replying x b.link) (hs : s.selected = false) (ho : b.op = some op)
    (hr : isRead op = true) (hh : s.host = b.host.complete bankID x) :
    ∃ act, Sys.Enabled (follow c act) s ∧
      Refines bankID (b.clock g bankID c) (s.clock g bankID (follow c act)) := by
  have hact : Returns c b := returns_of_busy he fun hq => by
    rw [ho] at hq
    cases hq.1
  obtain ⟨hidle, hsub, hrest⟩ := hostAct_of_returns hact
  obtain ⟨ha, hl', hstay⟩ := hl.step (Bridge.step he.1)
  refine ⟨hostAct c.act, by rw [hidle]; trivial, h.still he.1 ha ?_⟩
  rw [hidle]
  rcases hact with hact | ⟨hact, op', ho', hp⟩
  · refine .replying op x ?_ hs ?_ hr ?_
    · rw [clock_link g bankID (submitted_eq hsub) (by simp [Board.edge, hact])]
      exact hl'
    · simpa [Board.clock, hact] using ho
    · simpa [Board.clock, Sys.clock, follow, hact] using hh
  · rw [ho, Option.some.injEq] at ho'
    subst ho'
    have hne := hp hr
    obtain ⟨hst, hin, hpk⟩ : b.link.comm.state = .idle ∧ b.link.fx2.ep6in = [] ∧
        b.link.fx2.packets = [[x]] := hl.state.resolve_left fun h0 => hne h0.2.2
    have hlink : (b.clock g bankID c).link =
        { b.link with fx2 := { b.link.fx2 with packets := [] } } := by
      change (b.link.serve (b.edge c)).exchange (b.edge c) = _
      rw [exchange_eq _ _ (submitted_eq hsub), hstay hne, hpk]
      simp [Board.edge, hact, ho, hr]
    refine .quiet ?_ hs ?_ ?_
    · rw [hlink]
      exact ⟨.inl hst, hl.ep2out, hin, rfl⟩
    · simp [Board.clock, hact]
    · simp only [Board.clock, Sys.clock, follow, hact, hh, Board.result, hpk]
      rfl

theorem Refines.step (h : Refines bankID b s) (he : b.Enabled c) :
    ∃ act, Sys.Enabled (follow c act) s ∧
      Refines bankID (b.clock g bankID c) (s.clock g bankID (follow c act)) := by
  cases h.phase with
  | quiet hl hs ho hh => exact ⟨_, h.quiet_step he hl hs ho hh⟩
  | written op hl hs ho hw hop hh => exact h.written_step he hl hs ho hw hop hh
  | sent op hl hs hg hw => exact h.sent_step he hl hs hg hw
  | selected op hl hs hw => exact h.selected_step he hl hs hw
  | replying op x hl hs ho hr hh => exact h.replying_step he hl hs ho hr hh

/-- What the board and the system have in common: the ATM and the channel address always, and the
host whenever no access is on its way. -/
structure Matches (b : Board) (s : Sys) : Prop where
  top : s.top = b.top
  chanAddr : s.chanAddr = b.link.comm.chanAddr
  host : b.op = none → Quiet b.link → s.host = b.host

theorem Refines.matches (h : Refines bankID b s) : Matches b s := by
  refine ⟨h.top, h.chanAddr, fun ho hq => ?_⟩
  cases h.phase with
  | quiet hl hs ho' hh => exact hh.symm
  | written op hl hs ho' => simp [ho] at ho'
  | sent op hl =>
    have hout := hq.ep2out
    rw [hl.ep2out, encode_command] at hout
    cases hout
  | selected op hl =>
    have hst := hl.state
    rcases hq.state with h0 | h0 <;> simp [h0] at hst
  | replying op x hl hs ho' => simp [ho] at ho'

/-- A run of the board is a run of the system with the same buttons and switches, and they match
after every cycle. -/
theorem board_refines_system (g : Generics) (bankID : BitVec 5) (rows : List Row)
    (cs : List BoardCycle)
    (h : Runs (Board.clock g bankID) (fun c b => b.Enabled c) (Board.powerUp rows) cs) :
    ∃ ds, List.Forall₂ (fun c d => ∃ act, d = follow c act) cs ds ∧
      Runs (Sys.clock g bankID) (fun d s => s.Enabled d) (Sys.powerUp rows) ds ∧
      ∀ n, Matches (run (Board.clock g bankID) (Board.powerUp rows) (cs.take n))
        (Sys.after g bankID rows (ds.take n)) := by
  have hstart : Refines bankID (Board.powerUp rows) (Sys.powerUp rows) :=
    ⟨rfl, rfl, rfl, .quiet ⟨.inr rfl, rfl, rfl, rfl⟩ rfl rfl rfl⟩
  obtain ⟨ds, hm, hr, hall⟩ := h.simulates (R := Refines bankID)
    (M := fun c d => ∃ act, d = follow c act) (fun c b s he hR => by
      obtain ⟨act, hok, hR'⟩ := hR.step (g := g) he
      exact ⟨follow c act, ⟨act, rfl⟩, hok, hR'⟩) hstart
  exact ⟨ds, hm, hr, fun n => (hall n).matches⟩

def firstAccess : List BoardCycle :=
  List.replicate 100 ⟨{}, 0, false, true, .idle⟩ ++ ⟨{}, 0, false, true, .submit⟩ ::
    List.replicate 4 ⟨{}, 0, true, true, .idle⟩ ++ [⟨{}, 0, false, true, .ret⟩]

theorem board_refines_system_firstAccess :
    ∃ ds, List.Forall₂ (fun c d => ∃ act, d = follow c act) firstAccess ds ∧
      Runs (Sys.clock {} 0) (fun d s => s.Enabled d) (Sys.powerUp []) ds ∧
      ∀ n, Matches (run (Board.clock {} 0) (Board.powerUp []) (firstAccess.take n))
        (Sys.after {} 0 [] (ds.take n)) :=
  board_refines_system {} 0 [] firstAccess (by decide +kernel)

end AtmController.System
