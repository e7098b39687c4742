import AtmController.Link.Bridge

namespace AtmController.Link

open Clocked Slice

namespace CommFpga

def commandByte (c : CommFpga) : BitVec 8 := BitVec.ofBool c.isWrite ++ c.chanAddr

theorem getLsbD_commandByte (c : CommFpga) : c.commandByte.getLsbD 7 = c.isWrite := by
  rw [commandByte, BitVec.getLsbD_append]
  simp

theorem extractLsb'_commandByte (c : CommFpga) : c.commandByte.extractLsb' 0 7 = c.chanAddr := by
  apply BitVec.eq_of_getLsbD_eq
  intro k hk
  rw [commandByte, BitVec.getLsbD_extractLsb', BitVec.getLsbD_append]
  simp [hk]

theorem ofBool_append_extractLsb' (b : BitVec 8) :
    BitVec.ofBool (b.getLsbD 7) ++ b.extractLsb' 0 7 = b := by
  apply BitVec.eq_of_getLsbD_eq
  intro k hk
  rw [BitVec.getLsbD_append]
  rcases (by omega : k < 7 ∨ k = 7) with h | h
  · simp [h]
  · simp [h]

/-- In the states that count, the count is one that a command can have. -/
def Wf (c : CommFpga) : Prop :=
  c.state = .beginWrite ∨ c.state = .write ∨ c.state = .read →
    0 < c.count.toNat ∧ c.count.toNat ≤ maxLength

theorem toNat_count_sub_one {c : CommFpga} (h : 0 < c.count.toNat) :
    (c.count - 1).toNat = c.count.toNat - 1 := by
  rw [BitVec.toNat_sub_of_le]
  · rfl
  · exact h

theorem count_eq_one_iff (c : CommFpga) : c.count = 1 ↔ c.count.toNat = 1 := by
  rw [← BitVec.toNat_inj]
  rfl

end CommFpga

namespace Bridge

variable {i : BridgeEdge} {l l' : Bridge} {a : List Action}

theorem Step.wf (h : l.Step i a l') (hw : l.comm.Wf) : l'.comm.Wf := by
  cases h with
  | stall => exact hw
  | countLow hs b bs ho =>
    intro _
    rw [CommFpga.toNat_lengthCount]
    exact ⟨decodeLength_pos _ _, decodeLength_le _ _⟩
  | turn hs => exact fun _ => hw (.inl hs)
  | get hs =>
    obtain ⟨hpos, hle⟩ := hw (.inr (.inl hs))
    intro hc
    have hne : ¬ l.comm.count = 1 := by
      intro h1
      simp only [h1, if_true] at hc
      split at hc <;> simp at hc
    rw [CommFpga.count_eq_one_iff] at hne
    rw [CommFpga.toNat_count_sub_one hpos]
    omega
  | put hs b bs ho =>
    obtain ⟨hpos, hle⟩ := hw (.inr (.inr hs))
    intro hc
    have hne : ¬ l.comm.count = 1 := by
      intro h1
      simp [h1] at hc
    rw [CommFpga.count_eq_one_iff] at hne
    rw [CommFpga.toNat_count_sub_one hpos]
    omega
  | _ => simp [CommFpga.Wf]

/-- What the interface will do on the bytes it has and those that are still to come. -/
def owed (l : Bridge) (future : List (BitVec 8)) : List Action :=
  let bs := l.fx2.ep2out ++ future
  match l.comm.state with
  | .reset => .wake :: decode bs
  | .idle => decode bs
  | .getCount0 => (decode (l.comm.commandByte :: bs)).tail
  | .getCount1 => (decode (l.comm.commandByte :: l.comm.count.extractLsb' 8 8 :: bs)).tail.tail
  | .beginWrite => readActions l.comm.chanAddr l.comm.count.toNat ++ decode bs
  | .write =>
    List.replicate l.comm.count.toNat (.get l.comm.chanAddr) ++ .finish :: decode bs
  | .endWriteAligned | .endWriteNonaligned => .finish :: decode bs
  | .read => writeActions l.comm.chanAddr (bs.take l.comm.count.toNat) ++
      decode (bs.drop l.comm.count.toNat)

theorem decode_address (b : BitVec 8) (bs : List (BitVec 8)) :
    decode (b :: bs) = .address :: (decode (b :: bs)).tail := by
  match bs with
  | [] => simp
  | [_] => simp
  | _ :: _ :: _ => simp [decode_cons]

theorem decode_countHigh (b hi : BitVec 8) (bs : List (BitVec 8)) :
    (decode (b :: hi :: bs)).tail = .countHigh :: (decode (b :: hi :: bs)).tail.tail := by
  match bs with
  | [] => simp
  | _ :: _ => simp [decode_cons]

theorem Step.owed_eq (h : l.Step i a l') (hw : l.comm.Wf) (future : List (BitVec 8)) :
    l.owed future = a ++ l'.owed future := by
  cases h with
  | stall => rfl
  | wake hs => simp [owed, hs]
  | address hs b bs ho =>
    simp only [owed, hs, ho, List.cons_append, CommFpga.commandByte,
      CommFpga.ofBool_append_extractLsb', List.nil_append]
    exact decode_address _ _
  | countHigh hs b bs ho =>
    simp only [owed, hs, ho, List.cons_append, extractLsb'_assign _ 8 b (by omega : 8 + 8 ≤ 17),
      List.nil_append]
    exact decode_countHigh _ _ _
  | countLow hs b bs ho =>
    simp only [owed, hs, ho, List.cons_append, decode_cons, List.tail_cons, List.nil_append,
      CommFpga.getLsbD_commandByte, CommFpga.extractLsb'_commandByte]
    cases hw : l.comm.isWrite with
    | true => simp [CommFpga.toNat_lengthCount]
    | false => simp [CommFpga.toNat_lengthCount]
  | turn hs => simp [owed, hs, readActions]
  | get hs =>
    obtain ⟨hpos, -⟩ := hw (.inr (.inl hs))
    have hout : (l.fx2.push i.f2hData).ep2out = l.fx2.ep2out := by
      simp only [Fx2.push]
      split <;> rfl
    by_cases h1 : l.comm.count = 1
    · simp only [owed, hs, hout, h1, if_true]
      cases l.comm.isAligned <;> rfl
    · have hsub := CommFpga.toNat_count_sub_one hpos
      simp only [owed, hs, hout, h1, if_false, hsub]
      rw [← Nat.sub_add_cancel hpos, List.replicate_succ, Nat.add_sub_cancel]
      rfl
  | endAligned hs => simp [owed, hs]
  | endNonaligned hs => simp [owed, hs, Fx2.commit]
  | put hs b bs ho =>
    obtain ⟨hpos, -⟩ := hw (.inr (.inr hs))
    by_cases h1 : l.comm.count = 1
    · simp [owed, hs, ho, h1, writeActions]
    · have hsub := CommFpga.toNat_count_sub_one hpos
      simp only [owed, hs, ho, h1, if_false, hsub, List.cons_append]
      rw [← Nat.sub_add_cancel hpos, List.take_succ_cons, List.drop_succ_cons, Nat.add_sub_cancel]
      rfl

theorem owed_exchange (l : Bridge) (i : BridgeEdge) (future : List (BitVec 8)) :
    (l.exchange i).owed future = l.owed (i.submitted ++ future) := by
  simp only [owed, exchange, List.append_assoc]

def submitted (is : List BridgeEdge) : List (BitVec 8) := is.flatMap BridgeEdge.submitted

theorem wf_powerUp : ({} : Bridge).comm.Wf := by
  simp [CommFpga.Wf]

theorem wf_clock (h : l.Legal i) (hw : l.comm.Wf) : (clock i l).comm.Wf := (step h).wf hw

theorem emitted_owed {is : List BridgeEdge} (h : Runs clock Legal l is) (hw : l.comm.Wf)
    (future : List (BitVec 8)) :
    l.owed (submitted is ++ future) =
      emitted clock action l is ++ (run clock l is).owed future := by
  have hstep (i : BridgeEdge) (l : Bridge) (is : List BridgeEdge) (hl : l.Legal i)
      (hw : l.comm.Wf) : l.owed (submitted (i :: is) ++ future) =
        l.action i ++ (clock i l).owed (submitted is ++ future) ∧ (clock i l).comm.Wf := by
    refine ⟨?_, wf_clock hl hw⟩
    rw [(step hl).owed_eq hw, clock, owed_exchange, submitted, List.flatMap_cons,
      List.append_assoc, submitted]
  simpa [submitted] using h.emitted_append_owed (P := fun l => l.comm.Wf)
    (fun l is => l.owed (submitted is ++ future)) hstep hw []

theorem emitted_transfer {is : List BridgeEdge} (h : Runs clock Legal l is) :
    emitted clock transfer l is = (emitted clock action l is).filterMap Action.transfer := by
  induction is generalizing l with
  | nil => rfl
  | cons i is ih => rw [emitted, emitted, List.filterMap_append, transfer_eq h.1, ih h.2]

def Settled (l : Bridge) : Prop := l.comm.state = .idle ∧ l.fx2.ep2out = []

instance (l : Bridge) : Decidable l.Settled := inferInstanceAs (Decidable (_ ∧ _))

theorem decode_eq_nil_iff (bs : List (BitVec 8)) : decode bs = [] ↔ bs = [] := by
  cases bs with
  | nil => simp
  | cons b bs =>
    rw [decode_address]
    simp

theorem tail_decode_eq_nil_iff (b : BitVec 8) (bs : List (BitVec 8)) :
    (decode (b :: bs)).tail = [] ↔ bs = [] := by
  cases bs with
  | nil => simp
  | cons hi bs =>
    rw [decode_countHigh]
    simp

theorem tail_tail_decode_eq_nil_iff (b hi : BitVec 8) (bs : List (BitVec 8)) :
    (decode (b :: hi :: bs)).tail.tail = [] ↔ bs = [] := by
  cases bs with
  | nil => simp
  | cons lo bs => simp [decode_cons]

theorem owed_of_settled (h : l.Settled) (future : List (BitVec 8)) :
    l.owed future = decode future := by
  simp [owed, h.1, h.2]

theorem settled_of_owed (hw : l.comm.Wf) (h : ∀ future, l.owed future = decode future) :
    l.Settled := by
  have h0 := h []
  have h1 := h [0]
  simp only [owed, decode_nil, decode_one, List.append_nil] at h0 h1
  cases hs : l.comm.state with
  | idle =>
    simp only [hs, decode_eq_nil_iff] at h0
    exact ⟨hs, h0⟩
  | getCount0 =>
    simp only [hs, tail_decode_eq_nil_iff] at h0
    simp [hs, h0] at h1
  | getCount1 =>
    simp only [hs, tail_tail_decode_eq_nil_iff] at h0
    simp [hs, h0, decode_cons] at h1
  | read =>
    obtain ⟨hpos, -⟩ := hw (.inr (.inr hs))
    simp only [hs, List.append_eq_nil_iff, writeActions, List.map_eq_nil_iff,
      List.take_eq_nil_iff, hpos.ne', false_or] at h0
    rw [← Nat.sub_add_cancel hpos] at h1
    simp [hs, h0.1, writeActions] at h1
  | _ => simp [hs, readActions] at h0

theorem exists_active (h : l.owed [] ≠ []) : ∃ i, l.Legal i ∧ ¬ l.Stalled i := by
  simp only [owed, List.append_nil] at h
  cases hs : l.comm.state with
  | reset => exact ⟨⟨false, true, true, 0, true, [], false⟩, by simp [Legal], by simp [Stalled, hs]⟩
  | idle =>
    rw [hs, ne_eq, decode_eq_nil_iff] at h
    exact ⟨⟨true, true, true, 0, true, [], false⟩, fun _ => h, by simp [Stalled, hs]⟩
  | getCount0 =>
    rw [hs, ne_eq, tail_decode_eq_nil_iff] at h
    exact ⟨⟨true, true, true, 0, true, [], false⟩, fun _ => h, by simp [Stalled, hs]⟩
  | getCount1 =>
    rw [hs, ne_eq, tail_tail_decode_eq_nil_iff] at h
    exact ⟨⟨true, true, true, 0, true, [], false⟩, fun _ => h, by simp [Stalled, hs]⟩
  | read =>
    refine ⟨⟨true, true, true, 0, true, [], false⟩, fun _ ho => h ?_, by simp [Stalled, hs]⟩
    simp [hs, ho, writeActions]
  | _ => exact ⟨⟨false, true, true, 0, true, [], false⟩, by simp [Legal], by simp [Stalled, hs]⟩

/-- The cycles of a run in which the interface does not wait. -/
def active : Bridge → List BridgeEdge → Nat
  | _, [] => 0
  | l, i :: is => (if l.Stalled i then 0 else 1) + active (clock i l) is

theorem length_action (i : BridgeEdge) (l : Bridge) :
    (l.action i).length = if l.Stalled i then 0 else 1 := by
  unfold action
  split
  · rfl
  · cases l.comm.state <;> rfl

theorem length_emitted (l : Bridge) (is : List BridgeEdge) :
    (emitted clock action l is).length = l.active is := by
  induction is generalizing l with
  | nil => rfl
  | cons i is ih => rw [emitted, List.length_append, length_action, ih, active]

section Commands

variable {cs : List Command} {is : List BridgeEdge}

abbrev after (is : List BridgeEdge) : Bridge := run clock {} is

theorem wf_after (h : Runs clock Legal {} is) : (after is).comm.Wf :=
  h.invariant (P := fun l => l.comm.Wf) (fun _ _ => wf_clock) wf_powerUp

theorem actions_append (h : Runs clock Legal {} is) (cs : List Command)
    (rest future : List (BitVec 8)) (hs : submitted is ++ rest = cs.flatMap Command.encode ++ future) :
    .wake :: cs.flatMap Command.actions ++ decode future =
      emitted clock action {} is ++ (after is).owed rest := by
  rw [← emitted_owed h wf_powerUp rest, hs]
  simp [owed, decode_encode]

theorem settled_iff (h : Runs clock Legal {} is) (hs : submitted is = cs.flatMap Command.encode) :
    (after is).Settled ↔ (after is).owed [] = [] := by
  refine ⟨fun hset => by rw [owed_of_settled hset, decode_nil], fun ho => ?_⟩
  refine settled_of_owed (wf_after h) fun future => ?_
  have h0 := actions_append h cs [] [] (by rw [hs])
  have hf := actions_append h cs future future (by rw [hs])
  rw [ho, decode_nil, List.append_nil, List.append_nil] at h0
  rw [← h0] at hf
  exact (List.append_cancel_left hf).symm

theorem flatMap_transfers (cs : List Command) :
    (cs.flatMap Command.actions).filterMap Action.transfer = cs.flatMap Command.transfers := by
  rw [List.filterMap_flatMap]
  simp [Command.transfers_actions]

theorem length_flatMap_actions (cs : List Command) :
    (cs.flatMap Command.actions).length = (cs.map Command.cost).sum := by
  rw [List.length_flatMap]
  simp [Command.length_actions]

theorem transfers_append (h : Runs clock Legal {} is) (rest : List (BitVec 8))
    (hs : submitted is ++ rest = cs.flatMap Command.encode) :
    emitted clock transfer {} is ++ ((after is).owed rest).filterMap Action.transfer =
      cs.flatMap Command.transfers := by
  have hact := actions_append h cs rest [] (by simpa using hs)
  have htr := congrArg (List.filterMap Action.transfer) hact
  simp only [decode_nil, List.append_nil, List.filterMap_cons, Action.transfer,
    List.filterMap_append, flatMap_transfers, ← emitted_transfer h] at htr
  exact htr.symm

/-- Whatever the FX2LP and the channels do, the bytes that have gone over the channels so far are the
first ones of those that the commands are there for, in their order, and once the interface is idle
with nothing left to fetch they are all of them. -/
theorem transfers_delivered (cs : List Command) (is : List BridgeEdge) (rest : List (BitVec 8))
    (h : Runs clock Legal {} is) (hs : submitted is ++ rest = cs.flatMap Command.encode) :
    emitted clock transfer {} is <+: cs.flatMap Command.transfers ∧
    (rest = [] → (after is).Settled →
      emitted clock transfer {} is = cs.flatMap Command.transfers) := by
  have htr := transfers_append h rest hs
  refine ⟨⟨_, htr⟩, fun hrest hset => ?_⟩
  rw [← htr, hrest, owed_of_settled hset, decode_nil, List.filterMap_nil, List.append_nil]

theorem transfers_delivered_byte : emitted clock transfer {}
    [⟨false, true, true, 0, true, [9, 0, 1, 42], false⟩,
    ⟨true, true, true, 0, true, [], false⟩, ⟨true, true, true, 0, true, [], false⟩,
    ⟨false, true, true, 0, true, [], false⟩, ⟨true, true, true, 0, true, [], false⟩,
    ⟨true, true, false, 0, true, [], false⟩, ⟨true, true, true, 0, true, [], false⟩] =
      [.put 9 42] :=
  (transfers_delivered [.write 9 [42] (by decide) (by decide)] _ []
    (by decide) rfl).2 rfl (by decide)

/-- A run carries out all commands when it has as many cycles without a wait as they cost, and one to
wake up; it never has more of them, and before that it can always go on. -/
theorem settles_at_cost (cs : List Command) (is : List BridgeEdge) (h : Runs clock Legal {} is)
    (hs : submitted is = cs.flatMap Command.encode) :
    active {} is ≤ 1 + (cs.map Command.cost).sum ∧
    ((after is).Settled ↔ active {} is = 1 + (cs.map Command.cost).sum) ∧
    (¬ (after is).Settled → ∃ i, (after is).Legal i ∧ ¬ (after is).Stalled i) := by
  have hact := actions_append h cs [] [] (by rw [hs])
  have hlen := congrArg List.length hact
  simp only [decode_nil, List.append_nil, List.length_cons, List.length_append,
    length_flatMap_actions, length_emitted] at hlen
  refine ⟨by omega, ?_, fun hn => exists_active fun ho => hn ((settled_iff h hs).mpr ho)⟩
  rw [settled_iff h hs, ← List.length_eq_zero_iff]
  omega

def readZero (b : BitVec 8) : List BridgeEdge :=
  [⟨false, true, true, b, true, [0x80, 0, 1], false⟩, ⟨true, true, true, b, true, [], false⟩,
    ⟨true, true, true, b, true, [], false⟩, ⟨true, true, true, b, true, [], false⟩,
    ⟨false, true, true, b, true, [], false⟩, ⟨false, true, true, b, true, [], false⟩,
    ⟨false, true, true, b, true, [], false⟩]

theorem settles_at_cost_readZero : (after (readZero 7)).Settled :=
  (settles_at_cost [.read 0 1 (by decide) (by decide)] (readZero 7) (by decide) rfl).2.1.mpr
    (by decide)

end Commands

end Bridge

end AtmController.Link
