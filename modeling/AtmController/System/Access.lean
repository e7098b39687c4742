import AtmController.Backend.Host
import AtmController.Link.Session

namespace AtmController.System

open Backend Link Slice Effect FLContext Chunks

def call : Op → Call
  | .read chan => .read (chan.setWidth 8) 1
  | .write chan b => .write (chan.setWidth 8) [b]

theorem one_le_maxLength : 1 ≤ maxLength := by decide

def command : Op → Command
  | .read chan => .read chan 1 Nat.one_pos one_le_maxLength
  | .write chan b => .write chan [b] Nat.one_pos one_le_maxLength

def isRead : Op → Bool
  | .read _ => true
  | .write _ _ => false

theorem commands_call (op : Op) : (call op).commands = [command op] := by
  have hchan (chan : BitVec 7) : (chan.setWidth 8).setWidth 7 = chan := by
    apply BitVec.eq_of_getLsbD_eq
    intro k hk
    simp [hk]
  cases op with
  | read chan =>
    rw [call, Call.commands, hchan, readCommands_of_le chan Nat.one_pos one_le_maxLength]
    rfl
  | write chan b =>
    rw [call, Call.commands, hchan]
    exact writeCommands_of_le chan (show 0 < [b].length from Nat.one_pos) one_le_maxLength

def payload : Op → List (BitVec 8)
  | .read _ => []
  | .write _ b => [b]

/-- A call between two others submits its command and returns when the packet of its reply is there,
whatever the size of the chunks. -/
theorem call_spec (op : Op) {c : FLContext} (hc : c.Ok) (hcap : c.isCommCapable = true)
    (hp : c.pending = []) (hb : c.buffered = []) :
    wp (call op).run
      (fun data c' => c'.submitted.flatten = c.submitted.flatten ++ (command op).encode ∧
        (isRead op = true → bulkRead 1 c.packets = some (data, c'.packets)))
      (fun _ c' => Starved [command op] c c') c := by
  have hsub {c' : FLContext} (hb' : c'.buffered = [])
      (hs : c'.stream = c.stream ++ (call op).commands.flatMap Command.encode) :
      c'.submitted.flatten = c.submitted.flatten ++ (command op).encode := by
    rwa [stream_of_buffered hb', stream_of_buffered hb, commands_call, List.flatMap_singleton] at hs
  have hcmd := commands_call op
  cases op with
  | write chan d =>
    rw [call, Call.run, wp_bind]
    refine wp_mono (fun _ c' h => ?_) (fun _ _ he => .inl (he.resolve_right (· hp)))
      (flWriteChannel_spec hc hcap _ (List.cons_ne_nil _ _))
    exact ⟨hsub h.1 h.2.stream, fun hr => Bool.noConfusion hr⟩
  | read chan =>
    refine wp_mono (fun data c' h => ?_) (fun _ _ he => ?_)
      (flReadChannel_spec hc hcap (chan.setWidth 8) Nat.one_pos hp)
    · obtain ⟨-, hp', hb', rs, hs, hd⟩ := h
      refine ⟨hsub hb' hs.stream, fun _ => ?_⟩
      have hrep := hs.replies
      rw [pending, List.append_eq_nil_iff, List.map_eq_nil_iff] at hp
      rw [readsInto, reply_readCommands, blocks_of_le Nat.one_pos one_le_maxLength, repliesTo, hp.1,
        hp.2, replies_of_pending hp'] at hrep
      cases hbk : bulkRead 1 c.packets with
      | none => simp [completions, hbk] at hrep
      | some r =>
        simp only [completions, hbk, List.map_cons, List.map_nil, List.nil_append,
          Option.bind_some, Option.map_some, List.append_nil, Option.some.injEq,
          Prod.mk.injEq] at hrep
        rw [← hd, ← hrep.1, ← hrep.2]
        simp [data_report]
    · exact hcmd ▸ he

theorem not_starved {op : Op} {c c' : FLContext} (hp : c.pending = []) {x : BitVec 8}
    {ps : List (List (BitVec 8))} (hpk : isRead op = true → c.packets = [x] :: ps) :
    ¬ Starved [command op] c c' := by
  have hp₀ := hp
  rw [pending, List.append_eq_nil_iff, List.map_eq_nil_iff] at hp₀
  have hnil : c.Answers [] := answers_nil.mpr
    ⟨[], c.packets, replies_of_pending hp, fun _ hr => absurd hr List.not_mem_nil⟩
  rintro (h | ⟨cs₁, hcs, -, hn⟩)
  · exact h.1 hnil
  · rcases List.prefix_cons_iff.mp hcs with rfl | ⟨cs₂, rfl, hcs₂⟩
    · exact hn hnil
    · obtain rfl := List.prefix_nil.mp hcs₂
      cases op with
      | write chan b => exact hn hnil
      | read chan =>
        refine hn ⟨[Read.report ⟨1, .own⟩ [x]], ps, ?_, ?_⟩
        · rw [repliesTo, hp₀.1, hp₀.2, hpk rfl]
          rfl
        · rintro r hr
          obtain rfl := List.mem_singleton.mp hr
          exact whole_report rfl

theorem call_returns (op : Op) {c : FLContext} (hc : c.Ok) (hcap : c.isCommCapable = true)
    (hp : c.pending = []) (hb : c.buffered = []) {x : BitVec 8} {ps : List (List (BitVec 8))}
    (hpk : isRead op = true → c.packets = [x] :: ps) :
    ∃ data c', (call op).run c = .ok data c' ∧
      c'.submitted.flatten = c.submitted.flatten ++ (command op).encode ∧
      (isRead op = true → data = [x] ∧ c'.packets = ps) := by
  have hspec := call_spec op hc hcap hp hb
  cases hrun : (call op).run c with
  | error e c' => exact absurd (wp_error hspec hrun) (not_starved hp hpk)
  | ok data c' =>
    obtain ⟨hsub, hread⟩ := wp_ok hspec hrun
    refine ⟨data, c', rfl, hsub, fun hr => ?_⟩
    have hbulk := hread hr
    rw [hpk hr] at hbulk
    obtain ⟨h, h'⟩ := Prod.mk.inj (Option.some.inj hbulk)
    exact ⟨h.symm, h'.symm⟩

theorem encode_command (op : Op) : (command op).encode =
    (BitVec.ofBool (isRead op) ++ op.chan : BitVec 8) :: 0 :: 1 :: payload op := by
  have hlen : encodeLength 1 = [0, 1] := by decide
  cases op with
  | read chan =>
    have hhead : chan.setWidth 8 ||| (0x80 : BitVec 8) = (BitVec.ofBool true ++ chan : BitVec 8) := by
      revert chan
      decide
    simp only [command, Command.encode, hhead, hlen]
    rfl
  | write chan b =>
    have hhead : chan.setWidth 8 = (BitVec.ofBool false ++ chan : BitVec 8) := by
      revert chan
      decide
    simp only [command, Command.encode, hhead, List.length_singleton, hlen]
    rfl

theorem getLsbD_head (op : Op) :
    (BitVec.ofBool (isRead op) ++ op.chan : BitVec 8).getLsbD 7 = isRead op := by
  rw [BitVec.getLsbD_append]
  simp

theorem extractLsb'_head (op : Op) :
    (BitVec.ofBool (isRead op) ++ op.chan : BitVec 8).extractLsb' 0 7 = op.chan := by
  apply BitVec.eq_of_getLsbD_eq
  intro k hk
  rw [BitVec.getLsbD_extractLsb', BitVec.getLsbD_append]
  simp [hk]

structure Quiet (l : Bridge) : Prop where
  state : l.comm.state = .idle ∨ l.comm.state = .reset
  ep2out : l.fx2.ep2out = []
  ep6in : l.fx2.ep6in = []
  packets : l.fx2.packets = []

instance (l : Bridge) : Decidable (Quiet l) :=
  decidable_of_iff ((l.comm.state = .idle ∨ l.comm.state = .reset) ∧ l.fx2.ep2out = [] ∧
      l.fx2.ep6in = [] ∧ l.fx2.packets = [])
    ⟨fun ⟨h, h', h'', h'''⟩ => ⟨h, h', h'', h'''⟩, fun h => ⟨h.1, h.2, h.3, h.4⟩⟩

structure Sent (op : Op) (l : Bridge) : Prop where
  state : l.comm.state = .idle
  ep2out : l.fx2.ep2out = (command op).encode
  ep6in : l.fx2.ep6in = []
  packets : l.fx2.packets = []

/-- The channel of an access is selected, and its byte is still to be transferred. -/
structure Selected (op : Op) (l : Bridge) : Prop where
  chanAddr : l.comm.chanAddr = op.chan
  ep6in : l.fx2.ep6in = []
  packets : l.fx2.packets = []
  state : match l.comm.state with
    | .getCount0 => l.comm.isWrite = isRead op ∧ l.fx2.ep2out = 0 :: 1 :: payload op
    | .getCount1 => l.comm.isWrite = isRead op ∧ l.fx2.ep2out = 1 :: payload op ∧
        l.comm.count.extractLsb' 8 8 = 0
    | .read => isRead op = false ∧ l.fx2.ep2out = payload op ∧ l.comm.count = 1
    | .beginWrite => isRead op = true ∧ l.fx2.ep2out = [] ∧ l.comm.count = 1
    | .write => isRead op = true ∧ l.fx2.ep2out = [] ∧ l.comm.count = 1 ∧
        l.comm.isAligned = false
    | _ => False

structure Replying (b : BitVec 8) (l : Bridge) : Prop where
  ep2out : l.fx2.ep2out = []
  state : l.comm.state = .endWriteNonaligned ∧ l.fx2.ep6in = [b] ∧ l.fx2.packets = [] ∨
    l.comm.state = .idle ∧ l.fx2.ep6in = [] ∧ l.fx2.packets = [[b]]

variable {i : BridgeEdge} {l l' : Bridge} {a : List Action} {op : Op} {b : BitVec 8}

theorem Quiet.step (h : Quiet l) (hstep : l.Step i a l') :
    Quiet l' ∧ (a = [] ∨ a = [.wake]) ∧ (i.gotData = false → l'.comm.state = .idle) := by
  obtain ⟨hs, ho, hin, hp⟩ := h
  cases hstep with
  | stall hst =>
    refine ⟨⟨hs, ho, hin, hp⟩, .inl rfl, fun hg => hs.resolve_right fun hr => ?_⟩
    rw [Bridge.Stalled, hr, hg] at hst
    exact Bool.noConfusion hst
  | wake hr => exact ⟨⟨.inl rfl, ho, hin, hp⟩, .inr rfl, fun _ => rfl⟩
  | address hs' b bs ho' => simp [ho] at ho'
  | _ hs' => simp [hs'] at hs

theorem chanAddr_of_step (hstep : l.Step i a l') (ha : a ≠ [.address]) :
    l'.comm.chanAddr = l.comm.chanAddr := by
  cases hstep with
  | address => exact absurd rfl ha
  | _ => rfl

def written : Action → Option (BitVec 8)
  | .put _ d => some d
  | _ => none

theorem action_singleton (i : BridgeEdge) (l : Bridge) :
    l.action i = [] ∨ ∃ x, l.action i = [x] := by
  have hlen := Bridge.length_action i l
  match h : l.action i with
  | [] => exact .inl rfl
  | [x] => exact .inr ⟨x, rfl⟩
  | x :: y :: as =>
    rw [h] at hlen
    split at hlen <;> simp at hlen

theorem h2f_of_action (h : l.Legal i) (hr : i.h2fReady = true) :
    match (l.action i).head?.bind written with
    | some d => (l.comm.signals (l.edge i)).h2fValid = true ∧ l.comm.bus (l.edge i) = d
    | none => (l.comm.signals (l.edge i)).h2fValid = false := by
  have htr := Bridge.transfer_eq h
  have hputs : l.comm.Puts (l.edge i) ↔ (l.comm.signals (l.edge i)).h2fValid = true :=
    ⟨fun hp => hp.1, fun hv => ⟨hv, hr⟩⟩
  rw [Bridge.transfer, CommFpga.transfer] at htr
  cases hv : (l.comm.signals (l.edge i)).h2fValid with
  | true =>
    rw [if_pos (hputs.mpr hv)] at htr
    rcases action_singleton i l with ha | ⟨x, ha⟩
    · simp [ha] at htr
    · rw [ha] at htr ⊢
      cases x with
      | put chan d =>
        simp only [List.filterMap_cons, Action.transfer, List.filterMap_nil, List.cons.injEq,
          Transfer.put.injEq, and_true] at htr
        exact ⟨rfl, htr.2⟩
      | _ => simp [List.filterMap_cons] at htr
  | false =>
    rw [if_neg (by simp [hputs, hv])] at htr
    rcases action_singleton i l with ha | ⟨x, ha⟩
    · simp [ha]
    · rw [ha] at htr ⊢
      cases x with
      | put chan d =>
        split at htr <;> simp at htr
      | _ => rfl

theorem Sent.step (h : Sent op l) (hstep : l.Step i a l') :
    a = [] ∧ Sent op l' ∨ a = [.address] ∧ Selected op l' := by
  obtain ⟨hs, ho, hin, hp⟩ := h
  cases hstep with
  | stall => exact .inl ⟨rfl, hs, ho, hin, hp⟩
  | address hs' b bs ho' =>
    rw [ho, encode_command, List.cons.injEq] at ho'
    obtain ⟨rfl, rfl⟩ := ho'
    exact .inr ⟨rfl, extractLsb'_head op, hin, hp, getLsbD_head op, rfl⟩
  | _ hs' => simp [hs'] at hs

theorem lengthCount_one {count : BitVec 17} (h : count.extractLsb' 8 8 = 0) :
    CommFpga.lengthCount 1 count = 1 := by
  apply BitVec.eq_of_toNat_eq
  rw [CommFpga.toNat_lengthCount, h]
  rfl

theorem Selected.step (h : Selected op l) (hstep : l.Step i a l') :
    (a.filterMap Action.transfer = [] ∧ a ≠ [.address]) ∧ Selected op l' ∨
      (∃ b, op = .write op.chan b ∧ a = [.put op.chan b]) ∧ Quiet l' ∨
      op = .read op.chan ∧ a = [.get op.chan] ∧ Replying i.f2hData l' := by
  obtain ⟨hc, hin, hp, hs⟩ := h
  cases hstep with
  | stall => exact .inl ⟨⟨rfl, by simp⟩, hc, hin, hp, hs⟩
  | countHigh hs' b bs ho =>
    rw [hs'] at hs
    obtain ⟨hw, ho'⟩ := hs
    rw [ho', List.cons.injEq] at ho
    obtain ⟨rfl, rfl⟩ := ho
    exact .inl ⟨⟨rfl, by simp⟩, hc, hin, hp, hw, rfl, extractLsb'_assign _ 8 _ (by omega)⟩
  | countLow hs' b bs ho =>
    rw [hs'] at hs
    obtain ⟨hw, ho', hz⟩ := hs
    rw [ho', List.cons.injEq] at ho
    obtain ⟨rfl, rfl⟩ := ho
    refine .inl ⟨⟨rfl, by simp⟩, hc, hin, hp, ?_⟩
    cases hr : isRead op with
    | true =>
      have hpay : payload op = [] := by
        cases op with
        | read chan => rfl
        | write chan b => exact Bool.noConfusion hr
      simp only [hw, hr, if_true, hpay, lengthCount_one hz, and_self]
    | false => simp only [hw, hr, Bool.false_eq_true, if_false, lengthCount_one hz, and_self]
  | turn hs' =>
    rw [hs'] at hs
    obtain ⟨hr, ho, hcount⟩ := hs
    exact .inl ⟨⟨rfl, by simp⟩, hc, hin, hp, hr, ho, hcount, by rw [hcount]; rfl⟩
  | get hs' =>
    rw [hs'] at hs
    obtain ⟨hr, ho, hcount, hal⟩ := hs
    have hop : op = .read op.chan := by
      cases op with
      | read chan => rfl
      | write chan b => exact Bool.noConfusion hr
    have hpush : l.fx2.push i.f2hData = { l.fx2 with ep6in := [i.f2hData] } := by
      rw [Fx2.push, hin]
      rfl
    refine .inr (.inr ⟨hop, by rw [hc], ?_, .inl ⟨?_, ?_, ?_⟩⟩)
    · rw [hpush]
      exact ho
    · simp only [hcount, hal, if_true, Bool.false_eq_true, if_false]
    · rw [hpush]
    · rw [hpush]
      exact hp
  | put hs' b bs ho =>
    rw [hs'] at hs
    obtain ⟨hr, ho', hcount⟩ := hs
    cases op with
    | read chan => exact Bool.noConfusion hr
    | write chan d =>
      rw [ho', payload, List.cons.injEq] at ho
      obtain ⟨rfl, rfl⟩ := ho
      refine .inr (.inl ⟨⟨d, rfl, by rw [hc]⟩, .inl ?_, rfl, hin, hp⟩)
      simp only [hcount, if_true]
  | _ hs' => simp [hs'] at hs

theorem Replying.step (h : Replying b l) (hstep : l.Step i a l') :
    (a.filterMap Action.transfer = [] ∧ a ≠ [.address]) ∧ Replying b l' ∧
      (l.fx2.packets ≠ [] → l' = l) := by
  obtain ⟨ho, hs⟩ := h
  cases hstep with
  | stall => exact ⟨⟨rfl, by simp⟩, ⟨ho, hs⟩, fun _ => rfl⟩
  | endNonaligned hs' =>
    simp only [hs', true_and, reduceCtorEq, false_and, or_false] at hs
    refine ⟨⟨rfl, by simp⟩, ⟨ho, .inr ⟨rfl, rfl, ?_⟩⟩, fun hp => absurd hs.2 hp⟩
    rw [Fx2.commit, hs.1, hs.2, List.nil_append]
  | address hs' b bs ho' => simp [ho] at ho'
  | _ hs' => simp [hs'] at hs

end AtmController.System
