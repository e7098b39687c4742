import AtmController.Link.Delivery

namespace AtmController.Link

open Clocked Chunks

/-- A read of the host takes packets until it has its bytes, or until a short one; `none` when the
packets do not end it or hold too much. -/
def bulkRead : Nat → List (List (BitVec 8)) → Option (List (BitVec 8) × List (List (BitVec 8)))
  | _, [] => none
  | count, p :: ps =>
    if count < p.length then none
    else if p.length < packetSize ∨ p.length = count then some (p, ps)
    else (bulkRead (count - p.length) ps).map fun r => (p ++ r.1, r.2)

def bulkReads : List Nat → List (List (BitVec 8)) →
    Option (List (List (BitVec 8)) × List (List (BitVec 8)))
  | [], ps => some ([], ps)
  | count :: counts, ps =>
    (bulkRead count ps).bind fun r => (bulkReads counts r.2).map fun rs => (r.1 :: rs.1, rs.2)

theorem packetSize_pos : 0 < packetSize := by decide

theorem bulkRead_cut (d : List (BitVec 8)) (hd : d ≠ []) (ps : List (List (BitVec 8))) :
    bulkRead d.length (cut packetSize d ++ ps) = some (d, ps) := by
  induction hn : d.length using Nat.strongRecOn generalizing d with
  | ind n ih =>
    subst hn
    rcases (by omega : d.length ≤ packetSize ∨ packetSize < d.length) with hle | hgt
    · have hor : d.length < packetSize ∨ d.length = d.length := .inr rfl
      rw [cut_of_length_le hd hle, List.singleton_append, bulkRead, if_neg (Nat.lt_irrefl _),
        if_pos hor]
    · have htake : (d.take packetSize).length = packetSize := by
        rw [List.length_take]
        omega
      have hdrop : (d.drop packetSize).length = d.length - packetSize := List.length_drop
      have hpos := packetSize_pos
      have hne : d.drop packetSize ≠ [] := by
        intro h0
        rw [h0, List.length_nil] at hdrop
        omega
      have hcut : cut packetSize d = d.take packetSize :: cut packetSize (d.drop packetSize) := by
        rw [← cut_append hpos htake, List.take_append_drop]
      rw [hcut, List.cons_append, bulkRead, htake, if_neg (by omega), if_neg (by omega),
        ih _ (by omega) _ hne hdrop]
      simp

theorem bulkReads_cut (ds : List (List (BitVec 8))) (hds : ∀ d ∈ ds, d ≠ []) :
    bulkReads (ds.map List.length) (ds.flatMap (cut packetSize)) = some (ds, []) := by
  induction ds with
  | nil => rfl
  | cons d ds ih =>
    rw [List.map_cons, List.flatMap_cons, bulkReads, bulkRead_cut d (hds d (List.mem_cons_self ..)),
      Option.bind_some, ih fun e he => hds e (List.mem_cons_of_mem _ he)]
    rfl

namespace Bridge

def sampled (i : BridgeEdge) (l : Bridge) : List (BitVec 8) :=
  if l.comm.Gets (l.edge i) then [l.comm.bus (l.edge i)] else []

def collected (i : BridgeEdge) (l : Bridge) : List (List (BitVec 8)) :=
  if i.collected then (l.serve i).fx2.packets.take 1 else []

/-- What was asked for so far and what was taken: the lengths of the reads begun, the bytes of those
that are finished, and those of the one under way. -/
structure Monitor where
  requested : List Nat := []
  replies : List (List (BitVec 8)) := []
  current : List (BitVec 8) := []
  log : List (List (BitVec 8)) := []

def Monitor.record (b : BitVec 8) (m : Monitor) : List Action → Monitor
  | [.turn count] => { m with requested := m.requested ++ [count] }
  | [.get _] => { m with current := m.current ++ [b] }
  | [.finish] => { m with replies := m.replies ++ [m.current], current := [] }
  | _ => m

def watch (i : BridgeEdge) (l : Bridge) (m : Monitor) : Monitor :=
  { m with log := m.log ++ l.collected i }.record i.f2hData (l.action i)

structure Packed (l : Bridge) (m : Monitor) (packets : List (List (BitVec 8))) (missing : Nat) :
    Prop where
  chunked : Chunked packetSize packets l.fx2.ep6in m.current
  log : m.log ++ l.fx2.packets = m.replies.flatMap (cut packetSize) ++ packets
  requested : m.requested = m.replies.map List.length ++ [m.current.length + missing]
  nonempty : ∀ d ∈ m.replies, d ≠ []

structure Clean (l : Bridge) (m : Monitor) : Prop where
  ep6in : l.fx2.ep6in = []
  current : m.current = []
  log : m.log ++ l.fx2.packets = m.replies.flatMap (cut packetSize)
  requested : m.requested = m.replies.map List.length
  nonempty : ∀ d ∈ m.replies, d ≠ []

def PacketInv (l : Bridge) (m : Monitor) : Prop :=
  match l.comm.state with
  | .write => ∃ packets, Packed l m packets l.comm.count.toNat ∧
      (l.comm.isAligned = true ↔ (m.current.length + l.comm.count.toNat) % packetSize = 0)
  | .endWriteAligned => ∃ packets, Packed l m packets 0 ∧ l.fx2.ep6in = [] ∧ m.current ≠ []
  | .endWriteNonaligned => ∃ packets, Packed l m packets 0 ∧ l.fx2.ep6in ≠ []
  | _ => Clean l m

variable {i : BridgeEdge} {l l' : Bridge} {a : List Action} {m : Monitor}
  {packets : List (List (BitVec 8))} {k : Nat}

theorem aligned_iff (count : BitVec 17) :
    count.extractLsb' 0 9 = 0#9 ↔ count.toNat % packetSize = 0 := by
  rw [← BitVec.toNat_inj, BitVec.extractLsb'_toNat, Nat.shiftRight_zero]
  rfl

theorem Packed.push (h : Packed l m packets (k + 1)) (b : BitVec 8) (c : CommFpga) :
    ∃ packets, Packed ⟨c, l.fx2.push b⟩ { m with current := m.current ++ [b] } packets k := by
  have hreq : m.requested = m.replies.map List.length ++ [(m.current ++ [b]).length + k] := by
    rw [h.requested, List.length_append, List.length_singleton, Nat.add_assoc, Nat.add_comm 1]
  have hlt := h.chunked.lt
  by_cases hfull : (l.fx2.ep6in ++ [b]).length = packetSize
  · have hp : l.fx2.push b =
        { l.fx2 with ep6in := [], packets := l.fx2.packets ++ [l.fx2.ep6in ++ [b]] } := if_pos hfull
    rw [hp]
    refine ⟨packets ++ [l.fx2.ep6in ++ [b]], h.chunked.commit ?_ packetSize_pos, ?_, hreq, h.nonempty⟩
    · rwa [List.length_append] at hfull
    · simp only [← List.append_assoc, h.log]
  · have hp : l.fx2.push b = { l.fx2 with ep6in := l.fx2.ep6in ++ [b] } := if_neg hfull
    rw [hp]
    refine ⟨packets, h.chunked.append ?_, h.log, hreq, h.nonempty⟩
    rw [List.length_append] at hfull
    simp only [List.length_singleton] at hfull ⊢
    omega

theorem Packed.clean (h : Packed l m packets 0) (hne : m.current ≠ [])
    (hl : l'.fx2.ep6in = [] ∧ l'.fx2.packets =
      if l.fx2.ep6in = [] then l.fx2.packets else l.fx2.packets ++ [l.fx2.ep6in]) :
    Clean l' { m with replies := m.replies ++ [m.current], current := [] } where
  ep6in := hl.1
  current := rfl
  log := by
    rw [hl.2, List.flatMap_append, List.flatMap_singleton, h.chunked.cut_eq]
    split
    · exact h.log
    · rw [← List.append_assoc, h.log, List.append_assoc]
  requested := by simp [h.requested]
  nonempty d hd := by
    rcases List.mem_append.mp hd with hd | hd
    · exact h.nonempty d hd
    · rwa [List.mem_singleton.mp hd]

theorem Packed.current_ne_nil (h : Packed l m packets k) (hne : l.fx2.ep6in ≠ []) :
    m.current ≠ [] := by
  rw [← h.chunked.flatten]
  exact fun h0 => hne (List.append_eq_nil_iff.mp h0).2

theorem Clean.frame (h : Clean l m) (hin : l'.fx2.ep6in = l.fx2.ep6in)
    (hp : l'.fx2.packets = l.fx2.packets) : Clean l' m :=
  ⟨hin.trans h.ep6in, h.current, by rw [hp, h.log], h.requested, h.nonempty⟩

theorem Step.packetInv (h : l.Step i a l') (hw : l.comm.Wf) (hm : PacketInv l m) :
    PacketInv l' (m.record i.f2hData a) := by
  cases h with
  | stall => exact hm
  | wake hs =>
    simp only [PacketInv, hs] at hm
    exact hm.frame rfl rfl
  | address hs b bs ho =>
    simp only [PacketInv, hs] at hm
    exact hm.frame rfl rfl
  | countHigh hs b bs ho =>
    simp only [PacketInv, hs] at hm
    exact hm.frame rfl rfl
  | countLow hs b bs ho =>
    simp only [PacketInv, hs] at hm
    cases hwr : l.comm.isWrite with
    | true =>
      simp only [PacketInv, if_true]
      exact hm.frame rfl rfl
    | false =>
      simp only [PacketInv, Bool.false_eq_true, if_false]
      exact hm.frame rfl rfl
  | turn hs =>
    simp only [PacketInv, hs] at hm
    simp only [PacketInv, Monitor.record, hm.current, decide_eq_true_eq, List.length_nil,
      Nat.zero_add]
    refine ⟨[], ⟨?_, ?_, ?_, hm.nonempty⟩, aligned_iff _⟩
    · rw [hm.ep6in]
      exact chunked_nil packetSize_pos
    · rw [hm.log, List.append_nil]
    · rw [hm.requested, List.length_nil, Nat.zero_add]
  | get hs =>
    simp only [PacketInv, hs] at hm
    obtain ⟨packets, hp, hal⟩ := hm
    obtain ⟨hpos, -⟩ := hw (.inr (.inl hs))
    rw [← Nat.sub_add_cancel hpos] at hp
    obtain ⟨packets', hp'⟩ := hp.push i.f2hData { l.comm with
      count := l.comm.count - 1
      state := if l.comm.count = 1 then
          if l.comm.isAligned then .endWriteAligned else .endWriteNonaligned
        else .write }
    by_cases h1 : l.comm.count = 1
    · have hmod := hp'.chunked.length_mod
      rw [(CommFpga.count_eq_one_iff _).mp h1] at hal hp'
      simp only [List.length_append, List.length_singleton] at hmod
      cases hb : l.comm.isAligned with
      | true =>
        rw [hal.mp hb, List.length_eq_zero_iff] at hmod
        simp only [PacketInv, Monitor.record, h1, hb, if_true] at hp' hmod ⊢
        exact ⟨packets', hp', hmod, by simp⟩
      | false =>
        have hne : (m.current.length + 1) % packetSize ≠ 0 := fun h0 =>
          Bool.noConfusion (hb.symm.trans (hal.mpr h0))
        rw [← hmod, ne_eq, List.length_eq_zero_iff] at hne
        simp only [PacketInv, Monitor.record, h1, hb, if_true, Bool.false_eq_true, if_false]
          at hp' hne ⊢
        exact ⟨packets', hp', hne⟩
    · simp only [PacketInv, Monitor.record, h1, if_false, CommFpga.toNat_count_sub_one hpos]
        at hp' ⊢
      refine ⟨packets', hp', hal.trans ?_⟩
      rw [List.length_append, List.length_singleton,
        show m.current.length + 1 + (l.comm.count.toNat - 1) =
          m.current.length + l.comm.count.toNat by omega]
  | endAligned hs =>
    simp only [PacketInv, hs] at hm
    obtain ⟨packets, hp, hin, hne⟩ := hm
    exact hp.clean hne ⟨hin, by rw [if_pos hin]⟩
  | endNonaligned hs =>
    simp only [PacketInv, hs] at hm
    obtain ⟨packets, hp, hin⟩ := hm
    exact hp.clean (hp.current_ne_nil hin) ⟨rfl, by rw [if_neg hin]; rfl⟩
  | put hs b bs ho =>
    simp only [PacketInv, hs] at hm
    by_cases h1 : l.comm.count = 1
    · simp only [PacketInv, h1, if_true]
      exact hm.frame rfl rfl
    · simp only [PacketInv, h1, if_false]
      exact hm.frame rfl rfl

theorem record_log (b : BitVec 8) (m : Monitor) (a : List Action)
    (log : List (List (BitVec 8))) :
    { m with log := log }.record b a = { m.record b a with log := log } := by
  unfold Monitor.record
  split <;> rfl

theorem PacketInv.take (h : PacketInv l m) {log : List (List (BitVec 8))} (hc : l'.comm = l.comm)
    (hin : l'.fx2.ep6in = l.fx2.ep6in) (hlog : log ++ l'.fx2.packets = m.log ++ l.fx2.packets) :
    PacketInv l' { m with log := log } := by
  have hclean (h : Clean l m) : Clean l' { m with log := log } :=
    ⟨hin.trans h.ep6in, h.current, hlog.trans h.log, h.requested, h.nonempty⟩
  have hpacked {packets : List (List (BitVec 8))} {k : Nat} (h : Packed l m packets k) :
      Packed l' { m with log := log } packets k :=
    ⟨hin ▸ h.chunked, hlog.trans h.log, h.requested, h.nonempty⟩
  unfold PacketInv at h ⊢
  rw [hc]
  cases hs : l.comm.state with
  | write =>
    rw [hs] at h
    obtain ⟨packets, hp, hal⟩ := h
    exact ⟨packets, hpacked hp, hal⟩
  | endWriteAligned =>
    rw [hs] at h
    obtain ⟨packets, hp, h0, hne⟩ := h
    exact ⟨packets, hpacked hp, hin.trans h0, hne⟩
  | endWriteNonaligned =>
    rw [hs] at h
    obtain ⟨packets, hp, hne⟩ := h
    exact ⟨packets, hpacked hp, by rwa [hin]⟩
  | _ =>
    rw [hs] at h
    exact hclean h

theorem packetInv_clock (h : l.Legal i) (hw : l.comm.Wf) (hm : PacketInv l m) :
    PacketInv (clock i l) (watch i l m) := by
  rw [watch, record_log]
  refine ((step h).packetInv hw hm).take rfl rfl ?_
  have hm : (m.record i.f2hData (l.action i)).log = m.log := by
    unfold Monitor.record
    split <;> rfl
  rw [hm, List.append_assoc, collected, clock, exchange]
  cases i.collected with
  | true => cases (l.serve i).fx2.packets <;> simp
  | false => rfl

theorem sampled_of_ne_write (h : l.comm.state ≠ .write) : l.sampled i = [] := by
  rw [sampled, if_neg]
  rw [CommFpga.Gets, CommFpga.f2hReady_of_ne_write h]
  exact fun hg => Bool.noConfusion hg.1

theorem sampled_of_write (h : l.comm.state = .write) :
    l.sampled i = if l.Stalled i then [] else [i.f2hData] := by
  by_cases hg : i.gotRoom = true ∧ i.f2hValid = true
  · rw [if_neg (by simp [Stalled, h, hg])]
    simp [sampled, CommFpga.Gets, CommFpga.bus, CommFpga.signals, CommFpga.logic, h, edge, hg]
  · rw [if_pos (by simpa [Stalled, h] using hg), sampled, if_neg]
    simp [CommFpga.Gets, CommFpga.signals, CommFpga.logic, h, edge, hg]

theorem watch_bytes (i : BridgeEdge) (l : Bridge) (m : Monitor) :
    (watch i l m).replies.flatten ++ (watch i l m).current =
      m.replies.flatten ++ m.current ++ l.sampled i := by
  rw [watch, record_log]
  unfold action
  by_cases hst : l.Stalled i
  · rw [if_pos hst]
    by_cases hs : l.comm.state = .write
    · rw [sampled_of_write hs, if_pos hst]
      simp [Monitor.record]
    · rw [sampled_of_ne_write hs]
      simp [Monitor.record]
  · rw [if_neg hst]
    cases hs : l.comm.state with
    | write =>
      rw [sampled_of_write hs, if_neg hst]
      simp [Monitor.record]
    | _ =>
      rw [sampled_of_ne_write (by rw [hs]; decide)]
      simp [Monitor.record]

theorem watch_requested (i : BridgeEdge) (l : Bridge) (m : Monitor) :
    (watch i l m).requested = m.requested ++ (l.action i).filterMap Action.turned := by
  rw [watch, record_log]
  unfold action
  split
  · simp [Monitor.record]
  · cases l.comm.state <;> simp [Monitor.record]

theorem watch_log (i : BridgeEdge) (l : Bridge) (m : Monitor) :
    (watch i l m).log = m.log ++ l.collected i := by
  rw [watch, record_log]

theorem run_watch (l : Bridge) (m : Monitor) (is : List BridgeEdge) :
    let m' := (run (ghost clock watch) (l, m) is).2
    m'.replies.flatten ++ m'.current =
        m.replies.flatten ++ m.current ++ emitted clock sampled l is ∧
      m'.requested = m.requested ++ (emitted clock action l is).filterMap Action.turned ∧
      m'.log = m.log ++ emitted clock collected l is := by
  induction is generalizing l m with
  | nil => simp [emitted]
  | cons i is ih =>
    obtain ⟨hb, hr, hl⟩ := ih (clock i l) (watch i l m)
    rw [watch_bytes] at hb
    rw [watch_requested] at hr
    rw [watch_log] at hl
    simp only [run_cons, ghost, emitted, List.filterMap_append, ← List.append_assoc]
    exact ⟨hb, hr, hl⟩

theorem PacketInv.clean (h : PacketInv l m) (ho : l.owed [] = []) : Clean l m := by
  unfold PacketInv at h
  unfold owed at ho
  cases hs : l.comm.state with
  | write => simp [hs] at ho
  | endWriteAligned => simp [hs] at ho
  | endWriteNonaligned => simp [hs] at ho
  | _ =>
    rw [hs] at h
    exact h

theorem packets_of_owed {is : List BridgeEdge} (h : Runs clock Legal {} is)
    (ho : (after is).owed [] = []) :
    ∃ replies : List (List (BitVec 8)), replies.flatten = emitted clock sampled {} is ∧
      replies.map List.length = (decode (submitted is)).filterMap Action.turned ∧
      (after is).fx2.ep6in = [] ∧
      emitted clock collected {} is ++ (after is).fx2.packets = replies.flatMap (cut packetSize) ∧
      ∀ d ∈ replies, d ≠ [] := by
  have hghost : Runs (ghost clock watch) (fun i x => x.1.Legal i) (({} : Bridge), {}) is :=
    runs_ghost.mpr h
  have hstart : PacketInv {} {} := ⟨rfl, rfl, rfl, rfl, by simp⟩
  have hinv := (hghost.invariant
    (P := fun x : Bridge × Monitor => x.1.comm.Wf ∧ PacketInv x.1 x.2)
    (fun i x hl hx => ⟨wf_clock hl hx.1, packetInv_clock hl hx.1 hx.2⟩) ⟨wf_powerUp, hstart⟩).2
  rw [run_ghost_fst] at hinv
  obtain ⟨hb, hr, hl⟩ := run_watch {} {} is
  generalize (run (ghost clock watch) (({} : Bridge), {}) is).2 = m at hinv hb hr hl
  have hclean : Clean (after is) m := PacketInv.clean hinv ho
  -- the reads that were begun are those of the stream
  have hact := emitted_owed h wf_powerUp []
  rw [ho, List.append_nil, List.append_nil] at hact
  have hstart : ({} : Bridge).owed (submitted is) = .wake :: decode (submitted is) := rfl
  rw [hstart] at hact
  refine ⟨m.replies, ?_, ?_, hclean.ep6in, ?_, hclean.nonempty⟩
  · rw [hclean.current, List.append_nil] at hb
    exact hb
  · rw [← hclean.requested, hr, ← hact, List.filterMap_cons_none rfl]
    rfl
  · rw [← hclean.log, hl]
    rfl

theorem turned_decode (cs : List Command) (bs : List (BitVec 8)) :
    (decode (cs.flatMap Command.encode ++ bs)).filterMap Action.turned =
      cs.filterMap Command.reply ++ (decode bs).filterMap Action.turned := by
  rw [decode_encode, List.filterMap_append, List.filterMap_flatMap]
  simp only [Command.turned_actions]
  rw [← List.filterMap_eq_flatMap_toList]

/-- Once all commands are carried out, the packets for the host are the bytes taken from the
channels, one reply after the other: a read of the host takes its own bytes and leaves nothing
behind, a short packet ends exactly the replies that do not fill their last one, and no packet is
empty. -/
theorem replies_packetized (cs : List Command) (is : List BridgeEdge) (h : Runs clock Legal {} is)
    (hs : submitted is = cs.flatMap Command.encode) (hset : (after is).Settled) :
    ∃ replies : List (List (BitVec 8)), replies.flatten = emitted clock sampled {} is ∧
      replies.map List.length = cs.filterMap Command.reply ∧ (after is).fx2.ep6in = [] ∧
      emitted clock collected {} is ++ (after is).fx2.packets =
        replies.flatMap (cut packetSize) ∧
      bulkReads (cs.filterMap Command.reply)
        (emitted clock collected {} is ++ (after is).fx2.packets) = some (replies, []) := by
  obtain ⟨replies, hflat, hlen, hin, hpackets, hne⟩ :=
    packets_of_owed h (by rw [owed_of_settled hset, decode_nil])
  have hturned := turned_decode cs []
  rw [List.append_nil, decode_nil, List.filterMap_nil, List.append_nil, ← hs] at hturned
  rw [hturned] at hlen
  refine ⟨replies, hflat, hlen, hin, hpackets, ?_⟩
  rw [← hlen, hpackets]
  exact bulkReads_cut _ hne

theorem replies_packetized_readZero : ∃ replies : List (List (BitVec 8)), replies.flatten = [7] ∧
    replies.map List.length = [1] ∧ (after (readZero 7)).fx2.ep6in = [] ∧
    (after (readZero 7)).fx2.packets = replies.flatMap (cut packetSize) ∧
    bulkReads [1] (after (readZero 7)).fx2.packets = some (replies, []) :=
  replies_packetized [.read 0 1 (by decide) (by decide)] (readZero 7) (by decide) rfl (by decide)

end Bridge

end AtmController.Link
