import AtmController.Link.Session

namespace AtmController.Link

open Clocked Chunks Effect FLContext

theorem reports_of_lengths {ns : List Read} {ds : List (List (BitVec 8))}
    (h : ds.map List.length = ns.map Read.count) :
    (∀ r ∈ List.zipWith Read.report ns ds, r.Whole) ∧
      ((∀ r ∈ ns, r.buffer = .own) →
        (List.zipWith Read.report ns ds).flatMap CompletionReport.data = ds.flatten) := by
  induction ns generalizing ds with
  | nil =>
    obtain rfl : ds = [] := List.map_eq_nil_iff.mp h
    exact ⟨nofun, fun _ => rfl⟩
  | cons r ns ih =>
    obtain ⟨d, ds', rfl⟩ := List.exists_cons_of_ne_nil (l := ds) (by rintro rfl; cases h)
    rw [List.map_cons, List.map_cons, List.cons.injEq] at h
    obtain ⟨hwhole, hdata⟩ := ih h.2
    rw [List.zipWith_cons_cons]
    refine ⟨fun s hs => ?_, fun hown => ?_⟩
    · rcases List.mem_cons.mp hs with rfl | hs
      · exact whole_report h.1
      · exact hwhole s hs
    · rw [List.flatMap_cons, List.flatten_cons, data_report (hown r List.mem_cons_self),
        hdata fun s hs => hown s (List.mem_cons_of_mem _ hs)]

theorem completions_of_bulkReads {ns : List Read} {ds ps ps' : List (List (BitVec 8))}
    (h : bulkReads (ns.map Read.count) ps = some (ds, ps')) :
    completions ns ps = some (List.zipWith Read.report ns ds, ps') := by
  rw [completions_eq_bulkReads, h, Option.map_some]

theorem Answered.of_append {ns ns' : List Nat} {ps : List (List (BitVec 8))}
    (h : Answered (ns ++ ns') ps) : Answered ns ps := by
  obtain ⟨rs, ps', hr, hfull⟩ := h
  rw [List.map_append, completions_append] at hr
  cases h' : completions (ns.map (Read.mk · .own)) ps with
  | none => simp [h'] at hr
  | some r =>
    rw [h', Option.bind_some] at hr
    obtain ⟨s, -, hs⟩ := Option.map_eq_some_iff.mp hr
    rw [Prod.mk.injEq] at hs
    exact ⟨r.1, r.2, h', fun t ht => hfull t (hs.1 ▸ List.mem_append_left _ ht)⟩

theorem Answered.of_bulkReads {ds ps ps' : List (List (BitVec 8))}
    (h : bulkReads (ds.map List.length) ps = some (ds, ps')) :
    Answered (ds.map List.length) ps := by
  have hcount : ((ds.map List.length).map (Read.mk · .own)).map Read.count = ds.map List.length := by
    rw [List.map_map]
    exact List.map_id _
  rw [← hcount] at h
  exact ⟨_, _, completions_of_bulkReads h, (reports_of_lengths hcount.symm).1⟩

theorem Answered.of_prefix {cs ds : List Command} {ps : List (List (BitVec 8))} (hcs : cs <+: ds)
    (h : Answered (ds.filterMap Command.reply) ps) : Answered (cs.filterMap Command.reply) ps := by
  obtain ⟨es, rfl⟩ := hcs
  rw [List.filterMap_append] at h
  exact h.of_append

theorem transfers_calls (calls : List Call) :
    (calls.flatMap Call.commands).flatMap Command.transfers = calls.flatMap Call.transfers := by
  rw [List.flatMap_assoc]
  simp only [Call.transfers_commands]

theorem count_reads (calls : List Call) : (calls.flatMap Call.reads).map Read.count =
    (calls.flatMap Call.commands).filterMap Command.reply := by
  rw [List.map_flatMap, List.filterMap_flatMap]
  simp only [Call.count_reads]

theorem own_reads {calls : List Call} (h : ∀ call ∈ calls, call.buffer = .own) :
    ∀ r ∈ calls.flatMap Call.reads, r.buffer = .own := by
  intro r hr
  obtain ⟨call, hcall, hr⟩ := List.mem_flatMap.mp hr
  obtain ⟨n, -, rfl⟩ := List.mem_map.mp hr
  exact h call hcall

namespace Bridge

def allPackets (is : List BridgeEdge) : List (List (BitVec 8)) :=
  emitted clock collected {} is ++ (after is).fx2.packets

/-- The calls of an application, in any order that is allowed, on an interface that does all that
they ask for, whatever it waits for in between: no call fails, the channels see what the calls are
there for, and the reads return what the channels gave, each its own bytes. -/
theorem session_delivered (chunkSize : BitVec 16) (calls : List Call) (is : List BridgeEdge)
    (hal : Runs Call.next Call.Allowed [] calls) (hend : run Call.next [] calls = [])
    (hrun : Runs clock Legal {} is)
    (hsub : submitted is = (calls.flatMap Call.commands).flatMap Command.encode)
    (hset : (after is).Settled) :
    ∃ results c, session chunkSize calls { packets := allPackets is, refusals := [] } =
        .ok results c ∧
      c.submitted.flatten = submitted is ∧ c.packets = [] ∧
      emitted clock transfer {} is = calls.flatMap Call.transfers ∧
      ((∀ call ∈ calls, call.buffer = .own) → results.flatten = emitted clock sampled {} is) ∧
      results.map List.length = emitted Call.next Call.lengths [] calls := by
  obtain ⟨ds, hflat, hlen, -, hpackets, hne⟩ :=
    packets_of_owed hrun (by rw [owed_of_settled hset, decode_nil])
  have hturned := turned_decode (calls.flatMap Call.commands) []
  rw [List.append_nil, decode_nil, List.filterMap_nil, List.append_nil, ← hsub] at hturned
  rw [hturned] at hlen
  have hbulk : bulkReads (ds.map List.length) (allPackets is) = some (ds, []) := by
    rw [allPackets, hpackets]
    exact bulkReads_cut _ hne
  have hspec := session_spec chunkSize (allPackets is) hal
  cases hses : session chunkSize calls { packets := allPackets is } with
  | error e c =>
    obtain ⟨cs, hcs, -, hn⟩ := wp_error hspec hses
    exact absurd (Answered.of_prefix hcs (hlen ▸ Answered.of_bulkReads hbulk)) hn
  | ok results c =>
    obtain ⟨hp, hstream, rs, hrs, hd, hl⟩ := wp_ok hspec hses
    rw [hend] at hp
    rw [hlen, ← count_reads] at hbulk
    rw [completions_of_bulkReads hbulk, replies_of_pending hp, Option.map_some,
      Option.some.injEq, Prod.mk.injEq, List.append_nil] at hrs
    obtain ⟨hwhole, hdata⟩ := reports_of_lengths (hlen.trans (count_reads calls).symm)
    have htr := transfers_append hrun [] (by rw [hsub, List.append_nil])
    rw [owed_of_settled hset, decode_nil, List.filterMap_nil, List.append_nil,
      transfers_calls] at htr
    refine ⟨results, c, rfl, hstream.trans hsub.symm, hrs.2.symm, htr, fun hown => ?_,
      hl (hrs.1 ▸ hwhole)⟩
    rw [← hd, ← hrs.1, ← hflat]
    exact hdata (own_reads hown)

def writeRead : List BridgeEdge :=
  ⟨false, true, true, 7, true, [1, 0, 1, 42, 0x82, 0, 1], false⟩ ::
    List.replicate 7 ⟨true, true, true, 7, true, [], false⟩ ++
    List.replicate 3 ⟨false, true, true, 7, true, [], false⟩

theorem session_delivered_writeRead :
    ∃ results c, session 2 [.write 1 [42], .read 2 1]
        { packets := allPackets writeRead, refusals := [] } = .ok results c ∧
      c.submitted.flatten = submitted writeRead ∧ c.packets = [] ∧
      emitted clock transfer {} writeRead = [.put 1 42, .get 2] ∧
      results.flatten = [7] ∧ results.map List.length = [0, 1] := by
  have hsub : submitted writeRead =
      ([Call.write 1 [42], .read 2 1].flatMap Call.commands).flatMap Command.encode := by
    rw [List.flatMap_cons, List.flatMap_singleton, Call.commands, Call.commands,
      writeCommands_of_le _ (by decide) (by decide), readCommands_of_le _ (by decide) (by decide)]
    rfl
  obtain ⟨results, c, hs, hc, hp, ht, hdata, hlen⟩ := session_delivered 2
    [.write 1 [42], .read 2 1] writeRead (by decide) rfl (by decide) hsub (by decide)
  exact ⟨results, c, hs, hc, hp, ht, hdata (by simp [Call.buffer]), hlen⟩

/-- The two sides never wait for each other: when a call waits for a reply that does not come, the
interface still has work to do on what was submitted. -/
theorem session_waits_for_work (chunkSize : BitVec 16) (calls : List Call) (is : List BridgeEdge)
    (hal : Runs Call.next Call.Allowed [] calls) (hrun : Runs clock Legal {} is) (e : FLStatus)
    (c : FLContext)
    (hses : session chunkSize calls { packets := allPackets is } = .error e c)
    (hsub : submitted is = c.submitted.flatten) :
    ∃ i, (after is).Legal i ∧ ¬ (after is).Stalled i := by
  refine exists_active fun ho => ?_
  obtain ⟨ds, -, hlen, -, hpackets, hne⟩ := packets_of_owed hrun ho
  have hbulk : bulkReads (ds.map List.length) (allPackets is) = some (ds, []) := by
    rw [allPackets, hpackets]
    exact bulkReads_cut _ hne
  obtain ⟨cs, -, ⟨bs, hbs⟩, hn⟩ := wp_error (session_spec chunkSize (allPackets is) hal) hses
  rw [hsub, ← hbs, turned_decode] at hlen
  exact hn (Answered.of_append (hlen ▸ Answered.of_bulkReads hbulk))

theorem session_waits_for_work_read : ∃ i,
    (after [⟨false, true, true, 7, true, [0x80, 0, 1], false⟩]).Legal i ∧
      ¬ (after [⟨false, true, true, 7, true, [0x80, 0, 1], false⟩]).Stalled i :=
  session_waits_for_work 0 [.read 0 1] _ (by decide) (by decide) .usbErr _ rfl rfl

end Bridge

end AtmController.Link
