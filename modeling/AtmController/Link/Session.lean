import AtmController.Link.Answers

namespace AtmController.Link

open Clocked Chunks Effect FLContext

/-- A call of the library; bit 7 of a channel is ignored. -/
inductive Call
  | writeAsync (chan : BitVec 8) (data : List (BitVec 8))
  | flush
  | awaitWrites
  | write (chan : BitVec 8) (data : List (BitVec 8))
  | readSubmit (chan : BitVec 8) (count : Nat) (buffer : ReadBuffer)
  | readAwait
  | read (chan : BitVec 8) (count : Nat)

namespace Call

def run : Call → FL (List (BitVec 8))
  | writeAsync chan data => do
    flWriteChannelAsync chan data
    pure []
  | flush => do
    flFlushAsyncWrites
    pure []
  | awaitWrites => do
    flAwaitAsyncWrites
    pure []
  | write chan data => do
    flWriteChannel chan data
    pure []
  | readSubmit chan count buffer => do
    flReadChannelAsyncSubmit chan count buffer
    pure []
  | readAwait => do
    let report ← flReadChannelAsyncAwait
    pure report.data
  | read chan count => flReadChannel chan count

def transfers : Call → List Transfer
  | writeAsync chan data | write chan data => data.map (.put (chan.setWidth 7))
  | readSubmit chan count _ | read chan count => List.replicate count (.get (chan.setWidth 7))
  | _ => []

def commands : Call → List Command
  | writeAsync chan data | write chan data => writeCommands (chan.setWidth 7) data
  | readSubmit chan count _ | read chan count => readCommands (chan.setWidth 7) count
  | _ => []

def buffer : Call → ReadBuffer
  | readSubmit _ _ buffer => buffer
  | _ => .own

def reads (call : Call) : List Read := readsInto call.buffer call.commands

/-- When a call may be made, for the reads that were submitted and not awaited. -/
def Allowed : Call → List Read → Prop
  | writeAsync _ data, _ => data ≠ []
  | flush, _ => True
  | awaitWrites, ks => ks = []
  | write _ data, ks => ks = [] ∧ data ≠ []
  | readSubmit _ count _, _ => 0 < count ∧ count ≤ maxLength
  | readAwait, ks => ks ≠ []
  | read _ count, ks => ks = [] ∧ 0 < count

instance (call : Call) (ks : List Read) : Decidable (call.Allowed ks) := by
  unfold Allowed
  split <;> infer_instance

def next : Call → List Read → List Read
  | readSubmit _ count buffer, ks => ks ++ [⟨count, buffer⟩]
  | readAwait, ks => ks.tail
  | _, ks => ks

def lengths : Call → List Read → List Nat
  | readAwait, ks => [match ks with
    | ⟨count, .own⟩ :: _ => count
    | _ => 0]
  | read _ count, _ => [count]
  | _, _ => [0]

theorem transfers_commands (call : Call) :
    call.commands.flatMap Command.transfers = call.transfers := by
  cases call with
  | writeAsync chan data => exact transfers_writeCommands _ _
  | write chan data => exact transfers_writeCommands _ _
  | readSubmit chan count buffer => exact transfers_readCommands _ _
  | read chan count => exact transfers_readCommands _ _
  | _ => rfl

def Post (call : Call) (c : FLContext) (data : List (BitVec 8)) (c' : FLContext) : Prop :=
  c'.pending = call.next c.pending ∧
    (call.commands.filterMap Command.reply = [] ∨ c'.buffered = []) ∧
    ∃ rs, Served (call.commands.flatMap Command.encode) call.reads rs c c' ∧
      rs.flatMap CompletionReport.data = data ∧
      ((∀ r ∈ rs, r.Whole) → [data.length] = call.lengths c.pending)

variable {c c' : FLContext}

theorem post_of_appended {call : Call} (hl : call.lengths c.pending = [0])
    (hn : call.next c.pending = c.pending) (hr : call.commands.filterMap Command.reply = [])
    (h : Appended (call.commands.flatMap Command.encode) c c') : call.Post c [] c' := by
  refine ⟨h.pending.trans hn.symm, .inl hr, [], ?_, rfl, fun _ => hl.symm⟩
  rw [reads, readsInto, hr]
  exact h.served

theorem run_spec (call : Call) (hc : c.Ok) (hcap : c.isCommCapable = true)
    (hal : call.Allowed c.pending) :
    wp call.run (call.Post c) (fun _ c' => Starved call.commands c c') c := by
  cases call with
  | writeAsync chan data =>
    rw [run, wp_bind]
    exact wp_mono (fun _ c' h => post_of_appended rfl rfl (reply_writeCommands _ _) h)
      (fun _ _ he => .inl he) (flWriteChannelAsync_spec hc hcap chan hal)
  | flush =>
    rw [run, wp_bind]
    refine wp_mono (fun _ c' h => post_of_appended rfl rfl rfl h.1) (fun _ _ he => ?_)
      (flFlushAsyncWrites_spec hc)
    rw [hcap] at he
    exact Bool.noConfusion he
  | awaitWrites =>
    rw [run, wp_bind]
    refine wp_mono (fun _ c' h => post_of_appended rfl rfl rfl h.1) (fun _ _ he => ?_)
      (flAwaitAsyncWrites_spec hc)
    rw [hcap] at he
    exact .inl ((he.resolve_left Bool.noConfusion).resolve_right (· hal))
  | write chan data =>
    rw [run, wp_bind]
    exact wp_mono (fun _ c' h => post_of_appended rfl rfl (reply_writeCommands _ _) h.2)
      (fun _ _ he => .inl (he.resolve_right (· hal.1))) (flWriteChannel_spec hc hcap chan hal.2)
  | readSubmit chan count buffer =>
    rw [run, wp_bind]
    refine wp_mono (fun _ c' h => ?_) (fun _ _ he => .inl he)
      (readSubmit_spec hc hcap chan hal.1 hal.2 buffer)
    obtain ⟨hb, hp, rs, hs, hd⟩ := h
    exact ⟨hp, .inr hb, rs, hs, hd, fun _ => rfl⟩
  | readAwait =>
    obtain ⟨⟨n, buffer⟩, ks, hp⟩ := List.exists_cons_of_ne_nil hal
    rw [run, wp_bind]
    refine wp_mono (fun r c' h => ?_) (fun _ _ he => .inl he) (awaitReply_spec hc hp)
    obtain ⟨hread, hks, -, hs⟩ := h
    refine ⟨?_, .inl rfl, [r], hs, by simp, fun hfull => ?_⟩
    · rw [hks, hp]
      rfl
    · rw [hp]
      cases buffer with
      | own => exact congrArg (fun n => [n]) (r.length_data hread (hfull r List.mem_cons_self))
      | borrowed => exact congrArg (fun n => [n]) (r.length_data_borrowed hread)
  | read chan count =>
    refine wp_mono (fun data c' h => ?_) (fun _ _ he => he)
      (flReadChannel_spec hc hcap chan hal.2 hal.1)
    obtain ⟨hlen, hp, hb, rs, hs, hd⟩ := h
    exact ⟨hp.trans hal.1.symm, .inr hb, rs, hs, hd, fun _ => congrArg (fun n => [n]) hlen⟩

end Call

variable {c₀ c c' : FLContext} {cs ds : List Command} {ns : List Read} {rs : List CompletionReport}
  {calls : List Call}

/-- The commands `cs` were issued since `c₀`, and those of all reads have left the write buffer. -/
structure History (c₀ : FLContext) (cs : List Command) (ns : List Read)
    (rs : List CompletionReport) (c : FLContext) : Prop where
  served : Served (cs.flatMap Command.encode) ns rs c₀ c
  count : ns.map Read.count = cs.filterMap Command.reply
  flushed : ∃ cs₁, cs₁ <+: cs ∧ cs₁.filterMap Command.reply = cs.filterMap Command.reply ∧
    cs₁.flatMap Command.encode <+: c.submitted.flatten

/-- The reply to a command that was submitted is missing or short. -/
def Missing (c₀ : FLContext) (cs : List Command) (c : FLContext) : Prop :=
  ∃ cs₁, cs₁ <+: cs ∧ cs₁.flatMap Command.encode <+: c.submitted.flatten ∧
    ¬ c₀.Answers (cs₁.filterMap Command.reply)

theorem Missing.mono (h : Missing c₀ cs c) : Missing c₀ (cs ++ ds) c :=
  h.imp fun _ h => ⟨h.1.trans (List.prefix_append _ _), h.2⟩

theorem Call.count_reads (call : Call) :
    call.reads.map Read.count = call.commands.filterMap Command.reply :=
  count_readsInto ..

theorem History.post {call : Call} {data : List (BitVec 8)} (h : History c₀ cs ns rs c)
    (h₀ : c₀.stream = []) (hpost : call.Post c data c') :
    ∃ rs', History c₀ (cs ++ call.commands) (ns ++ call.reads) (rs ++ rs') c' ∧
      rs'.flatMap CompletionReport.data = data ∧
      ((∀ r ∈ rs', r.Whole) → [data.length] = call.lengths c.pending) := by
  obtain ⟨-, hfl, rs', hs, hd, hl⟩ := hpost
  have hserved := h.served.trans hs
  rw [← List.flatMap_append] at hserved
  refine ⟨rs', ⟨hserved, ?_, ?_⟩, hd, hl⟩
  · rw [List.map_append, List.filterMap_append, h.count, call.count_reads]
  · rcases hfl with hr | hb
    · obtain ⟨cs₁, hcs, hrep, hsub⟩ := h.flushed
      refine ⟨cs₁, hcs.trans (List.prefix_append _ _), ?_, hsub.trans (flatten_mono hs.grows)⟩
      rw [List.filterMap_append, hr, List.append_nil, hrep]
    · refine ⟨_, List.prefix_rfl, rfl, ?_⟩
      have hst := hserved.stream
      rw [h₀, List.nil_append, stream_of_buffered hb] at hst
      rw [hst]

theorem History.answers (h : History c₀ cs ns rs c)
    (ha : c₀.Answers ((cs ++ ds).filterMap Command.reply)) :
    c.Answers (ds.filterMap Command.reply) := by
  rw [List.filterMap_append, ← h.count] at ha
  exact (h.served.answers ha).2

theorem History.missing (h : History c₀ cs ns rs c) (h₀ : c₀.stream = [])
    (hst : Starved ds c c') : Missing c₀ (cs ++ ds) c' := by
  rcases hst with hu | ⟨ds₁, hds, hsub, hn⟩
  · obtain ⟨cs₁, hcs, hrep, hsub⟩ := h.flushed
    refine ⟨cs₁, hcs.trans (List.prefix_append _ _), hsub.trans (flatten_mono hu.2), fun ha => ?_⟩
    rw [hrep, ← List.append_nil cs] at ha
    exact hu.1 (h.answers ha)
  · refine ⟨cs ++ ds₁, (List.prefix_append_right_inj _).mpr hds, ?_, fun ha => hn (h.answers ha)⟩
    rwa [List.flatMap_append, ← List.nil_append (cs.flatMap Command.encode), ← h₀,
      ← h.served.stream]

theorem calls_spec (h₀ : c₀.stream = []) (h : History c₀ cs ns rs c)
    (hcap : c.isCommCapable = true) (hal : Runs Call.next Call.Allowed c.pending calls) :
    wp (calls.mapM Call.run)
      (fun results c' => c'.pending = run Call.next c.pending calls ∧
        ∃ rs', History c₀ (cs ++ calls.flatMap Call.commands) (ns ++ calls.flatMap Call.reads)
            (rs ++ rs') c' ∧
          rs'.flatMap CompletionReport.data = results.flatten ∧
          ((∀ r ∈ rs', r.Whole) →
            results.map List.length = emitted Call.next Call.lengths c.pending calls))
      (fun _ c' => Missing c₀ (cs ++ calls.flatMap Call.commands) c') c := by
  induction calls generalizing cs ns rs c with
  | nil =>
    rw [List.mapM_nil]
    exact ⟨rfl, [], by simpa using h, rfl, fun _ => rfl⟩
  | cons call calls ih =>
    rw [List.mapM_cons, wp_bind, List.flatMap_cons, List.flatMap_cons, ← List.append_assoc,
      ← List.append_assoc]
    refine wp_mono (fun data c1 h1 => ?_) (fun _ _ he => (h.missing h₀ he).mono)
      (call.run_spec h.served.toOk hcap hal.1)
    obtain ⟨rs₁, hh, hd, hl⟩ := h.post h₀ h1
    have hcap1 : c1.isCommCapable = true := h1.2.2.choose_spec.1.isCommCapable.trans hcap
    rw [wp_bind]
    refine wp_mono (fun results c2 h2 => ?_) (fun _ _ he => he)
      (ih hh hcap1 (h1.1 ▸ hal.2))
    obtain ⟨hp2, rs₂, hh2, hd2, hl2⟩ := h2
    refine ⟨?_, rs₁ ++ rs₂, ?_, ?_, fun hfull => ?_⟩
    · rw [hp2, run_cons, h1.1]
    · rwa [← List.append_assoc]
    · rw [List.flatMap_append, hd, hd2, List.flatten_cons]
    · rw [List.map_cons, hl2 fun r hr => hfull r (List.mem_append_right _ hr), emitted,
        ← hl fun r hr => hfull r (List.mem_append_left _ hr), h1.1]
      rfl

/-- The calls of an application, which picks the size of the chunks before and flushes after. -/
def session (chunkSize : BitVec 16) (calls : List Call) : FL (List (List (BitVec 8))) := do
  flSetAsyncWriteChunkSize chunkSize
  let results ← calls.mapM Call.run
  flFlushAsyncWrites
  pure results

theorem flSetAsyncWriteChunkSize_spec (chunkSize : BitVec 16) (ps : List (List (BitVec 8))) :
    wp (flSetAsyncWriteChunkSize chunkSize)
      (fun _ c => c.Ok ∧ c.isCommCapable = true ∧ c.stream = [] ∧ c.pending = [] ∧
        ∀ ns, c.repliesTo ns = completions ns ps)
      (fun _ _ => False) { packets := ps } := by
  rw [flSetAsyncWriteChunkSize, wp_bind, wp_get]
  have hsize : 0 < (if chunkSize ≠ 0 then chunkSize.toNat else 0x10000) ∧
      (if chunkSize ≠ 0 then chunkSize.toNat else 0x10000) ≤ 0x10000 := by
    split
    · next h =>
      have hne : chunkSize.toNat ≠ 0 := fun h0 => h (BitVec.eq_of_toNat_eq h0)
      have := chunkSize.isLt
      omega
    · exact ⟨by decide, le_rfl⟩
  refine ⟨⟨rfl, hsize.2, hsize.1, by simp⟩, rfl, rfl, rfl, fun ns => ?_⟩
  simp [repliesTo, inFlight, held]

def Answered (ns : List Nat) (ps : List (List (BitVec 8))) : Prop :=
  ∃ rs ps', completions (ns.map (Read.mk · .own)) ps = some (rs, ps') ∧ ∀ r ∈ rs, r.Whole

theorem session_spec (chunkSize : BitVec 16) (ps : List (List (BitVec 8)))
    (hal : Runs Call.next Call.Allowed [] calls) :
    wp (session chunkSize calls)
      (fun results c => c.pending = run Call.next [] calls ∧
        c.submitted.flatten = (calls.flatMap Call.commands).flatMap Command.encode ∧
        ∃ rs, completions (calls.flatMap Call.reads) ps =
            c.replies.map (fun r => (rs ++ r.1, r.2)) ∧
          rs.flatMap CompletionReport.data = results.flatten ∧
          ((∀ r ∈ rs, r.Whole) →
            results.map List.length = emitted Call.next Call.lengths [] calls))
      (fun _ c => ∃ cs, cs <+: calls.flatMap Call.commands ∧
        cs.flatMap Command.encode <+: c.submitted.flatten ∧
        ¬ Answered (cs.filterMap Command.reply) ps) { packets := ps } := by
  rw [session, wp_bind]
  refine wp_mono (fun _ c h => ?_) (fun _ _ he => he.elim)
    (flSetAsyncWriteChunkSize_spec chunkSize ps)
  obtain ⟨hc, hcap, hstream, hp, hrep⟩ := h
  have hstart : History c [] [] [] c :=
    ⟨(Appended.refl hc).served, rfl, [], List.prefix_rfl, rfl, List.nil_prefix⟩
  rw [wp_bind]
  refine wp_mono (fun results c1 h1 => ?_) (fun _ _ he => ?_)
    (calls_spec hstream hstart hcap (hp ▸ hal))
  · obtain ⟨hp1, rs, hh, hd, hl⟩ := h1
    rw [List.nil_append, List.nil_append, List.nil_append] at hh
    rw [wp_bind]
    refine wp_mono (fun _ c2 h2 => ?_) (fun _ _ he => ?_) (flFlushAsyncWrites_spec hh.served.toOk)
    · have hfin := hh.served.trans h2.1.served
      have hst := hfin.stream
      rw [stream_of_buffered h2.2, hstream, List.append_nil, List.nil_append] at hst
      have hrs := hfin.replies
      rw [hrep, List.append_nil, List.append_nil] at hrs
      exact ⟨h2.1.pending.trans (hp ▸ hp1), hst, rs, hrs, hd, hp ▸ hl⟩
    · rw [hh.served.isCommCapable, hcap] at he
      exact Bool.noConfusion he
  · obtain ⟨cs, hcs, hsub, hn⟩ := he
    refine ⟨cs, hcs, hsub, fun ⟨rs, ps', hr, hfull⟩ => hn ⟨rs, ps', ?_, hfull⟩⟩
    rw [hrep, hr]

end AtmController.Link
