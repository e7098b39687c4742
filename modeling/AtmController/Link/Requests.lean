import AtmController.Link.FpgaLink

namespace AtmController.Link

open Effect Chunks

def completions : List Read → List (List (BitVec 8)) →
    Option (List CompletionReport × List (List (BitVec 8)))
  | [], ps => some ([], ps)
  | r :: rs, ps =>
    (bulkRead r.count ps).bind fun d =>
      (completions rs d.2).map fun cs => (r.report d.1 :: cs.1, cs.2)

theorem completions_append (ms ns : List Read) (ps : List (List (BitVec 8))) :
    completions (ms ++ ns) ps =
      (completions ms ps).bind fun r => (completions ns r.2).map fun s => (r.1 ++ s.1, s.2) := by
  induction ms generalizing ps with
  | nil => simp [completions]
  | cons m ms ih =>
    simp only [List.cons_append, completions]
    cases bulkRead m.count ps with
    | none => rfl
    | some r =>
      simp only [Option.bind_some, ih]
      cases completions ms r.2 with
      | none => rfl
      | some t => cases h : completions ns t.2 <;> simp [h]

theorem completions_eq_bulkReads (ns : List Read) (ps : List (List (BitVec 8))) :
    completions ns ps =
      (bulkReads (ns.map Read.count) ps).map fun r => (List.zipWith Read.report ns r.1, r.2) := by
  induction ns generalizing ps with
  | nil => rfl
  | cons n ns ih =>
    simp only [completions, List.map_cons, bulkReads]
    cases bulkRead n.count ps with
    | none => rfl
    | some r =>
      simp only [Option.bind_some, ih]
      cases bulkReads (ns.map Read.count) r.2 <;> rfl

@[simp] theorem Read.read_report (r : Read) (data : List (BitVec 8)) : (r.report data).read = r := by
  obtain ⟨count, buffer⟩ := r
  cases buffer <;> rfl

@[simp] theorem Read.actualLength_report (r : Read) (data : List (BitVec 8)) :
    (r.report data).actualLength = data.length := by
  obtain ⟨count, buffer⟩ := r
  cases buffer <;> rfl

theorem whole_report {r : Read} {d : List (BitVec 8)} (h : d.length = r.count) :
    (r.report d).Whole :=
  (r.actualLength_report d).trans h

theorem data_report {r : Read} (h : r.buffer = .own) (d : List (BitVec 8)) :
    (r.report d).data = d := by
  obtain ⟨count, buffer⟩ := r
  obtain rfl : buffer = .own := h
  rfl

theorem exists_completions {ns ns' : List Read} (h : ns.map Read.count = ns'.map Read.count)
    {ps ps' : List (List (BitVec 8))} {rs : List CompletionReport}
    (hr : completions ns ps = some (rs, ps')) (hfull : ∀ r ∈ rs, r.Whole) :
    ∃ rs', completions ns' ps = some (rs', ps') ∧ ∀ r ∈ rs', r.Whole := by
  induction ns generalizing ns' ps rs with
  | nil =>
    obtain rfl : ns' = [] := List.map_eq_nil_iff.mp h.symm
    exact ⟨rs, hr, hfull⟩
  | cons n ns ih =>
    obtain ⟨n', ms, rfl⟩ := List.exists_cons_of_ne_nil (l := ns') (by rintro rfl; cases h)
    rw [List.map_cons, List.map_cons, List.cons.injEq] at h
    rw [completions, Option.bind_eq_some_iff] at hr
    obtain ⟨d, hd, hr⟩ := hr
    obtain ⟨⟨cs, qs⟩, hcs, heq⟩ := Option.map_eq_some_iff.mp hr
    obtain ⟨rfl, rfl⟩ := Prod.mk.inj heq
    obtain ⟨rs', hr', hfull'⟩ := ih h.2 hcs fun r hr => hfull r (List.mem_cons_of_mem _ hr)
    refine ⟨n'.report d.1 :: rs', ?_, fun r hr => ?_⟩
    · rw [completions, ← h.1, hd, Option.bind_some, hr', Option.map_some]
    · rcases List.mem_cons.mp hr with rfl | hr
      · have hn := hfull _ List.mem_cons_self
        unfold CompletionReport.Whole at hn ⊢
        rw [Read.actualLength_report] at hn ⊢
        exact hn.trans h.1
      · exact hfull' r hr

namespace FLContext

def stream (c : FLContext) : List (BitVec 8) := c.submitted.flatten ++ c.buffered

def held (c : FLContext) : List CompletionReport :=
  if c.completionReport.isRead then [c.completionReport] else []

def inFlight (c : FLContext) : List Read := c.queue.filterMap Request.asRead

def pending (c : FLContext) : List Read :=
  c.held.map CompletionReport.read ++ c.inFlight

/-- The replies that will be collected when `ns` are read besides, and the packets after them. -/
def repliesTo (c : FLContext) (ns : List Read) :
    Option (List CompletionReport × List (List (BitVec 8))) :=
  (completions (c.inFlight ++ ns) c.packets).map fun r => (c.held ++ r.1, r.2)

def replies (c : FLContext) : Option (List CompletionReport × List (List (BitVec 8))) :=
  (completions c.inFlight c.packets).map fun r => (c.held ++ r.1, r.2)

/-- The write buffer has room, no transfer is empty or longer than what holds it, and the system
refuses nothing. -/
structure Ok (c : FLContext) : Prop where
  refusals : c.refusals = []
  chunkSize : c.chunkSize ≤ 0x10000
  room : c.buffered.length < c.chunkSize
  submitted : ∀ d ∈ c.submitted, d ≠ [] ∧ d.length ≤ 0x10000

structure Awaited (c c' : FLContext) : Prop where
  refusals : c'.refusals = c.refusals
  isCommCapable : c'.isCommCapable = c.isCommCapable
  writeBuf : c'.writeBuf = c.writeBuf
  chunkSize : c'.chunkSize = c.chunkSize
  submitted : c'.submitted = c.submitted
  pending : c'.pending = c.pending
  replies : c'.replies = c.replies

structure Appended (bs : List (BitVec 8)) (c c' : FLContext) : Prop extends Ok c' where
  isCommCapable : c'.isCommCapable = c.isCommCapable
  grows : c.submitted <+: c'.submitted
  stream : c'.stream = c.stream ++ bs
  pending : c'.pending = c.pending
  replies : c'.replies = c.replies

/-- The stream is longer by `bs`, `ns` were read, and `rs` are the replies that were collected. -/
structure Served (bs : List (BitVec 8)) (ns : List Read) (rs : List CompletionReport)
    (c c' : FLContext) : Prop extends Ok c' where
  isCommCapable : c'.isCommCapable = c.isCommCapable
  grows : c.submitted <+: c'.submitted
  stream : c'.stream = c.stream ++ bs
  pending : rs.map CompletionReport.read ++ c'.pending = c.pending ++ ns
  replies : c.repliesTo ns = c'.replies.map fun r => (rs ++ r.1, r.2)

/-- The device answers all reads that are under way and `ns`, and no reply is short. -/
def Answers (c : FLContext) (ns : List Nat) : Prop :=
  ∃ rs ps, c.repliesTo (ns.map (Read.mk · .own)) = some (rs, ps) ∧ ∀ r ∈ rs, r.Whole

/-- In the course from `c` to `c'` there was no whole reply to a read that was under way. -/
def Unanswered (c c' : FLContext) : Prop := ¬ c.Answers [] ∧ c.submitted <+: c'.submitted

variable {c c' c'' : FLContext} {bs bs' : List (BitVec 8)} {ns ns' : List Read}
  {rs rs' : List CompletionReport}

theorem Awaited.refl : Awaited c c := ⟨rfl, rfl, rfl, rfl, rfl, rfl, rfl⟩

theorem Awaited.trans (h : Awaited c c') (h' : Awaited c' c'') : Awaited c c'' :=
  ⟨h'.refusals.trans h.refusals, h'.isCommCapable.trans h.isCommCapable, h'.writeBuf.trans h.writeBuf,
    h'.chunkSize.trans h.chunkSize, h'.submitted.trans h.submitted, h'.pending.trans h.pending,
    h'.replies.trans h.replies⟩

theorem Awaited.buffered (h : Awaited c c') : c'.buffered = c.buffered := by
  rw [FLContext.buffered, h.writeBuf, FLContext.buffered]

theorem Awaited.appended (h : Awaited c c') (hc : c.Ok) : Appended [] c c' where
  refusals := h.refusals.trans hc.refusals
  chunkSize := h.chunkSize ▸ hc.chunkSize
  room := by rw [h.buffered, h.chunkSize]; exact hc.room
  submitted := h.submitted ▸ hc.submitted
  isCommCapable := h.isCommCapable
  grows := h.submitted ▸ List.prefix_rfl
  stream := by rw [stream, stream, h.submitted, h.buffered, List.append_nil]
  pending := h.pending
  replies := h.replies

theorem Appended.refl (hc : c.Ok) : Appended [] c c :=
  { hc with
    isCommCapable := rfl, grows := List.prefix_rfl, stream := (List.append_nil _).symm
    pending := rfl, replies := rfl }

theorem Appended.trans (h : Appended bs c c') (h' : Appended bs' c' c'') :
    Appended (bs ++ bs') c c'' :=
  { h'.toOk with
    isCommCapable := h'.isCommCapable.trans h.isCommCapable
    grows := h.grows.trans h'.grows
    stream := by rw [h'.stream, h.stream, List.append_assoc]
    pending := h'.pending.trans h.pending
    replies := h'.replies.trans h.replies }

theorem repliesTo_append (c : FLContext) (ns ns' : List Read) :
    c.repliesTo (ns ++ ns') = (c.repliesTo ns).bind fun r =>
      (completions ns' r.2).map fun s => (r.1 ++ s.1, s.2) := by
  rw [repliesTo, repliesTo, ← List.append_assoc, completions_append]
  cases completions (c.inFlight ++ ns) c.packets with
  | none => rfl
  | some r => cases h : completions ns' r.2 <;> simp [h]

@[simp] theorem repliesTo_nil (c : FLContext) : c.repliesTo [] = c.replies := by
  rw [repliesTo, List.append_nil, replies]

theorem repliesTo_eq (c : FLContext) (ns : List Read) :
    c.repliesTo ns = c.replies.bind fun r =>
      (completions ns r.2).map fun s => (r.1 ++ s.1, s.2) := by
  rw [← List.nil_append ns, repliesTo_append, repliesTo_nil, List.nil_append]

theorem answers_nil : c.Answers [] ↔ ∃ rs ps, c.replies = some (rs, ps) ∧ ∀ r ∈ rs, r.Whole := by
  rw [Answers, List.map_nil, repliesTo_nil]

theorem unanswered_of_none (h : c.replies = none) (hs : c.submitted <+: c'.submitted) :
    Unanswered c c' := by
  refine ⟨fun ha => ?_, hs⟩
  obtain ⟨rs, ps, hr, -⟩ := answers_nil.mp ha
  rw [h] at hr
  cases hr

theorem Unanswered.of_replies (h : Unanswered c' c'') (hr : c'.replies = c.replies)
    (hs : c.submitted <+: c'.submitted) : Unanswered c c'' := by
  refine ⟨fun ha => h.1 ?_, hs.trans h.2⟩
  rw [answers_nil] at ha ⊢
  rwa [hr]

theorem Awaited.unanswered (h : Awaited c c') (h' : Unanswered c' c'') : Unanswered c c'' :=
  h'.of_replies h.replies (h.submitted ▸ List.prefix_rfl)

theorem Appended.unanswered (h : Appended bs c c') (h' : Unanswered c' c'') : Unanswered c c'' :=
  h'.of_replies h.replies h.grows

theorem replies_of_pending (h : c.pending = []) : c.replies = some ([], c.packets) := by
  rw [pending, List.append_eq_nil_iff, List.map_eq_nil_iff] at h
  rw [replies, h.1, h.2]
  rfl

theorem Appended.served (h : Appended bs c c') : Served bs [] [] c c' :=
  { h.toOk with
    isCommCapable := h.isCommCapable
    grows := h.grows
    stream := h.stream
    pending := by simp [h.pending]
    replies := by simp [h.replies] }

theorem Served.trans (h : Served bs ns rs c c') (h' : Served bs' ns' rs' c' c'') :
    Served (bs ++ bs') (ns ++ ns') (rs ++ rs') c c'' :=
  { h'.toOk with
    isCommCapable := h'.isCommCapable.trans h.isCommCapable
    grows := h.grows.trans h'.grows
    stream := by rw [h'.stream, h.stream, List.append_assoc]
    pending := by
      rw [List.map_append, List.append_assoc, h'.pending, ← List.append_assoc, h.pending,
        List.append_assoc]
    replies := by
      have h' := h'.replies
      rw [repliesTo_eq] at h'
      rw [repliesTo_append, h.replies]
      cases hr : c'.replies with
      | none => simp_all
      | some r =>
        rw [hr, Option.bind_some] at h'
        cases hs : completions ns' r.2 <;> cases ht : c''.replies <;> simp_all }

end FLContext

open FLContext

variable {c : FLContext}

theorem wp_attempt {status : FLStatus} {Q : PUnit → FLContext → Prop}
    {E : FLStatus → FLContext → Prop} (h : c.refusals = []) :
    wp (attempt status) Q E c ↔ Q ⟨⟩ c := by
  have hhead : c.refusals.headD false = false := by rw [h, List.headD_nil]
  have hc : { c with refusals := c.refusals.tail } = c := by rw [h, List.tail_nil, ← h]
  simp only [attempt, wp_bind, wp_modifyGet, hc, hhead, Bool.false_eq_true, if_false, wp_pure]

theorem await_spec (hok : c.refusals = []) (hr : c.completionReport.isRead = false) :
    wp usbBulkAwaitCompletion
      (fun _ c' => Awaited c c' ∧ c'.queue.length + 1 = c.queue.length)
      (fun _ c' => Unanswered c c' ∨ c.queue = []) c := by
  have hheld : c.held = [] := by simp [held, hr]
  unfold usbBulkAwaitCompletion
  rw [wp_bind, wp_get]
  cases hq : c.queue with
  | nil => exact .inr rfl
  | cons request queue =>
    simp only
    rw [wp_bind, wp_modify, wp_bind]
    refine (wp_attempt ?_).mpr ?_
    · exact hok
    cases request with
    | write n =>
      refine ⟨⟨rfl, rfl, rfl, rfl, rfl, ?_, ?_⟩, rfl⟩
      · simp [pending, inFlight, held, hq, hr, Request.report, List.filterMap_cons, Request.asRead]
      · simp [replies, inFlight, held, hq, hr, Request.report, List.filterMap_cons, Request.asRead]
    | read r =>
      have hrep : c.replies = completions (r :: queue.filterMap Request.asRead) c.packets := by
        simp [replies, inFlight, hheld, hq, Request.asRead]
      cases hb : bulkRead r.count c.packets with
      | none =>
        simp only [hb, wp_throw]
        refine .inl (unanswered_of_none ?_ List.prefix_rfl)
        rw [hrep, completions, hb]
        rfl
      | some d =>
        simp only [hb, wp_modify]
        have hread : (r.report d.1).isRead = true := rfl
        refine ⟨⟨rfl, rfl, rfl, rfl, rfl, ?_, ?_⟩, rfl⟩
        · simp [pending, inFlight, held, hq, hr, hread, Request.asRead]
        · rw [hrep, completions, hb]
          simp [replies, inFlight, held, hread]

theorem awaitWhile_spec (hok : c.refusals = []) (limit n : Nat) :
    wp (awaitWhile limit n)
      (fun _ c' => Awaited c c' ∧ (c.queue.length ≤ n →
        c'.queue.length ≤ limit ∨ c'.completionReport.isRead = true))
      (fun _ c' => Unanswered c c') c := by
  induction n generalizing c with
  | zero => exact ⟨.refl, fun h => .inl (by omega)⟩
  | succ n ih =>
    rw [awaitWhile, wp_bind, wp_get, wp_ite]
    split
    · next h =>
      rw [wp_bind]
      refine wp_mono (fun _ c' hc' => ?_) (fun _ _ he => ?_) (await_spec hok h.2)
      · refine wp_mono (fun _ c'' hc'' => ⟨hc'.1.trans hc''.1, fun hn => hc''.2 (by omega)⟩)
          (fun _ _ he => hc'.1.unanswered he) (ih (hc'.1.refusals.trans hok))
      · exact he.resolve_right fun h0 => by simp [h0] at h
    · next h =>
      refine ⟨.refl, fun _ => ?_⟩
      by_cases hl : c.queue.length ≤ limit
      · exact .inl hl
      · right
        by_contra hr
        exact h ⟨by omega, by simpa using hr⟩

theorem reduceQueue_spec (hok : c.refusals = []) (limit : Nat) :
    wp (reduceQueue limit)
      (fun _ c' => Awaited c c' ∧
        (c'.queue.length ≤ limit ∨ c'.completionReport.isRead = true))
      (fun _ c' => Unanswered c c') c := by
  rw [reduceQueue, wp_bind, wp_get]
  exact wp_mono (fun _ _ h => ⟨h.1, h.2 le_rfl⟩) (fun _ _ h => h) (awaitWhile_spec hok limit _)

theorem FLContext.Appended.congr (h : Appended bs c c') (writeBuf : Option (List (BitVec 8)))
    (hb : writeBuf.getD [] = c'.buffered) (ops : List WorkOp) :
    Appended bs c { c' with writeBuf, ops } where
  refusals := h.refusals
  chunkSize := h.chunkSize
  room := by
    change (writeBuf.getD []).length < c'.chunkSize
    rw [hb]
    exact h.room
  submitted := h.submitted
  isCommCapable := h.isCommCapable
  grows := h.grows
  stream := by
    change c'.submitted.flatten ++ writeBuf.getD [] = _
    rw [hb]
    exact h.stream
  pending := h.pending
  replies := h.replies

def FLContext.sent (c : FLContext) : FLContext :=
  { c with
    writeBuf := none, queue := c.queue ++ [.write c.buffered.length]
    submitted := c.submitted ++ [c.buffered], ops := c.ops ++ [.submit] }

theorem usbBulkWriteAsyncSubmit_spec (hok : c.refusals = []) (hle : c.buffered.length ≤ 0x10000) :
    wp usbBulkWriteAsyncSubmit (fun _ c' => c' = c.sent) (fun _ _ => False) c := by
  rw [usbBulkWriteAsyncSubmit, wp_bind, wp_get, if_neg (Nat.not_lt.mpr hle), wp_bind,
    wp_attempt hok]
  exact rfl

theorem sent_inFlight (c : FLContext) : c.sent.inFlight = c.inFlight := by
  rw [inFlight, sent, List.filterMap_append]
  exact List.append_nil _

theorem sent_appended (hc : c.Ok) {data : List (BitVec 8)} (hne : c.buffered ++ data ≠ [])
    (hle : c.buffered.length + data.length ≤ 0x10000) {writeBuf : Option (List (BitVec 8))}
    (hw : writeBuf.getD [] = c.buffered ++ data) (ops : List WorkOp) :
    Appended data c { c with writeBuf, ops }.sent where
  refusals := hc.refusals
  chunkSize := hc.chunkSize
  room := Nat.lt_of_le_of_lt (Nat.zero_le _) hc.room
  submitted d hd := by
    rcases List.mem_append.mp hd with hd | hd
    · exact hc.submitted d hd
    · have hd' : d = c.buffered ++ data := (List.mem_singleton.mp hd).trans hw
      rw [hd', List.length_append]
      exact ⟨hne, hle⟩
  isCommCapable := rfl
  grows := List.prefix_append _ _
  stream := by
    change (c.submitted ++ [writeBuf.getD []]).flatten ++ [] = _
    rw [hw, stream]
    simp
  pending := by
    rw [pending, sent_inFlight]
    rfl
  replies := by
    rw [replies, sent_inFlight]
    rfl

theorem submitWith_spec (hc : c.Ok) {data : List (BitVec 8)} (hd : data ≠ [])
    (hle : c.buffered.length + data.length ≤ c.chunkSize) :
    wp (submitWith data)
      (fun _ c' => Appended data c c' ∧ c'.buffered = [] ∧ c'.chunkSize = c.chunkSize)
      (fun _ c' => Unanswered c c') c := by
  rw [submitWith, wp_bind]
  refine wp_mono (fun _ c' h => ?_) (fun _ _ h => h) (reduceQueue_spec hc.refusals 2)
  obtain ⟨ha, -⟩ := h
  have hle' : c'.buffered.length + data.length ≤ 0x10000 := by
    have := hc.chunkSize
    rw [ha.buffered]
    omega
  rw [wp_bind, memcpy, wp_modify]
  refine wp_mono (fun _ c'' h => ?_) (fun _ _ he => he.elim)
    (usbBulkWriteAsyncSubmit_spec (ha.refusals.trans hc.refusals)
      (by rwa [FLContext.buffered, Option.getD_some, List.length_append]))
  have happ := (ha.appended hc).trans (sent_appended (ha.appended hc).toOk (by simp [hd]) hle'
    (Option.getD_some ..) (c'.ops ++ [.append data]))
  subst h
  exact ⟨happ, rfl, ha.chunkSize⟩

theorem fillChunks_spec (n : Nat) (hc : c.Ok) {data : List (BitVec 8)} (hn : data.length ≤ n) :
    wp (fillChunks n data)
      (fun rest c' => ∃ taken, data = taken ++ rest ∧ Appended taken c c' ∧
        c'.chunkSize = c.chunkSize ∧ rest.length ≤ c'.spaceAvailable)
      (fun _ c' => Unanswered c c') c := by
  induction n generalizing c data with
  | zero => exact ⟨[], rfl, .refl hc, rfl, by omega⟩
  | succ n ih =>
    rw [fillChunks, wp_bind, wp_get, wp_ite]
    have hroom := hc.room
    split
    · next h =>
      have hpos : 0 < c.spaceAvailable := by
        unfold spaceAvailable
        omega
      have htake : (data.take c.spaceAvailable).length = c.spaceAvailable := by
        rw [List.length_take]
        omega
      have hne : data.take c.spaceAvailable ≠ [] := List.ne_nil_of_length_pos (by omega)
      rw [wp_bind]
      refine wp_mono (fun _ c' h' => ?_) (fun _ _ he => he) (submitWith_spec hc hne ?_)
      · obtain ⟨ha, hb, hsize⟩ := h'
        rw [wp_bind, usbBulkWriteAsyncPrepare, wp_bind, wp_attempt ha.refusals, wp_modify]
        replace ha := ha.congr (some []) hb.symm (c'.ops ++ [.prepare])
        refine wp_mono (fun rest c'' h'' => ?_) (fun _ _ he => ha.unanswered he)
          (ih ha.toOk (by rw [List.length_drop]; omega))
        obtain ⟨taken, hdata, ha', hsize', hle⟩ := h''
        refine ⟨data.take c.spaceAvailable ++ taken, ?_, ha.trans ha', hsize'.trans hsize, hle⟩
        rw [List.append_assoc, ← hdata, List.take_append_drop]
      · rw [htake]
        unfold spaceAvailable
        omega
    · next h => exact ⟨[], rfl, .refl hc, rfl, by omega⟩

theorem ensureBuffer_spec (hc : c.Ok) :
    wp ensureBuffer
      (fun _ c' => Appended [] c c' ∧ c'.buffered = c.buffered ∧ c'.chunkSize = c.chunkSize)
      (fun _ _ => False) c := by
  rw [ensureBuffer, wp_bind, wp_get, wp_ite]
  split
  · next hnone =>
    rw [usbBulkWriteAsyncPrepare, wp_bind, wp_attempt hc.refusals, wp_modify]
    have hb : (some []).getD [] = c.buffered := by rw [FLContext.buffered, hnone]; rfl
    exact ⟨(Appended.refl hc).congr _ hb _, hb, rfl⟩
  · exact ⟨.refl hc, rfl, rfl⟩

theorem bufferAppend_spec (hc : c.Ok) (data : List (BitVec 8)) :
    wp (bufferAppend data) (fun _ c' => Appended data c c' ∧ c'.chunkSize = c.chunkSize)
      (fun _ c' => Unanswered c c') c := by
  rw [bufferAppend, wp_bind]
  refine wp_mono (fun _ c₁ h₁ => ?_) (fun _ _ he => he.elim) (ensureBuffer_spec hc)
  rw [wp_bind]
  refine wp_mono (fun rest c' h => ?_) (fun _ _ he => h₁.1.unanswered he)
    (fillChunks_spec _ h₁.1.toOk le_rfl)
  obtain ⟨taken, hdata, htaken, hsize, hle⟩ := h
  have ha : Appended taken c c' := h₁.1.trans htaken
  have hroom := ha.room
  unfold spaceAvailable at hle
  rw [wp_bind, wp_get, wp_ite, hdata]
  split
  · next heq =>
    unfold spaceAvailable at heq
    refine wp_mono (fun _ c'' h'' => ⟨ha.trans h''.1, ?_⟩) (fun _ _ he => ha.unanswered he)
      (submitWith_spec ha.toOk (List.ne_nil_of_length_pos (by omega)) (by omega))
    exact h''.2.2.trans (hsize.trans h₁.2.2)
  · next hne =>
    unfold spaceAvailable at hne
    have hlt : (c'.buffered ++ rest).length < c'.chunkSize := by
      rw [List.length_append]
      omega
    refine ⟨⟨⟨ha.refusals, ha.chunkSize, hlt, ha.submitted⟩, ha.isCommCapable, ha.grows, ?_, ha.pending,
      ha.replies⟩, hsize.trans h₁.2.2⟩
    change c'.submitted.flatten ++ (c'.buffered ++ rest) = c.stream ++ (taken ++ rest)
    rw [← List.append_assoc, ← List.append_assoc]
    exact congrArg (· ++ rest) ha.stream

theorem flFlushAsyncWrites_spec (hc : c.Ok) :
    wp flFlushAsyncWrites (fun _ c' => Appended [] c c' ∧ c'.buffered = [])
      (fun _ _ => c.isCommCapable = false) c := by
  rw [flFlushAsyncWrites, wp_bind, wp_get, wp_ite]
  split
  · next hne =>
    dsimp only
    rw [wp_ite]
    split
    · next hcap => exact hcap
    · have hle : c.buffered.length ≤ 0x10000 := by
        have := hc.room
        have := hc.chunkSize
        omega
      have happ : Appended [] c c.sent :=
        sent_appended hc (by simpa using hne) (by simpa using hle) (List.append_nil _).symm c.ops
      refine wp_mono (fun _ c' h => ?_) (fun _ _ he => he.elim)
        (usbBulkWriteAsyncSubmit_spec hc.refusals hle)
      subst h
      exact ⟨happ, rfl⟩
  · next he => exact ⟨.refl hc, not_not.mp he⟩

theorem flAwaitAsyncWrites_spec (hc : c.Ok) :
    wp flAwaitAsyncWrites
      (fun _ c' => Appended [] c c' ∧ c'.buffered = [] ∧ c'.queue = [])
      (fun _ c' => c.isCommCapable = false ∨ Unanswered c c' ∨ c.pending ≠ []) c := by
  rw [flAwaitAsyncWrites, wp_bind]
  refine wp_mono (fun _ c' h => ?_) (fun _ _ he => .inl he) (flFlushAsyncWrites_spec hc)
  rw [wp_bind]
  refine wp_mono (fun _ c'' h' => ?_) (fun _ _ he => .inr (.inl (h.1.unanswered he)))
    (reduceQueue_spec h.1.refusals 0)
  rw [wp_bind, wp_get, wp_ite]
  split
  · next hne =>
    have hread : c''.completionReport.isRead = true :=
      h'.2.resolve_left fun hl => hne (List.length_eq_zero_iff.mp (Nat.le_zero.mp hl))
    right; right
    rw [← h.1.pending, ← h'.1.pending, pending, held, if_pos hread]
    simp
  · next he =>
    have happ := h.1.trans (h'.1.appended h.1.toOk)
    exact ⟨happ, h'.1.buffered.trans h.2, not_not.mp he⟩

theorem flWriteWord_eq (count : Nat) : flWriteWord (.ofNat 16 count) = encodeLength count := by
  have hlow (x : BitVec 16) : (x &&& 0xFF).setWidth 8 = x.setWidth 8 := by
    apply BitVec.eq_of_toNat_eq
    rw [BitVec.toNat_setWidth, BitVec.toNat_and, BitVec.toNat_setWidth]
    exact (congrArg (· % 2 ^ 8) (Nat.and_two_pow_sub_one_eq_mod x.toNat 8)).trans (Nat.mod_mod _ _)
  have hhigh : (BitVec.ofNat 16 count >>> 8).setWidth 8 = .ofNat 8 (count / 256) := by
    apply BitVec.eq_of_toNat_eq
    simp only [BitVec.toNat_setWidth, BitVec.toNat_ushiftRight, BitVec.toNat_ofNat,
      Nat.shiftRight_eq_div_pow]
    omega
  have hrest : (BitVec.ofNat 16 count).setWidth 8 = .ofNat 8 count := by
    apply BitVec.eq_of_toNat_eq
    simp only [BitVec.toNat_setWidth, BitVec.toNat_ofNat]
    omega
  rw [flWriteWord, hlow, hlow, hhigh, hrest, encodeLength]

theorem and_eq_setWidth (chan : BitVec 8) : chan &&& 0x7F = (chan.setWidth 7).setWidth 8 := by
  apply BitVec.eq_of_toNat_eq
  rw [BitVec.toNat_and, BitVec.toNat_setWidth, BitVec.toNat_setWidth]
  refine (Nat.and_two_pow_sub_one_eq_mod chan.toNat 7).trans ?_
  omega

theorem or_eq_setWidth (chan : BitVec 8) : chan ||| 0x80 = (chan.setWidth 7).setWidth 8 ||| 0x80 := by
  rw [← and_eq_setWidth]
  revert chan
  decide

theorem writeBlocks_spec (hc : c.Ok) (chan : BitVec 8) (data : List (BitVec 8)) :
    wp (writeBlocks chan data)
      (fun _ c' => Appended ((writeCommands (chan.setWidth 7) data).flatMap Command.encode) c c')
      (fun _ c' => Unanswered c c') c := by
  simp only [encode_writeCommands, ← and_eq_setWidth]
  induction hn : data.length using Nat.strongRecOn generalizing c data with
  | ind n ih =>
    rw [writeBlocks, wp_ite]
    split
    · next hle =>
      have hlen : (data.take maxLength).length = maxLength := List.length_take_of_le hle
      have hcut := cut_append maxLength_pos hlen (data.drop maxLength)
      rw [List.take_append_drop] at hcut
      rw [wp_bind]
      refine wp_mono (fun _ c1 h1 => ?_) (fun _ _ he => he) (bufferAppend_spec hc _)
      rw [wp_bind]
      refine wp_mono (fun _ c2 h2 => ?_) (fun _ _ he => h1.1.unanswered he)
        (bufferAppend_spec h1.1.toOk _)
      have h12 := h1.1.trans h2.1
      refine wp_mono (fun _ c3 h3 => ?_) (fun _ _ he => h12.unanswered he)
        (ih _ (by rw [List.length_drop]; omega) h12.toOk _ rfl)
      have h13 := h12.trans h3
      rw [hcut, List.flatMap_cons, hlen]
      exact h13
    · next hlt =>
      rw [wp_ite]
      split
      · next hne =>
        rw [wp_bind]
        refine wp_mono (fun _ c1 h1 => ?_) (fun _ _ he => he) (bufferAppend_spec hc _)
        refine wp_mono (fun _ c2 h2 => ?_) (fun _ _ he => h1.1.unanswered he)
          (bufferAppend_spec h1.1.toOk _)
        have h12 := h1.1.trans h2.1
        rw [cut_of_length_le hne (by unfold maxLength; omega), List.flatMap_singleton,
          ← flWriteWord_eq]
        exact h12
      · next he =>
        rw [not_not.mp he, cut_nil]
        exact .refl hc

def FLContext.asked (r : Read) (c : FLContext) : FLContext :=
  { c with queue := c.queue ++ [.read r], ops := c.ops ++ [.read r.count] }

theorem asked_served (hc : c.Ok) (r : Read) : Served [] [r] [] c (c.asked r) where
  refusals := hc.refusals
  chunkSize := hc.chunkSize
  room := hc.room
  submitted := hc.submitted
  isCommCapable := rfl
  grows := List.prefix_rfl
  stream := (List.append_nil _).symm
  pending := by
    simp only [pending, held, inFlight, asked, List.filterMap_append, List.append_assoc]
    rfl
  replies := by
    simp only [repliesTo, replies, held, inFlight, asked, List.filterMap_append]
    exact Option.map_id'.symm

theorem flReadChannelAsyncSubmit_spec (hc : c.Ok) (hcap : c.isCommCapable = true)
    (chan : BitVec 8) {count : Nat} (hpos : 0 < count) (hle : count ≤ 0x10000)
    (buffer : ReadBuffer) :
    wp (flReadChannelAsyncSubmit chan count buffer)
      (fun _ c' => c'.buffered = [] ∧
        Served (((chan.setWidth 7).setWidth 8 ||| 0x80) :: encodeLength count) [⟨count, buffer⟩] []
          c c')
      (fun _ c' => Unanswered c c') c := by
  have hcount : (if count = 0x10000 then 0 else BitVec.ofNat 16 count) = .ofNat 16 count := by
    split
    · next h => rw [h]; rfl
    · rfl
  rw [flReadChannelAsyncSubmit, hcount]
  simp only [wp_bind, wp_get, hcap, if_neg hpos.ne', if_neg (Nat.not_lt.mpr hle),
    Bool.true_eq_false, if_false]
  refine wp_mono (fun _ c1 h1 => ?_) (fun _ _ he => he) (bufferAppend_spec hc _)
  rw [wp_bind]
  refine wp_mono (fun _ c2 h2 => ?_) (fun _ _ he => ?_) (flFlushAsyncWrites_spec h1.1.toOk)
  · have h12 := h1.1.trans h2.1
    rw [wp_bind]
    refine wp_mono (fun _ c3 h3 => ?_) (fun _ _ he => h12.unanswered he)
      (reduceQueue_spec h12.refusals 2)
    have h13 := (h12.trans (h3.1.appended h12.toOk)).served
    have hserved := h13.trans (asked_served h13.toOk ⟨count, buffer⟩)
    rw [flWriteWord_eq, or_eq_setWidth] at hserved
    simp only [List.append_nil, List.nil_append] at hserved
    rw [usbBulkReadAsync, if_neg (Nat.not_lt.mpr hle), wp_bind, wp_attempt h13.refusals]
    exact ⟨h3.1.buffered.trans h2.2, hserved⟩
  · rw [h1.1.isCommCapable, hcap] at he
    exact Bool.noConfusion he

theorem awaitRead_spec (hok : c.refusals = []) (n : Nat) :
    wp (awaitRead n)
      (fun _ c' => Awaited c c' ∧ (c.queue.length < n → c'.completionReport.isRead = true))
      (fun _ c' => Unanswered c c' ∨ c.pending = []) c := by
  induction n generalizing c with
  | zero => exact ⟨.refl, fun h => by omega⟩
  | succ n ih =>
    rw [awaitRead, wp_bind, wp_get, wp_ite]
    split
    · next hr =>
      rw [wp_bind]
      refine wp_mono (fun _ c' hc' => ?_) (fun _ _ he => he.imp_right fun hq => ?_)
        (await_spec hok hr)
      · refine wp_mono (fun _ c'' hc'' => ⟨hc'.1.trans hc''.1, fun hn => hc''.2 (by omega)⟩)
          (fun _ _ he => ?_) (ih (hc'.1.refusals.trans hok))
        exact he.imp hc'.1.unanswered hc'.1.pending.symm.trans
      · simp [pending, held, inFlight, hr, hq]
    · next hr => exact ⟨.refl, fun _ => by simpa using hr⟩

def FLContext.cleared (c : FLContext) : FLContext := { c with completionReport := {} }

theorem cleared_served (hc : c.Ok) (hr : c.completionReport.isRead = true) :
    Served [] [] [c.completionReport] c c.cleared where
  refusals := hc.refusals
  chunkSize := hc.chunkSize
  room := hc.room
  submitted := hc.submitted
  isCommCapable := rfl
  grows := List.prefix_rfl
  stream := (List.append_nil _).symm
  pending := by
    have hheld : c.held = [c.completionReport] := if_pos hr
    rw [pending, pending, hheld, List.append_nil]
    rfl
  replies := by
    have hheld : c.held = [c.completionReport] := if_pos hr
    rw [repliesTo_nil, replies, hheld, replies, Option.map_map]
    rfl

theorem flReadChannelAsyncAwait_spec (hc : c.Ok) :
    wp flReadChannelAsyncAwait (fun r c' => c'.buffered = c.buffered ∧ Served [] [] [r] c c')
      (fun _ c' => Unanswered c c' ∨ c.pending = []) c := by
  rw [flReadChannelAsyncAwait, wp_bind, wp_get, wp_bind]
  refine wp_mono (fun _ c' h => ?_) (fun _ _ he => he) (awaitRead_spec hc.refusals _)
  have happ := h.1.appended hc
  have hserved := happ.served.trans (cleared_served happ.toOk (h.2 (Nat.lt_succ_self _)))
  exact ⟨h.1.buffered, hserved⟩

theorem flWriteChannelAsync_spec (hc : c.Ok) (hcap : c.isCommCapable = true) (chan : BitVec 8)
    {data : List (BitVec 8)} (hd : data ≠ []) :
    wp (flWriteChannelAsync chan data)
      (fun _ c' => Appended ((writeCommands (chan.setWidth 7) data).flatMap Command.encode) c c')
      (fun _ c' => Unanswered c c') c := by
  rw [flWriteChannelAsync]
  simp only [wp_bind, wp_get, hcap, if_neg hd, Bool.true_eq_false, if_false]
  exact writeBlocks_spec hc chan data

theorem flWriteChannel_spec (hc : c.Ok) (hcap : c.isCommCapable = true) (chan : BitVec 8)
    {data : List (BitVec 8)} (hd : data ≠ []) :
    wp (flWriteChannel chan data)
      (fun _ c' => c'.buffered = [] ∧
        Appended ((writeCommands (chan.setWidth 7) data).flatMap Command.encode) c c')
      (fun _ c' => Unanswered c c' ∨ c.pending ≠ []) c := by
  rw [flWriteChannel, wp_bind]
  refine wp_mono (fun _ c' h => ?_) (fun _ _ he => .inl he)
    (flWriteChannelAsync_spec hc hcap chan hd)
  refine wp_mono (fun _ c'' h' => ⟨h'.2.1, by simpa using h.trans h'.1⟩) (fun _ _ he => ?_)
    (flAwaitAsyncWrites_spec h.toOk)
  rw [h.isCommCapable, h.pending, hcap] at he
  exact (he.resolve_left Bool.noConfusion).imp_left h.unanswered

end AtmController.Link
