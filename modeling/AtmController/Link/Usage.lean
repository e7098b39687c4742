import AtmController.Link.Buffers
import AtmController.Link.Session

namespace AtmController.Link

open Clocked Effect FLContext

def Flight.length : Flight → Nat
  | write data => data.length
  | read count => count

def Request.length : Request → Nat
  | write n => n
  | read r => r.count

def FLContext.work (c : FLContext) : Work := run Work.step {} c.ops

/-- The library obeyed the rules, and knows what the buffers hold. -/
structure Kept (c : FLContext) : Prop where
  legal : Runs Work.step Work.Legal {} c.ops
  writeBuf : c.work.writeBuf = c.writeBuf
  queue : c.work.flights.map Flight.length = c.queue.map Request.length
  submitted : c.work.submitted = c.submitted
  refusals : c.refusals = []

variable {c c' : FLContext} {w : Work} {op : WorkOp}

theorem submitted_step (hl : w.Legal op) :
    (w.step op).submitted = w.submitted ++ if op = .submit then w.writeBuf.toList else [] := by
  cases op with
  | submit => cases h : w.writeBuf <;> simp [Work.step, Work.submitted, Flight.written, h]
  | await =>
    obtain ⟨f, fs, hf⟩ := List.exists_cons_of_ne_nil hl
    simp [Work.step, Work.submitted, hf]
  | read count => simp [Work.step, Work.submitted, Flight.written]
  | _ => simp [Work.step, Work.submitted]

theorem Kept.step (h : Kept c) (op : WorkOp) (hl : c.work.Legal op)
    (hops : c'.ops = c.ops ++ [op])
    (hw : (c.work.step op).writeBuf = c'.writeBuf)
    (hq : (c.work.step op).flights.map Flight.length = c'.queue.map Request.length)
    (hs : c.submitted ++ (if op = .submit then c.writeBuf.toList else []) = c'.submitted)
    (hr : c'.refusals = c.refusals) : Kept c' := by
  have hwork : c'.work = c.work.step op := by rw [work, hops, run_concat, work]
  refine ⟨?_, hwork ▸ hw, hwork ▸ hq, ?_, hr.trans h.refusals⟩
  · rw [hops, runs_concat]
    exact ⟨h.legal, hl⟩
  · rw [hwork, submitted_step hl, h.submitted, h.writeBuf, hs]

theorem Kept.congr (h : Kept c) (hops : c'.ops = c.ops) (hw : c'.writeBuf = c.writeBuf)
    (hq : c'.queue = c.queue) (hs : c'.submitted = c.submitted) (hr : c'.refusals = c.refusals) :
    Kept c' := by
  have hwork : c'.work = c.work := by rw [work, hops, work]
  exact ⟨hops ▸ h.legal, by rw [hwork, h.writeBuf, hw], by rw [hwork, h.queue, hq],
    by rw [hwork, h.submitted, hs], hr.trans h.refusals⟩

/-- What a step of the library does here: the write buffer stays. -/
def KeptBuffer (c c' : FLContext) : Prop :=
  Kept c' ∧ c'.writeBuf = c.writeBuf ∧ c'.chunkSize = c.chunkSize

theorem prepare_kept (h : Kept c) (hw : c.writeBuf = none) (status : FLStatus) :
    wp (usbBulkWriteAsyncPrepare status)
      (fun _ c' => Kept c' ∧ c'.writeBuf = some [] ∧ c'.chunkSize = c.chunkSize)
      (fun _ _ => False) c := by
  rw [usbBulkWriteAsyncPrepare, wp_bind, wp_attempt h.refusals, wp_modify]
  exact ⟨h.step .prepare (h.writeBuf.trans hw) rfl rfl h.queue (List.append_nil _) rfl, rfl, rfl⟩

theorem memcpy_kept (h : Kept c) (hw : c.writeBuf ≠ none) {data : List (BitVec 8)}
    (hle : c.buffered.length + data.length ≤ 0x10000) :
    wp (memcpy data)
      (fun _ c' => Kept c' ∧ c'.writeBuf = some (c.buffered ++ data) ∧ c'.chunkSize = c.chunkSize)
      (fun _ _ => False) c := by
  obtain ⟨bs, hbs⟩ := Option.ne_none_iff_exists'.mp hw
  have hb : c.buffered = bs := by rw [FLContext.buffered, hbs, Option.getD_some]
  have hwork := h.writeBuf.trans hbs
  rw [memcpy, wp_modify]
  refine ⟨h.step (.append data) ⟨bs, hwork, hb ▸ hle⟩ rfl ?_ h.queue (List.append_nil _) rfl,
    rfl, rfl⟩
  rw [Work.step, hwork, Option.map_some, hb]

theorem submit_kept (h : Kept c) (hw : c.writeBuf ≠ none) :
    wp usbBulkWriteAsyncSubmit
      (fun _ c' => Kept c' ∧ c'.writeBuf = none ∧ c'.chunkSize = c.chunkSize)
      (fun _ c' => Kept c') c := by
  obtain ⟨bs, hbs⟩ := Option.ne_none_iff_exists'.mp hw
  have hb : c.buffered = bs := by rw [FLContext.buffered, hbs, Option.getD_some]
  have hwork := h.writeBuf.trans hbs
  rw [usbBulkWriteAsyncSubmit, wp_bind, wp_get, wp_ite]
  split
  · exact h
  · rw [wp_bind, wp_attempt h.refusals, wp_modify]
    refine ⟨h.step .submit (h.writeBuf.trans_ne hw) rfl rfl ?_ ?_ rfl, rfl, rfl⟩
    · change (c.work.flights ++ c.work.writeBuf.toList.map Flight.write).map Flight.length =
        (c.queue ++ [Request.write c.buffered.length]).map Request.length
      rw [hwork, List.map_append, List.map_append, h.queue, hb]
      rfl
    · change c.submitted ++ c.writeBuf.toList = c.submitted ++ [c.buffered]
      rw [hbs, hb]
      rfl

theorem read_kept (h : Kept c) (hw : c.writeBuf = none) (count : Nat) (buffer : ReadBuffer) :
    wp (usbBulkReadAsync count buffer) (fun _ c' => Kept c') (fun _ c' => Kept c') c := by
  rw [usbBulkReadAsync, wp_ite]
  split
  · exact h
  · next hle =>
    rw [wp_bind, wp_attempt h.refusals, wp_modify]
    refine h.step (.read count) ⟨h.writeBuf.trans hw, Nat.not_lt.mp hle⟩ rfl h.writeBuf ?_
      (List.append_nil _) rfl
    change (c.work.flights ++ [Flight.read count]).map Flight.length =
      (c.queue ++ [Request.read ⟨count, buffer⟩]).map Request.length
    rw [List.map_append, List.map_append, h.queue]
    rfl

theorem await_kept (h : Kept c) :
    wp usbBulkAwaitCompletion (fun _ c' => KeptBuffer c c') (fun _ c' => Kept c') c := by
  rw [usbBulkAwaitCompletion, wp_bind, wp_get]
  cases hq : c.queue with
  | nil => exact h
  | cons request queue =>
    have hqueue := h.queue
    rw [hq, List.map_cons] at hqueue
    have hkept (completionReport : CompletionReport) (packets : List (List (BitVec 8))) :
        KeptBuffer c { c with queue, completionReport, packets, ops := c.ops ++ [.await] } := by
      refine ⟨h.step .await (fun hn => ?_) rfl h.writeBuf ?_ (List.append_nil _) rfl, rfl, rfl⟩
      · rw [hn] at hqueue
        cases hqueue
      · change c.work.flights.tail.map Flight.length = _
        rw [List.map_tail, hqueue, List.tail_cons]
    simp only
    rw [wp_bind, wp_modify, wp_bind]
    refine (wp_attempt ?_).mpr ?_
    · exact h.refusals
    cases request with
    | write n => exact hkept _ _
    | read r =>
      cases hb : bulkRead r.count c.packets with
      | none =>
        simp only [hb, wp_throw]
        exact (hkept _ _).1
      | some d =>
        simp only [hb, wp_modify]
        exact hkept _ _

theorem KeptBuffer.trans {c'' : FLContext} (h : KeptBuffer c c') (h' : KeptBuffer c' c'') :
    KeptBuffer c c'' :=
  ⟨h'.1, h'.2.1.trans h.2.1, h'.2.2.trans h.2.2⟩

theorem awaitWhile_kept (h : Kept c) (limit n : Nat) :
    wp (awaitWhile limit n) (fun _ c' => KeptBuffer c c') (fun _ c' => Kept c') c := by
  induction n generalizing c with
  | zero => exact ⟨h, rfl, rfl⟩
  | succ n ih =>
    rw [awaitWhile, wp_bind, wp_get, wp_ite]
    split
    · rw [wp_bind]
      refine wp_mono (fun _ c' h' => ?_) (fun _ _ he => he) (await_kept h)
      exact wp_mono (fun _ _ h'' => h'.trans h'') (fun _ _ he => he) (ih h'.1)
    · exact ⟨h, rfl, rfl⟩

theorem reduceQueue_kept (h : Kept c) (limit : Nat) :
    wp (reduceQueue limit) (fun _ c' => KeptBuffer c c') (fun _ c' => Kept c') c := by
  rw [reduceQueue, wp_bind, wp_get]
  exact awaitWhile_kept h limit _

theorem awaitRead_kept (h : Kept c) (n : Nat) :
    wp (awaitRead n) (fun _ c' => KeptBuffer c c') (fun _ c' => Kept c') c := by
  induction n generalizing c with
  | zero => exact ⟨h, rfl, rfl⟩
  | succ n ih =>
    rw [awaitRead, wp_bind, wp_get, wp_ite]
    split
    · rw [wp_bind]
      refine wp_mono (fun _ c' h' => ?_) (fun _ _ he => he) (await_kept h)
      exact wp_mono (fun _ _ h'' => h'.trans h'') (fun _ _ he => he) (ih h'.1)
    · exact ⟨h, rfl, rfl⟩

theorem submitWith_kept (h : Kept c) (hw : c.writeBuf ≠ none) {data : List (BitVec 8)}
    (hle : c.buffered.length + data.length ≤ 0x10000) :
    wp (submitWith data)
      (fun _ c' => Kept c' ∧ c'.writeBuf = none ∧ c'.chunkSize = c.chunkSize)
      (fun _ c' => Kept c') c := by
  rw [submitWith, wp_bind]
  refine wp_mono (fun _ c₁ h₁ => ?_) (fun _ _ he => he) (reduceQueue_kept h 2)
  have hb : c₁.buffered = c.buffered := by rw [FLContext.buffered, h₁.2.1, FLContext.buffered]
  rw [wp_bind]
  refine wp_mono (fun _ c₂ h₂ => ?_) (fun _ _ he => he.elim)
    (memcpy_kept h₁.1 (h₁.2.1 ▸ hw) (hb ▸ hle))
  refine wp_mono (fun _ c₃ h₃ => ?_) (fun _ _ he => he)
    (submit_kept h₂.1 (h₂.2.1 ▸ Option.some_ne_none _))
  exact ⟨h₃.1, h₃.2.1, h₃.2.2.trans (h₂.2.2.trans h₁.2.2)⟩

theorem fillChunks_kept (n : Nat) (h : Kept c) (hw : c.writeBuf ≠ none)
    (hsize : c.chunkSize ≤ 0x10000) (hroom : c.buffered.length ≤ c.chunkSize)
    (data : List (BitVec 8)) :
    wp (fillChunks n data)
      (fun rest c' => Kept c' ∧ c'.writeBuf ≠ none ∧ (data ≠ [] → rest ≠ []))
      (fun _ c' => Kept c') c := by
  induction n generalizing c data with
  | zero => exact ⟨h, hw, id⟩
  | succ n ih =>
    rw [fillChunks, wp_bind, wp_get, wp_ite]
    split
    · next hlt =>
      have hfit : c.buffered.length + (data.take c.spaceAvailable).length ≤ 0x10000 := by
        rw [List.length_take, spaceAvailable]
        omega
      rw [wp_bind]
      refine wp_mono (fun _ c₁ h₁ => ?_) (fun _ _ he => he) (submitWith_kept h hw hfit)
      rw [wp_bind]
      refine wp_mono (fun _ c₂ h₂ => ?_) (fun _ _ he => he.elim) (prepare_kept h₁.1 h₁.2.1 .usbErr)
      have hchunk : c₂.chunkSize = c.chunkSize := h₂.2.2.trans h₁.2.2
      have hempty : c₂.buffered = [] := by rw [FLContext.buffered, h₂.2.1, Option.getD_some]
      have hrest : data.drop c.spaceAvailable ≠ [] :=
        List.ne_nil_of_length_pos (by rw [List.length_drop]; omega)
      refine wp_mono (fun rest c' h' => ?_) (fun _ _ he => he)
        (ih h₂.1 (h₂.2.1 ▸ Option.some_ne_none _) (hchunk ▸ hsize) (by simp [hempty]) _)
      exact ⟨h'.1, h'.2.1, fun _ => h'.2.2 hrest⟩
    · exact ⟨h, hw, id⟩

def KeptOk (c : FLContext) : Prop := Kept c ∧ c.Ok

abbrev PreservesKept {α : Type} (f : FL α) : Prop := Preserves KeptOk Kept f

theorem throw_kept {α : Type} (e : FLStatus) : PreservesKept (throw e : FL α) :=
  .throw (fun _ h => h.1) e

theorem guard_kept {α : Type} {p : Prop} [Decidable p] {g : PUnit → FL α} (e : FLStatus)
    (hg : PreservesKept (g ⟨⟩)) : PreservesKept (if p then throw e >>= g else g ⟨⟩) :=
  .ite (fun _ => .bind (throw_kept e) fun _ => hg) fun _ => hg

theorem ensureBuffer_kept (h : Kept c) :
    wp ensureBuffer (fun _ c' => Kept c' ∧ c'.writeBuf ≠ none) (fun _ _ => False) c := by
  rw [ensureBuffer, wp_bind, wp_get, wp_ite]
  split
  · next hw =>
    refine wp_mono (fun _ c' h' => ⟨h'.1, ?_⟩) (fun _ _ he => he) (prepare_kept h hw .allocErr)
    rw [h'.2.1]
    exact Option.some_ne_none _
  · next hw => exact ⟨h, hw⟩

theorem bufferAppend_kept (h : Kept c) (hc : c.Ok) {data : List (BitVec 8)} (hne : data ≠ []) :
    wp (bufferAppend data)
      (fun _ c' => Kept c' ∧ (c'.writeBuf = none ∨ c'.buffered ≠ [])) (fun _ c' => Kept c') c := by
  rw [bufferAppend, wp_bind]
  refine wp_mono (fun _ c₁ h₁ => ?_) (fun _ _ he => he.1.elim)
    (wp_and (ensureBuffer_kept h) (ensureBuffer_spec hc))
  obtain ⟨⟨hk, hw⟩, ⟨happ, -, -⟩⟩ := h₁
  rw [wp_bind]
  refine wp_mono (fun rest c₂ h₂ => ?_) (fun _ _ he => he.1)
    (wp_and (fillChunks_kept data.length hk hw happ.chunkSize happ.room.le data)
      (fillChunks_spec data.length happ.toOk le_rfl))
  obtain ⟨⟨hk₂, hw₂, hrest⟩, taken, -, htaken, -, hle⟩ := h₂
  have hfit : c₂.buffered.length + rest.length ≤ 0x10000 := by
    have := htaken.room
    have := htaken.chunkSize
    unfold spaceAvailable at hle
    omega
  rw [wp_bind, wp_get, wp_ite]
  split
  · exact wp_mono (fun _ _ h' => ⟨h'.1, .inl h'.2.1⟩) (fun _ _ he => he)
      (submitWith_kept hk₂ hw₂ hfit)
  · refine wp_mono (fun _ _ h' => ⟨h'.1, .inr ?_⟩) (fun _ _ he => he.elim)
      (memcpy_kept hk₂ hw₂ hfit)
    rw [FLContext.buffered, h'.2.1, Option.getD_some]
    exact List.append_ne_nil_of_right_ne_nil _ (hrest hne)

theorem bufferAppend_preserves {data : List (BitVec 8)} (hne : data ≠ []) :
    PreservesKept (bufferAppend data) := fun _ h =>
  wp_mono (fun _ _ h' => ⟨h'.1.1, h'.2.1.toOk⟩) (fun _ _ he => he.1)
    (wp_and (bufferAppend_kept h.1 h.2 hne) (bufferAppend_spec h.2 data))

theorem flFlushAsyncWrites_kept (h : Kept c) (hc : c.Ok) :
    wp flFlushAsyncWrites
      (fun _ c' => KeptOk c' ∧ (c.writeBuf = none ∨ c.buffered ≠ [] → c'.writeBuf = none))
      (fun _ c' => Kept c') c := by
  have hkept : wp flFlushAsyncWrites
      (fun _ c' => Kept c' ∧ (c.writeBuf = none ∨ c.buffered ≠ [] → c'.writeBuf = none))
      (fun _ c' => Kept c') c := by
    rw [flFlushAsyncWrites, wp_bind, wp_get, wp_ite]
    split
    · next hne =>
      have hw : c.writeBuf ≠ none := fun hn => hne (by rw [FLContext.buffered, hn]; rfl)
      dsimp only
      rw [wp_ite]
      split
      · exact h
      · exact wp_mono (fun _ _ h' => ⟨h'.1, fun _ => h'.2.1⟩) (fun _ _ he => he) (submit_kept h hw)
    · next hne => exact ⟨h, fun hor => hor.resolve_right hne⟩
  exact wp_mono (fun _ _ h' => ⟨⟨h'.1.1, h'.2.1.toOk⟩, h'.1.2⟩) (fun _ _ he => he.1)
    (wp_and hkept (flFlushAsyncWrites_spec hc))

theorem flFlushAsyncWrites_preserves : PreservesKept flFlushAsyncWrites := fun _ h =>
  wp_mono (fun _ _ h' => h'.1) (fun _ _ he => he) (flFlushAsyncWrites_kept h.1 h.2)

theorem reduceQueue_preserves (limit : Nat) : PreservesKept (reduceQueue limit) := fun _ h =>
  wp_mono (fun _ _ h' => ⟨h'.1.1, (h'.2.1.appended h.2).toOk⟩) (fun _ _ he => he.1)
    (wp_and (reduceQueue_kept h.1 limit) (reduceQueue_spec h.2.refusals limit))

theorem writeBlocks_preserves (chan : BitVec 8) (data : List (BitVec 8)) :
    PreservesKept (writeBlocks chan data) := by
  induction hn : data.length using Nat.strongRecOn generalizing data with
  | ind n ih =>
    rw [writeBlocks]
    refine .ite (fun hle => ?_) fun _ => .ite (fun hne => ?_) fun _ => .pure _
    · have htake : data.take 0x10000 ≠ [] :=
        List.ne_nil_of_length_pos (by rw [List.length_take_of_le hle]; omega)
      exact .bind (bufferAppend_preserves (List.cons_ne_nil _ _)) fun _ =>
        .bind (bufferAppend_preserves htake) fun _ =>
          ih _ (by rw [List.length_drop]; omega) _ rfl
    · exact .bind (bufferAppend_preserves (List.cons_ne_nil _ _)) fun _ =>
        bufferAppend_preserves hne

theorem flWriteChannelAsync_preserves (chan : BitVec 8) (data : List (BitVec 8)) :
    PreservesKept (flWriteChannelAsync chan data) :=
  .bind .get fun _ => guard_kept _ (guard_kept _ (writeBlocks_preserves chan data))

theorem flAwaitAsyncWrites_preserves : PreservesKept flAwaitAsyncWrites := by
  rw [flAwaitAsyncWrites]
  refine .bind flFlushAsyncWrites_preserves fun _ => .bind (reduceQueue_preserves 0) fun _ =>
    .bind .get fun _ => .ite (fun _ => throw_kept _) fun _ => .pure _

theorem flWriteChannel_preserves (chan : BitVec 8) (data : List (BitVec 8)) :
    PreservesKept (flWriteChannel chan data) :=
  .bind (flWriteChannelAsync_preserves chan data) fun _ => flAwaitAsyncWrites_preserves

theorem usbBulkReadAsync_kept (h : KeptOk c) (hw : c.writeBuf = none) (count : Nat)
    (buffer : ReadBuffer) :
    wp (usbBulkReadAsync count buffer) (fun _ c' => KeptOk c') (fun _ c' => Kept c') c := by
  have hok : wp (usbBulkReadAsync count buffer) (fun _ c' => c'.Ok) (fun _ _ => True) c := by
    rw [usbBulkReadAsync, wp_ite]
    split
    · trivial
    · rw [wp_bind, wp_attempt h.2.refusals]
      exact (asked_served h.2 ⟨count, buffer⟩).toOk
  exact wp_mono (fun _ _ h' => h') (fun _ _ he => he.1)
    (wp_and (read_kept h.1 hw count buffer) hok)

theorem request_preserves {command : List (BitVec 8)} (hne : command ≠ []) (count : Nat)
    (buffer : ReadBuffer) : PreservesKept (do
      bufferAppend command
      flFlushAsyncWrites
      reduceQueue 2
      usbBulkReadAsync count buffer) := by
  intro c h
  rw [wp_bind]
  refine wp_mono (fun _ c₁ h₁ => ?_) (fun _ _ he => he.1)
    (wp_and (bufferAppend_kept h.1 h.2 hne) (bufferAppend_spec h.2 command))
  obtain ⟨⟨hk, hb⟩, happ, -⟩ := h₁
  rw [wp_bind]
  refine wp_mono (fun _ c₂ h₂ => ?_) (fun _ _ he => he) (flFlushAsyncWrites_kept hk happ.toOk)
  rw [wp_bind]
  refine wp_mono (fun _ c₃ h₃ => ?_) (fun _ _ he => he.1)
    (wp_and (reduceQueue_kept h₂.1.1 2) (reduceQueue_spec h₂.1.2.refusals 2))
  exact usbBulkReadAsync_kept ⟨h₃.1.1, (h₃.2.1.appended h₂.1.2).toOk⟩
    (h₃.1.2.1.trans (h₂.2 hb)) count buffer

theorem flReadChannelAsyncSubmit_preserves (chan : BitVec 8) (count : Nat) (buffer : ReadBuffer) :
    PreservesKept (flReadChannelAsyncSubmit chan count buffer) :=
  .bind .get fun _ => guard_kept _ (guard_kept _ (guard_kept _
    (request_preserves (List.cons_ne_nil _ _) count buffer)))

theorem flReadChannelAsyncAwait_preserves : PreservesKept flReadChannelAsyncAwait := by
  intro c h
  have hkept : wp flReadChannelAsyncAwait (fun _ c' => Kept c') (fun _ c' => Kept c') c := by
    rw [flReadChannelAsyncAwait, wp_bind, wp_get, wp_bind]
    refine wp_mono (fun _ c' h' => ?_) (fun _ _ he => he) (awaitRead_kept h.1 _)
    exact h'.1.congr rfl rfl rfl rfl rfl
  exact wp_mono (fun _ _ h' => ⟨h'.1, h'.2.2.toOk⟩) (fun _ _ he => he.1)
    (wp_and hkept (flReadChannelAsyncAwait_spec h.2))

theorem awaitWhole_preserves : PreservesKept awaitWhole := by
  rw [awaitWhole]
  exact .bind flReadChannelAsyncAwait_preserves fun _ =>
    .ite (fun _ => .bind (throw_kept _) fun _ => .pure _) fun _ => .pure _

theorem readBlocks_preserves (chan : BitVec 8) (count : Nat) :
    PreservesKept (readBlocks chan count) := by
  induction count using Nat.strongRecOn with
  | ind count ih =>
    rw [readBlocks]
    refine .ite (fun hle => ?_) fun _ => .ite (fun _ => ?_) fun _ => .pure _
    · exact .bind (flReadChannelAsyncSubmit_preserves chan _ _) fun _ =>
        .bind awaitWhole_preserves fun _ => .bind (ih _ (by omega)) fun _ => .pure _
    · exact .bind (flReadChannelAsyncSubmit_preserves chan _ _) fun _ => awaitWhole_preserves

theorem flReadChannel_preserves (chan : BitVec 8) (count : Nat) :
    PreservesKept (flReadChannel chan count) :=
  .bind .get fun _ => guard_kept _ (guard_kept _ (.ite
    (fun _ => .bind (flReadChannelAsyncSubmit_preserves chan _ _) fun _ =>
      .bind (readBlocks_preserves chan _) fun _ => .bind awaitWhole_preserves fun _ => .pure _)
    fun _ => .bind (flReadChannelAsyncSubmit_preserves chan _ _) fun _ => awaitWhole_preserves))

theorem call_preserves (call : Call) : PreservesKept call.run := by
  cases call with
  | writeAsync chan data => exact .bind (flWriteChannelAsync_preserves chan data) fun _ => .pure _
  | flush => exact .bind flFlushAsyncWrites_preserves fun _ => .pure _
  | awaitWrites => exact .bind flAwaitAsyncWrites_preserves fun _ => .pure _
  | write chan data => exact .bind (flWriteChannel_preserves chan data) fun _ => .pure _
  | readSubmit chan count buffer =>
    exact .bind (flReadChannelAsyncSubmit_preserves chan count buffer) fun _ => .pure _
  | readAwait => exact .bind flReadChannelAsyncAwait_preserves fun _ => .pure _
  | read chan count => exact flReadChannel_preserves chan count

theorem calls_preserve (calls : List Call) : PreservesKept (calls.mapM Call.run) := by
  induction calls with
  | nil => exact .pure _
  | cons call calls ih =>
    rw [List.mapM_cons]
    exact .bind (call_preserves call) fun _ => .bind ih fun _ => .pure _

theorem session_kept (chunkSize : BitVec 16) (calls : List Call) (ps : List (List (BitVec 8))) :
    wp (session chunkSize calls) (fun _ c => Kept c) (fun _ c => Kept c) { packets := ps } := by
  have hstart : Kept { packets := ps } := ⟨trivial, rfl, rfl, rfl, rfl⟩
  have hsize : wp (flSetAsyncWriteChunkSize chunkSize) (fun _ c => Kept c) (fun _ c => Kept c)
      { packets := ps } := hstart.congr rfl rfl rfl rfl rfl
  rw [session, wp_bind]
  refine wp_mono (fun _ c h => ?_) (fun _ _ he => he.2.elim)
    (wp_and hsize (flSetAsyncWriteChunkSize_spec chunkSize ps))
  refine wp_mono (fun _ _ h' => h'.1) (fun _ _ he => he) (Preserves.bind (calls_preserve calls)
    (fun _ => .bind flFlushAsyncWrites_preserves fun _ => .pure _) c ⟨h.1, h.2.1⟩)

theorem submitted_mono {done ops : List WorkOp} (hd : done <+: ops)
    (hl : Runs Work.step Work.Legal w ops) :
    (run Work.step w done).submitted <+: (run Work.step w ops).submitted := by
  obtain ⟨rest, rfl⟩ := hd
  rw [runs_append] at hl
  rw [run_append]
  exact hl.2.invariant (P := fun v => (run Work.step w done).submitted <+: v.submitted)
    (fun op v hop hv => hv.trans (submitted_step hop ▸ List.prefix_append _ _)) List.prefix_rfl

theorem step_receive (op : WorkOp) (w : Work) (h : (!op.isReceive) = false) : w.step op = w := by
  cases op with
  | receive i data => rfl
  | _ => cases h

/-- A session, with replies that come in at any time: after any number of operations, each transfer
that the library submitted and did not await has a buffer of its own, and what `libusb` finds in the
buffers is what the library submitted, in this order. So it is when an operation fails, for those
before it. -/
theorem session_buffers (chunkSize : BitVec 16) (calls : List Call) (ps : List (List (BitVec 8)))
    (c : FLContext)
    (hses : (∃ results, session chunkSize calls { packets := ps, refusals := [] } = .ok results c) ∨
      ∃ e, session chunkSize calls { packets := ps, refusals := [] } = .error e c)
    (ops : List WorkOp) (hops : (ops.filter fun op => !op.isReceive) <+: c.ops)
    (hrec : Runs Work.step (fun op w => (!op.isReceive) = false → w.Legal op) {} ops)
    (outcomes : List Bool) :
    (∀ m, HostMemory.serve ops { outcomes } = .ok ⟨⟩ m →
      InStep ops m ∧ m.transfers <+: c.submitted ∧
        ((ops.filter fun op => !op.isReceive) = c.ops →
          m.transfers = c.submitted ∧ m.queue.numItems = c.queue.length)) ∧
      ∀ e m, HostMemory.serve ops { outcomes } = .error e m →
        e.OfSystem ∧ m.transfers <+: c.submitted ∧ ∃ done, done <+: ops ∧ InStep done m := by
  have hkept : Kept c := by
    rcases hses with ⟨results, hs⟩ | ⟨e, hs⟩
    · exact wp_ok (session_kept chunkSize calls ps) hs
    · exact wp_error (session_kept chunkSize calls ps) hs
  have hfilter : Runs Work.step Work.Legal {} (ops.filter fun op => !op.isReceive) := by
    obtain ⟨rest, hrest⟩ := hops
    have hlegal := hkept.legal
    rw [← hrest, runs_append] at hlegal
    exact hlegal.1
  have hlegal : Runs Work.step Work.Legal {} ops := hfilter.of_filter step_receive hrec
  have hrun : run Work.step {} (ops.filter fun op => !op.isReceive) = run Work.step {} ops :=
    run_filter step_receive ops
  have hsub : (run Work.step {} ops).submitted <+: c.submitted := by
    rw [← hkept.submitted, ← hrun]
    exact submitted_mono hops hkept.legal
  constructor
  · intro m hm
    have h := (serve_ok hlegal hm).inStep
    refine ⟨h, h.transfers ▸ hsub, fun hall => ?_⟩
    rw [hall] at hrun
    have hwork : c.work = run Work.step {} ops := hrun
    constructor
    · rw [h.transfers, ← hwork, hkept.submitted]
    · have hqueue := congrArg List.length hkept.queue
      rw [List.length_map, List.length_map, hwork] at hqueue
      rw [h.numItems, hqueue]
  · intro e m hm
    obtain ⟨he, hm⟩ := serve_error hlegal hm
    have hdone : ∃ done, done <+: ops ∧ InStep done m := by
      rcases hm with h | ⟨done, hd, h⟩
      · exact ⟨[], List.nil_prefix, h⟩
      · exact ⟨done, hd, h.inStep⟩
    obtain ⟨done, hd, h⟩ := hdone
    exact ⟨he, h.transfers ▸ (submitted_mono hd hlegal).trans hsub, done, hd, h⟩

def readByte : FLContext where
  submitted := [[0x81, 0, 1]]
  ops := [.prepare, .append [0x81, 0, 1], .submit, .read 1, .await, .await]

def readByteOps : List WorkOp :=
  [.prepare, .append [0x81, 0, 1], .submit, .read 1, .receive 1 [7], .await, .await]

theorem session_buffers_readByte :
    ∃ m, HostMemory.serve readByteOps { outcomes := List.replicate 20 true } = .ok ⟨⟩ m ∧
      InStep readByteOps m ∧ m.transfers = [[0x81, 0, 1]] ∧ m.queue.numItems = 0 := by
  obtain ⟨⟨⟩, m, hm⟩ := exists_ok (f := HostMemory.serve readByteOps)
    (s := { outcomes := List.replicate 20 true }) (by decide +kernel)
  obtain ⟨hstep, -, hall⟩ := (session_buffers 0 [.read 1 1] [[7]] readByte (.inl ⟨[[7]], rfl⟩)
    readByteOps List.prefix_rfl
    ⟨nofun, nofun, nofun, nofun, fun _ => ⟨1, rfl, le_rfl⟩, nofun, nofun, trivial⟩ _).1 m hm
  exact ⟨m, hm, hstep, hall rfl⟩

end AtmController.Link
