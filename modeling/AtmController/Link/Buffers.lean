import AtmController.Link.WorkQueue

namespace AtmController.Link

open Clocked Effect UnboundedQueue

def TransferWrapper.flight (t : TransferWrapper) : Flight :=
  if t.isRead then .read t.length else .write (t.buffer.take t.length)

def HostMemory.transfers (m : HostMemory) : List (List (BitVec 8)) :=
  m.sent ++ m.queue.inQueue.flatMap fun a => (m.wrappers a).flight.written

/-- The transfers to the device that were submitted, whether they are over or not. -/
def Work.submitted (w : Work) : List (List (BitVec 8)) :=
  w.sent ++ w.flights.flatMap Flight.written

/-- Each transfer that was submitted and not awaited has a buffer of its own, and the bytes are those
that were submitted. -/
structure InStep (done : List WorkOp) (m : HostMemory) : Prop where
  nodup : m.queue.slots.Nodup
  numItems : m.queue.numItems = (Clocked.run Work.step {} done).flights.length
  transfers : m.transfers = (Clocked.run Work.step {} done).submitted

structure Holds (w : Work) (m : HostMemory) : Prop where
  wf : m.queue.Wf
  four_le : 4 ≤ m.queue.slots.length
  nodup : m.queue.slots.Nodup
  allocated : ∀ a ∈ m.queue.slots, a < m.allocated
  buffer : ∀ a, (m.wrappers a).buffer.length = 0x10000
  fits : ∀ a ∈ m.queue.inQueue, (m.wrappers a).length ≤ 0x10000
  flights : m.queue.inQueue.map (fun a => (m.wrappers a).flight) = w.flights
  writeBuf : m.writeBuf = w.writeBuf.map fun bs => (m.queue.free.headD 0, bs.length)
  written : ∀ bs ∈ w.writeBuf, m.queue.free ≠ [] ∧
    (m.wrappers (m.queue.free.headD 0)).buffer.take bs.length = bs
  sent : m.sent = w.sent

theorem length_write {t : TransferWrapper} {n : Nat} {data : List (BitVec 8)}
    (h : n + data.length ≤ t.buffer.length) : (t.write n data).buffer.length = t.buffer.length := by
  simp only [TransferWrapper.write, List.length_append, List.length_take, List.length_drop]
  omega

theorem take_write {t : TransferWrapper} {n : Nat} {data : List (BitVec 8)}
    (h : n ≤ t.buffer.length) :
    (t.write n data).buffer.take (n + data.length) = t.buffer.take n ++ data := by
  have hlen : (t.buffer.take n ++ data).length = n + data.length := by
    rw [List.length_append, List.length_take, Nat.min_eq_left h]
  rw [TransferWrapper.write, ← hlen, List.take_left]

variable {w : Work} {m : HostMemory} {a : Nat} {f : TransferWrapper → TransferWrapper}

theorem wrappers_modifyWrapper (b : Nat) :
    (m.modifyWrapper a f).wrappers b = if b = a then f (m.wrappers a) else m.wrappers b :=
  Function.update_apply ..

namespace Holds

theorem notMem (h : Holds w m) {rest : List Nat} (hf : m.queue.free = a :: rest) :
    a ∉ m.queue.inQueue := by
  have hnodup := h.nodup
  rw [← inQueue_append_free, hf, List.nodup_middle, List.nodup_cons] at hnodup
  exact fun ha => hnodup.1 (List.mem_append_left _ ha)

theorem transfers (h : Holds w m) : m.transfers = w.submitted := by
  rw [HostMemory.transfers, h.sent, Work.submitted, ← h.flights, List.flatMap_map]

theorem inStep {done : List WorkOp} (h : Holds (Clocked.run Work.step {} done) m) :
    InStep done m where
  nodup := h.nodup
  numItems := by rw [← length_inQueue h.wf, ← h.flights, List.length_map]
  transfers := h.transfers

theorem outcome (h : Holds w m) : Holds w m.outcome.2 :=
  ⟨h.wf, h.four_le, h.nodup, h.allocated, h.buffer, h.fits, h.flights, h.writeBuf, h.written, h.sent⟩

theorem modifyWrapper (h : Holds w m) (hbuf : (f (m.wrappers a)).buffer.length = 0x10000)
    (hin : a ∈ m.queue.inQueue → (f (m.wrappers a)).flight = (m.wrappers a).flight ∧
      (f (m.wrappers a)).length = (m.wrappers a).length)
    (hfree : w.writeBuf ≠ none → ∀ rest, m.queue.free = a :: rest →
      (f (m.wrappers a)).buffer = (m.wrappers a).buffer) :
    Holds w (m.modifyWrapper a f) where
  wf := h.wf
  four_le := h.four_le
  nodup := h.nodup
  allocated := h.allocated
  buffer b := by
    rw [wrappers_modifyWrapper]
    split
    · exact hbuf
    · exact h.buffer b
  fits b hb := by
    rw [wrappers_modifyWrapper]
    split
    · next hba =>
      subst hba
      rw [(hin hb).2]
      exact h.fits b hb
    · exact h.fits b hb
  flights := by
    rw [← h.flights]
    refine List.map_congr_left fun b hb => ?_
    rw [wrappers_modifyWrapper]
    split
    · next hba =>
      subst hba
      exact (hin hb).1
    · rfl
  writeBuf := h.writeBuf
  written bs hbs := by
    obtain ⟨hne, htake⟩ := h.written bs hbs
    refine ⟨hne, ?_⟩
    obtain ⟨b, rest, hb⟩ := List.exists_cons_of_ne_nil hne
    rw [hb, List.headD_cons] at htake
    change ((m.modifyWrapper a f).wrappers (m.queue.free.headD 0)).buffer.take bs.length = bs
    rw [hb, List.headD_cons, wrappers_modifyWrapper]
    split
    · next hba =>
      subst hba
      rw [hfree (fun hn => Option.not_mem_none bs (hn ▸ hbs)) rest hb, htake]
    · exact htake
  sent := h.sent

theorem closed (h : Holds w m) : Holds { w with writeBuf := none } { m with writeBuf := none } :=
  ⟨h.wf, h.four_le, h.nodup, h.allocated, h.buffer, h.fits, h.flights, rfl,
    fun bs hbs => absurd hbs (Option.not_mem_none bs), h.sent⟩

theorem opened (h : Holds { w with writeBuf := none } { m with writeBuf := none })
    {rest : List Nat} (hfree : m.queue.free = a :: rest) {bs : List (BitVec 8)}
    (htake : (m.wrappers a).buffer.take bs.length = bs) :
    Holds { w with writeBuf := some bs } { m with writeBuf := some (a, bs.length) } where
  wf := h.wf
  four_le := h.four_le
  nodup := h.nodup
  allocated := h.allocated
  buffer := h.buffer
  fits := h.fits
  flights := h.flights
  writeBuf := by
    change some (a, bs.length) = some (m.queue.free.headD 0, bs.length)
    rw [hfree, List.headD_cons]
  written cs hcs := by
    obtain rfl := Option.some.inj hcs
    change m.queue.free ≠ [] ∧ (m.wrappers (m.queue.free.headD 0)).buffer.take bs.length = bs
    rw [hfree, List.headD_cons]
    exact ⟨List.cons_ne_nil a rest, htake⟩
  sent := h.sent

end Holds

structure Created (m : HostMemory) (items : List Nat) (m' : HostMemory) : Prop where
  fresh : items = List.range' m.allocated items.length
  allocated : m'.allocated = m.allocated + items.length
  wrappers : ∀ a < m.allocated, m'.wrappers a = m.wrappers a
  buffer : (∀ a, (m.wrappers a).buffer.length = 0x10000) →
    ∀ a, (m'.wrappers a).buffer.length = 0x10000
  queue : m'.queue = m.queue
  writeBuf : m'.writeBuf = m.writeBuf
  sent : m'.sent = m.sent

namespace Created

theorem refl (m : HostMemory) : Created m [] m := ⟨rfl, rfl, fun _ _ => rfl, id, rfl, rfl, rfl⟩

theorem outcome {items : List Nat} {m' : HostMemory} (h : Created m items m') :
    Created m items m'.outcome.2 :=
  ⟨h.fresh, h.allocated, h.wrappers, h.buffer, h.queue, h.writeBuf, h.sent⟩

theorem keeps (m : HostMemory) : Keeps HostMemory.allocator (Created m) where
  calloc _ _ h := h.outcome
  some items m' item h hc := by
    simp only [HostMemory.allocator, HostMemory.createTransfer] at hc ⊢
    split at hc
    · cases hc
    split at hc
    · cases hc
    next h1 h2 =>
    rw [if_neg h1, if_neg h2]
    have hitem : m'.allocated = item := Option.some.inj hc
    have h' := h.outcome.outcome
    refine ⟨?_, ?_, fun a ha => ?_, fun hb a => ?_, h'.queue, h'.writeBuf, h'.sent⟩
    · rw [List.length_append, List.length_singleton, List.range'_concat, ← h.fresh, Nat.one_mul,
        ← h.allocated, hitem]
    · change m'.allocated + 1 = _
      rw [h.allocated, List.length_append, List.length_singleton, Nat.add_assoc]
    · change Function.update m'.wrappers m'.allocated {} a = _
      rw [Function.update_of_ne (by have := h.allocated; omega), h.wrappers a ha]
    · change (Function.update m'.wrappers m'.allocated {} a).buffer.length = _
      rw [Function.update_apply]
      split
      · exact List.length_replicate ..
      · exact h.buffer hb a
  none items m' h hc := by
    simp only [HostMemory.allocator, HostMemory.createTransfer] at hc ⊢
    split at hc
    · next h1 =>
      rw [if_pos h1]
      exact h.outcome
    split at hc
    · next h1 h2 =>
      rw [if_neg h1, if_pos h2]
      exact h.outcome.outcome
    · cases hc

theorem holds {m' : HostMemory} {items fresh : List Nat} {q : UnboundedQueue Nat}
    (h : Created m items m') (hm : Holds w m) (hwf : q.Wf) (hin : q.inQueue = m.queue.inQueue)
    (hfree : q.free = m.queue.free ++ fresh) (hsub : fresh.Sublist items) :
    Holds w { m' with queue := q } := by
  have hslots : q.slots = m.queue.slots ++ fresh := by
    rw [← inQueue_append_free, hin, hfree, ← List.append_assoc, inQueue_append_free]
  have hmem : ∀ a ∈ fresh, m.allocated ≤ a ∧ a < m'.allocated := by
    intro a ha
    replace ha := hsub.subset ha
    rw [h.fresh] at ha
    rw [h.allocated]
    exact List.mem_range'_1.mp ha
  have hold : ∀ a ∈ m.queue.inQueue, m'.wrappers a = m.wrappers a := fun a ha =>
    h.wrappers a (hm.allocated a (inQueue_append_free m.queue ▸ List.mem_append_left _ ha))
  have hhead : ∀ bs ∈ w.writeBuf, q.free.headD 0 = m.queue.free.headD 0 := by
    intro bs hbs
    obtain ⟨a, rest, ha⟩ := List.exists_cons_of_ne_nil (hm.written bs hbs).1
    rw [hfree, ha]
    rfl
  refine ⟨hwf, ?_, ?_, ?_, h.buffer hm.buffer, ?_, ?_, ?_, fun bs hbs => ⟨?_, ?_⟩, h.sent.trans hm.sent⟩
  · rw [hslots, List.length_append]
    exact hm.four_le.trans (Nat.le_add_right ..)
  · rw [hslots, List.nodup_append]
    refine ⟨hm.nodup, hsub.nodup (h.fresh ▸ List.nodup_range'), fun a ha b hb hab => ?_⟩
    have := hm.allocated a ha
    have := (hmem b hb).1
    omega
  · intro a ha
    rw [hslots, List.mem_append] at ha
    rcases ha with ha | ha
    · exact Nat.lt_of_lt_of_le (hm.allocated a ha) (h.allocated ▸ Nat.le_add_right ..)
    · exact (hmem a ha).2
  · intro a ha
    rw [hin] at ha
    change (m'.wrappers a).length ≤ _
    rw [hold a ha]
    exact hm.fits a ha
  · change q.inQueue.map (fun a => (m'.wrappers a).flight) = _
    rw [hin, ← hm.flights]
    exact List.map_congr_left fun a ha => by rw [hold a ha]
  · change m'.writeBuf = _
    rw [h.writeBuf, hm.writeBuf]
    cases hw : w.writeBuf with
    | none => rfl
    | some bs =>
      rw [Option.map_some, Option.map_some, hhead bs hw]
  · change q.free ≠ []
    rw [hfree]
    exact List.append_ne_nil_of_left_ne_nil (hm.written bs hbs).1 _
  · obtain ⟨hne, htake⟩ := hm.written bs hbs
    obtain ⟨a, rest, ha⟩ := List.exists_cons_of_ne_nil hne
    have hslot : a ∈ m.queue.slots := by
      rw [← inQueue_append_free, ha]
      exact List.mem_append_right _ (List.mem_cons_self ..)
    change (m'.wrappers (q.free.headD 0)).buffer.take bs.length = bs
    rw [hhead bs hbs]
    rw [ha, List.headD_cons] at htake ⊢
    rw [h.wrappers a (hm.allocated a hslot), htake]

end Created

namespace HostMemory

theorem usbOpenDevice_spec (outcomes : List Bool) :
    wp usbOpenDevice (fun _ m => Holds {} m)
      (fun e m => e = .allocErr ∧ InStep [] m) { outcomes } := by
  rw [usbOpenDevice, wp_bind]
  refine wp_mono (fun q m hq => ?_) (fun _ m he => ⟨he.1, ?_⟩)
    (queueInit_spec (Created.keeps { outcomes }) 4 (by decide) (.refl _))
  rotate_left
  · obtain ⟨-, items, hc⟩ := he
    refine ⟨?_, ?_, ?_⟩
    · rw [hc.queue]
      exact List.nodup_nil
    · rw [hc.queue]
      rfl
    · rw [transfers, hc.sent, hc.queue]
      rfl
  obtain ⟨hwf, hin, hcap, hc⟩ := hq
  have hslots : q.slots = List.range' 0 q.free.length := by
    rw [← inQueue_append_free, hin, List.nil_append]
    exact hc.fresh
  refine ⟨hwf, ?_, ?_, fun a ha => ?_, ?_, fun a ha => ?_, ?_, hc.writeBuf, fun bs hbs => ?_,
    hc.sent⟩
  · rw [length_slots, hwf.capacity, hcap]
  · rw [hslots]
    exact List.nodup_range'
  · rw [hslots] at ha
    exact hc.allocated ▸ (List.mem_range'_1.mp ha).2
  · exact hc.buffer fun _ => List.length_replicate ..
  · rw [hin] at ha
    exact absurd ha List.not_mem_nil
  · rw [hin]
    rfl
  · exact absurd hbs (Option.not_mem_none bs)

def SlotsKept (m m' : HostMemory) : Prop := ∀ b ∈ m.queue.slots, m'.wrappers b = m.wrappers b

theorem usbBulkWriteAsyncPrepare_spec (h : Holds w m) :
    wp usbBulkWriteAsyncPrepare
      (fun a m' => Holds w m' ∧ m'.writeBuf = m.writeBuf ∧ (∃ rest, m'.queue.free = a :: rest) ∧
        SlotsKept m m' ∧ m.queue.free <+: m'.queue.free)
      (fun e m' => e = .allocErr ∧ Holds w m' ∧ SlotsKept m m') m := by
  rw [usbBulkWriteAsyncPrepare, wp_bind, wp_get, wp_bind]
  refine wp_mono (fun r m' hr => ?_) (fun e m' he => ⟨he.1, ?_⟩)
    (queuePut_spec (Created.keeps m) h.wf (.refl m))
  · obtain ⟨hwf, hin, hrest, items, hfree, -, hc⟩ := hr
    exact ⟨hc.holds h hwf hin hfree (.refl _), hc.writeBuf, hrest,
      fun b hb => hc.wrappers b (h.allocated b hb), hfree ▸ List.prefix_append _ _⟩
  · obtain ⟨items, hc⟩ := he.2
    have hholds := hc.holds h (q := m'.queue) (by rw [hc.queue]; exact h.wf) (by rw [hc.queue])
      (by rw [hc.queue, List.append_nil]) (List.nil_sublist _)
    exact ⟨hholds, fun b hb => hc.wrappers b (h.allocated b hb)⟩

theorem submit_spec (h : Holds w m) {isRead : Bool} {length : Nat} (hle : length ≤ 0x10000)
    (flight : Flight) (hflight : ∀ t : TransferWrapper,
      (∀ bs ∈ w.writeBuf, t.buffer.take bs.length = bs) →
        TransferWrapper.flight { t with isRead, length } = flight) :
    wp (submit isRead length)
      (fun _ m' => m'.writeBuf = m.writeBuf ∧
        Holds { w with writeBuf := none, flights := w.flights ++ [flight] }
          { m' with writeBuf := none })
      (fun e m' => (e = .allocErr ∨ e = .asyncSubmit) ∧ Holds w m') m := by
  rw [submit, wp_bind]
  refine wp_mono (fun a m₁ h₁ => ?_) (fun _ _ he => ⟨.inl he.1, he.2.1⟩)
    (usbBulkWriteAsyncPrepare_spec h)
  obtain ⟨h₁, hwrite, ⟨rest, hfree⟩, -, -⟩ := h₁
  have h₂ : Holds w (m₁.modifyWrapper a fun t => { t with isRead, length }) :=
    h₁.modifyWrapper (h₁.buffer a) (fun ha => absurd ha (h₁.notMem hfree)) fun _ _ _ => rfl
  have ha : (m₁.modifyWrapper a fun t => { t with isRead, length }).wrappers a =
      { m₁.wrappers a with isRead, length } := by rw [wrappers_modifyWrapper, if_pos rfl]
  rw [wp_bind, wp_modify, wp_bind, wp_modifyGet]
  split
  · exact ⟨.inr rfl, h₂.outcome⟩
  · rw [wp_modify]
    have h₃ := h₂.outcome
    obtain ⟨hwf, hin, -⟩ := queueCommitPut_spec h₁.wf hfree
    change m₁.queue.queueCommitPut.inQueue = _ at hin
    refine ⟨hwrite, hwf, h₃.four_le, h₃.nodup, h₃.allocated, h₃.buffer, fun b hb => ?_, ?_, rfl,
      fun bs hbs => absurd hbs (Option.not_mem_none bs), h₃.sent⟩
    · change b ∈ m₁.queue.queueCommitPut.inQueue at hb
      rw [hin, List.mem_append, List.mem_singleton] at hb
      rcases hb with hb | rfl
      · exact h₃.fits b hb
      · exact (congrArg TransferWrapper.length ha).trans_le hle
    · change m₁.queue.queueCommitPut.inQueue.map _ = _
      rw [hin, List.map_append, List.map_singleton]
      refine congrArg₂ (· ++ ·) h₃.flights (congrArg (fun f => [f]) ?_)
      refine (congrArg TransferWrapper.flight ha).trans (hflight (m₁.wrappers a) fun bs hbs => ?_)
      have htake := (h₁.written bs hbs).2
      rwa [hfree] at htake

theorem usbBulkWriteAsyncSubmit_spec (h : Holds w m) {bs : List (BitVec 8)}
    (hbs : w.writeBuf = some bs) (hle : bs.length ≤ 0x10000) :
    wp (usbBulkWriteAsyncSubmit bs.length)
      (fun _ m' => Holds { w with writeBuf := none, flights := w.flights ++ [.write bs] }
        { m' with writeBuf := none })
      (fun e m' => (e = .allocErr ∨ e = .asyncSubmit) ∧ Holds w m') m := by
  rw [usbBulkWriteAsyncSubmit, if_neg (Nat.not_lt.mpr hle)]
  refine wp_mono (fun _ _ h => h.2) (fun _ _ he => he) (submit_spec h hle _ fun t ht => ?_)
  exact congrArg Flight.write (ht bs hbs)

theorem usbBulkReadAsync_spec (h : Holds w m) (hw : w.writeBuf = none) {count : Nat}
    (hle : count ≤ 0x10000) :
    wp (usbBulkReadAsync count)
      (fun _ m' => Holds { w with flights := w.flights ++ [.read count] } m')
      (fun e m' => (e = .allocErr ∨ e = .asyncSubmit) ∧ Holds w m') m := by
  rw [usbBulkReadAsync, if_neg (Nat.not_lt.mpr hle)]
  refine wp_mono (fun _ m' h' => ?_) (fun _ _ he => he) 
    (submit_spec h hle (.read count) fun _ _ => rfl)
  have hnone : m'.writeBuf = none := by rw [h'.1, h.writeBuf, hw]; rfl
  have hkept := h'.2
  rw [← hnone] at hkept
  rw [hw] at *
  exact hkept

theorem written_flight (t : TransferWrapper) :
    t.flight.written = if t.isRead then [] else [t.buffer.take t.length] := by
  rw [TransferWrapper.flight]
  split <;> rfl

theorem usbBulkAwaitCompletion_spec (h : Holds w m) (hne : w.flights ≠ []) :
    wp usbBulkAwaitCompletion
      (fun r m' => Holds (Work.step .await w) m' ∧ m'.wrappers = m.wrappers ∧
        m'.queue.free = m.queue.free ++ [r.buffer])
      (fun e m' => e = .asyncTransfer ∧ Holds (Work.step .await w) m' ∧ m'.wrappers = m.wrappers)
      m := by
  rw [usbBulkAwaitCompletion, wp_bind, wp_get, wp_bind]
  refine wp_mono (fun a m₁ h₁ => ?_) (fun _ _ he => ?_) (queueTake_spec h.wf m)
  · obtain ⟨⟨rest, hq⟩, rfl⟩ := h₁
    obtain ⟨hwf, hin, hfree⟩ := queueCommitTake_spec h.wf hq
    have hflights := h.flights
    rw [hq, List.map_cons] at hflights
    have hslots : m₁.queue.queueCommitTake.slots.Perm m₁.queue.slots := by
      rw [← inQueue_append_free, ← inQueue_append_free, hin, hfree, hq, ← List.append_assoc]
      exact List.perm_append_singleton a _
    have hhead : ∀ bs ∈ w.writeBuf, m₁.queue.queueCommitTake.free.headD 0 =
        m₁.queue.free.headD 0 := by
      intro bs hbs
      obtain ⟨b, fs, hb⟩ := List.exists_cons_of_ne_nil (h.written bs hbs).1
      rw [hfree, hb]
      rfl
    rw [wp_bind, wp_modify, wp_bind, wp_modifyGet]
    have hholds : Holds (Work.step .await w) { m₁ with
        queue := m₁.queue.queueCommitTake
        sent := m₁.sent ++ if (m₁.wrappers a).isRead then [] else
          [(m₁.wrappers a).buffer.take (m₁.wrappers a).length] } := by
      refine ⟨hwf, hslots.length_eq ▸ h.four_le, hslots.nodup_iff.mpr h.nodup,
        fun b hb => h.allocated b (hslots.mem_iff.mp hb),
        h.buffer, fun b hb => ?_, ?_, ?_, fun bs hbs => ⟨?_, ?_⟩, ?_⟩
      · refine h.fits b ?_
        rw [hq]
        exact List.mem_cons_of_mem a (hin ▸ hb)
      · change m₁.queue.queueCommitTake.inQueue.map _ = w.flights.tail
        rw [hin, ← hflights, List.tail_cons]
      · change m₁.writeBuf = w.writeBuf.map fun bs =>
          (m₁.queue.queueCommitTake.free.headD 0, bs.length)
        rw [h.writeBuf]
        cases hw : w.writeBuf with
        | none => rfl
        | some bs => rw [Option.map_some, Option.map_some, hhead bs hw]
      · change m₁.queue.queueCommitTake.free ≠ []
        rw [hfree]
        exact List.append_ne_nil_of_left_ne_nil (h.written bs hbs).1 _
      · change (m₁.wrappers (m₁.queue.queueCommitTake.free.headD 0)).buffer.take bs.length = bs
        rw [hhead bs hbs]
        exact (h.written bs hbs).2
      · change m₁.sent ++ _ = w.sent ++ (w.flights.take 1).flatMap Flight.written
        rw [h.sent, ← hflights, List.take_succ_cons, List.take_zero, List.flatMap_singleton,
          written_flight]
    split
    · exact ⟨rfl, hholds.outcome, rfl⟩
    · exact ⟨hholds.outcome, rfl, hfree⟩
  · rw [← h.flights, he.2.1] at hne
    exact absurd rfl hne

theorem memcpy_spec (h : Holds w m) {bs data : List (BitVec 8)} (hbs : w.writeBuf = some bs)
    (hle : bs.length + data.length ≤ 0x10000) :
    wp (memcpy data) (fun _ m' => Holds (Work.step (.append data) w) m') (fun _ _ => False) m := by
  obtain ⟨hne, htake⟩ := h.written bs hbs
  obtain ⟨a, rest, hfree⟩ := List.exists_cons_of_ne_nil hne
  have hlen := h.buffer a
  rw [hfree, List.headD_cons] at htake
  have hwrite : m.writeBuf = some (a, bs.length) := by
    rw [h.writeBuf, hbs, hfree]
    rfl
  have hfit : bs.length + data.length ≤ (m.wrappers a).buffer.length := by rwa [hlen]
  have hcopied : Holds { w with writeBuf := none }
      { m.modifyWrapper a (·.write bs.length data) with writeBuf := none } :=
    h.closed.modifyWrapper (f := (·.write bs.length data)) ((length_write hfit).trans hlen)
      (fun ha => absurd ha (h.notMem hfree)) fun hn => absurd rfl hn
  rw [memcpy, wp_modify, hwrite, Work.step, hbs, Option.map_some]
  simp only
  rw [← List.length_append]
  refine hcopied.opened hfree ?_
  rw [wrappers_modifyWrapper, if_pos rfl, List.length_append, take_write (by omega), htake]

theorem receive_spec (h : Holds w m) {i count : Nat} (hi : w.flights[i]? = some (.read count))
    {data : List (BitVec 8)} (hle : data.length ≤ count) :
    wp (receive i data) (fun _ m' => Holds w m') (fun _ _ => False) m := by
  rw [← h.flights, List.getElem?_map, Option.map_eq_some_iff] at hi
  obtain ⟨a, ha, hflight⟩ := hi
  have hmem : a ∈ m.queue.inQueue := List.mem_of_getElem? ha
  have hread : (m.wrappers a).isRead = true ∧ (m.wrappers a).length = count := by
    rw [TransferWrapper.flight] at hflight
    split at hflight
    · next hr => exact ⟨hr, Flight.read.inj hflight⟩
    · cases hflight
  have hfit := h.fits a hmem
  rw [receive, wp_modify, ha]
  refine h.modifyWrapper ?_ (fun _ => ⟨?_, rfl⟩) fun _ rest hfree => absurd hmem (h.notMem hfree)
  · rw [length_write, h.buffer a]
    rw [h.buffer a]
    omega
  · rw [TransferWrapper.flight, TransferWrapper.flight, if_pos hread.1]
    exact if_pos hread.1

end HostMemory

variable {op : WorkOp} {ops : List WorkOp}

/-- What the system may refuse: memory, a transfer, or its end. -/
def USBStatus.OfSystem (e : USBStatus) : Prop := e = .allocErr ∨ e = .asyncSubmit ∨ e = .asyncTransfer

open HostMemory in
theorem WorkOp.run_spec (h : Holds w m) (hl : Work.Legal op w) :
    wp op.run (fun _ m' => Holds (Work.step op w) m')
      (fun e m' => e.OfSystem ∧ (Holds w m' ∨ Holds (Work.step op w) m')) m := by
  cases op with
  | prepare =>
    rw [run, wp_bind]
    refine wp_mono (fun a m' h' => ?_) (fun _ _ he => ⟨.inl he.1, .inl he.2.1⟩)
      (usbBulkWriteAsyncPrepare_spec h)
    obtain ⟨h', -, ⟨rest, hfree⟩, -, -⟩ := h'
    exact h'.closed.opened hfree (List.take_zero ..)
  | append data =>
    obtain ⟨bs, hbs, hle⟩ := hl
    exact wp_mono (fun _ _ h' => h') (fun _ _ he => he.elim) (memcpy_spec h hbs hle)
  | submit =>
    obtain ⟨bs, hbs⟩ := Option.ne_none_iff_exists'.mp hl
    have hle : bs.length ≤ 0x10000 := by
      rw [← (h.written bs hbs).2, List.length_take, h.buffer]
      exact Nat.min_le_right ..
    rw [run, wp_bind, wp_get, wp_bind, h.writeBuf, hbs, Option.map_some, Option.elim_some]
    refine wp_mono (fun _ m' h' => ?_) (fun _ _ he => ⟨he.1.imp id .inl, .inl he.2⟩)
      (usbBulkWriteAsyncSubmit_spec h hbs hle)
    rw [Work.step, hbs]
    exact h'
  | read count =>
    exact wp_mono (fun _ _ h' => h') (fun _ _ he => ⟨he.1.imp id .inl, .inl he.2⟩)
      (usbBulkReadAsync_spec h hl.1 hl.2)
  | await =>
    rw [run, wp_bind]
    exact wp_mono (fun _ _ h' => h'.1) (fun _ _ he => ⟨.inr (.inr he.1), .inr he.2.1⟩)
      (usbBulkAwaitCompletion_spec h hl)
  | receive i data =>
    obtain ⟨count, hi, hle⟩ := hl
    exact wp_mono (fun _ _ h' => h') (fun _ _ he => he.elim) (receive_spec h hi hle)

theorem WorkOp.forM_spec (h : Holds w m) (hl : Runs Work.step Work.Legal w ops) :
    wp (forM ops run) (fun _ m' => Holds (Clocked.run Work.step w ops) m')
      (fun e m' => e.OfSystem ∧ ∃ done, done <+: ops ∧ Holds (Clocked.run Work.step w done) m')
      m := by
  induction ops generalizing w m with
  | nil => exact h
  | cons op ops ih =>
    rw [List.forM_cons, wp_bind]
    refine wp_mono (fun _ m' h' => ?_) (fun _ m' he => ⟨he.1, ?_⟩) (run_spec h hl.1)
    · refine wp_mono (fun _ _ h'' => h'') (fun _ _ he => ⟨he.1, ?_⟩) (ih h' hl.2)
      obtain ⟨done, hd, h''⟩ := he.2
      exact ⟨op :: done, (List.prefix_cons_inj op).mpr hd, h''⟩
    · rcases he.2 with h' | h'
      · exact ⟨[], List.nil_prefix, h'⟩
      · exact ⟨[op], by simp, h'⟩

theorem serve_spec (hl : Runs Work.step Work.Legal {} ops) (outcomes : List Bool) :
    wp (HostMemory.serve ops) (fun _ m => Holds (Clocked.run Work.step {} ops) m)
      (fun e m => e.OfSystem ∧ (InStep [] m ∨
        ∃ done, done <+: ops ∧ Holds (Clocked.run Work.step {} done) m))
      { outcomes } := by
  rw [HostMemory.serve, wp_bind]
  refine wp_mono (fun _ m h => ?_) (fun _ _ he => ⟨.inl he.1, .inl he.2⟩)
    (HostMemory.usbOpenDevice_spec outcomes)
  exact wp_mono (fun _ _ h' => h') (fun _ _ he => ⟨he.1, .inr he.2⟩) (WorkOp.forM_spec h hl)

theorem serve_ok (hl : Runs Work.step Work.Legal {} ops) {outcomes : List Bool}
    (hm : HostMemory.serve ops { outcomes } = .ok ⟨⟩ m) : Holds (Clocked.run Work.step {} ops) m :=
  have hspec := serve_spec hl outcomes
  (wp_ok hspec hm :)

theorem serve_error (hl : Runs Work.step Work.Legal {} ops) {outcomes : List Bool} {e : USBStatus}
    (hm : HostMemory.serve ops { outcomes } = .error e m) :
    e.OfSystem ∧ (InStep [] m ∨
      ∃ done, done <+: ops ∧ Holds (Clocked.run Work.step {} done) m) :=
  have hspec := serve_spec hl outcomes
  (wp_error hspec hm :)

/-- Whatever the library and the device do under the rules, the transfers that are under way have
buffers of their own that hold their bytes, and so has what is written. Only the system makes an
operation fail, and then the same is true of the operations that were done before. -/
theorem buffers_hold (ops : List WorkOp) (hl : Runs Work.step Work.Legal {} ops)
    (outcomes : List Bool) :
    (∀ m, HostMemory.serve ops { outcomes } = .ok ⟨⟩ m → Holds (Clocked.run Work.step {} ops) m) ∧
      ∀ e m, HostMemory.serve ops { outcomes } = .error e m → e.OfSystem ∧ (m.transfers = [] ∨
        ∃ done, done <+: ops ∧ Holds (Clocked.run Work.step {} done) m) :=
  ⟨fun _ => serve_ok hl, fun _ _ hm => (serve_error hl hm).imp_right (·.imp_left (·.transfers))⟩

def fiveTransfers : List WorkOp :=
  [.prepare, .append [1], .submit, .read 1, .read 1, .read 1, .read 1, .receive 4 [9], .await]

theorem fiveTransfers_legal : Runs Work.step Work.Legal {} fiveTransfers :=
  have hle : 1 ≤ 0x10000 := Nat.le_of_ble_eq_true rfl
  ⟨rfl, ⟨[], rfl, hle⟩, Option.some_ne_none _, ⟨rfl, hle⟩, ⟨rfl, hle⟩, ⟨rfl, hle⟩, ⟨rfl, hle⟩,
    ⟨1, rfl, le_rfl⟩, List.cons_ne_nil _ _, trivial⟩

theorem buffers_hold_fiveTransfers :
    ∃ m, HostMemory.serve fiveTransfers { outcomes := List.replicate 40 true } = .ok ⟨⟩ m ∧
      Holds (Clocked.run Work.step {} fiveTransfers) m := by
  obtain ⟨⟨⟩, m, hm⟩ := exists_ok (f := HostMemory.serve fiveTransfers)
    (s := { outcomes := List.replicate 40 true }) (by decide +kernel)
  exact ⟨m, hm, (buffers_hold fiveTransfers fiveTransfers_legal _).1 m hm⟩

end AtmController.Link
