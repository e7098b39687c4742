import AtmController.Link.Buffers

namespace AtmController.Link

open Clocked Effect UnboundedQueue HostMemory

namespace WorkOp

def uses : WorkOp → Bool
  | append _ | submit | read _ => true
  | _ => false

def takes : WorkOp → Nat
  | submit | read _ => 1
  | _ => 0

def forward (op : WorkOp) (i : Nat) : Nat := i - op.takes

/-- The slot in place `i` is not the one that is used. -/
def Spares (op : WorkOp) (i : Nat) : Prop := op.uses = true → 0 < i

end WorkOp

structure Taken (n : Nat) (m m' : HostMemory) : Prop where
  buffer : ∀ b ∈ m.queue.slots, (m'.wrappers b).buffer = (m.wrappers b).buffer
  free : ∀ i b, m.queue.free[i + n]? = some b → m'.queue.free[i]? = some b

variable {w : Work} {m : HostMemory} {a i : Nat} {op : WorkOp} {ops : List WorkOp}

theorem mem_slots_of_free (hi : m.queue.free[i]? = some a) : a ∈ m.queue.slots := by
  rw [← inQueue_append_free]
  exact List.mem_append_right _ (List.mem_of_getElem? hi)

theorem submit_taken (h : Holds w m) (isRead : Bool) (length : Nat) :
    wp (submit isRead length) (fun _ m' => Taken 1 m m') (fun _ m' => ∀ b ∈ m.queue.slots,
      (m'.wrappers b).buffer = (m.wrappers b).buffer) m := by
  rw [submit, wp_bind]
  refine wp_mono (fun a m₁ h₁ => ?_) (fun _ m₁ he b hb => by rw [he.2.2 b hb])
    (usbBulkWriteAsyncPrepare_spec h)
  obtain ⟨hm₁, -, ⟨rest, hfree⟩, hkept, tail, htail⟩ := h₁
  have hbuffer (b : Nat) (hb : b ∈ m.queue.slots) :
      ((m₁.modifyWrapper a fun t => { t with isRead, length }).wrappers b).buffer =
        (m.wrappers b).buffer := by
    rw [wrappers_modifyWrapper]
    split
    · next hba => rw [← hkept b hb, hba]
    · rw [hkept b hb]
  rw [wp_bind, wp_modify, wp_bind, wp_modifyGet]
  split
  · exact hbuffer
  · refine ⟨hbuffer, fun i b hi => ?_⟩
    change m₁.queue.queueCommitPut.free[i]? = some b
    have hi' : m₁.queue.free[i + 1]? = some b := by
      rw [← htail]
      exact List.getElem?_append_left (List.getElem?_eq_some_iff.mp hi).1 ▸ hi
    rw [(queueCommitPut_spec hm₁.wf hfree).2.2]
    rwa [hfree, List.getElem?_cons_succ] at hi'

theorem WorkOp.run_spares (h : Holds w m) (hl : Work.Legal op w) (hi : m.queue.free[i]? = some a)
    (hs : op.Spares i) :
    wp op.run
      (fun _ m' => (m'.wrappers a).buffer = (m.wrappers a).buffer ∧
        m'.queue.free[op.forward i]? = some a)
      (fun _ m' => (m'.wrappers a).buffer = (m.wrappers a).buffer) m := by
  have hslot := mem_slots_of_free hi
  have hnot : a ∉ m.queue.inQueue := by
    have hnodup := h.nodup
    rw [← inQueue_append_free, List.nodup_append] at hnodup
    exact fun ha => hnodup.2.2 a ha a (List.mem_of_getElem? hi) rfl
  cases op with
  | prepare =>
    rw [run, wp_bind]
    refine wp_mono (fun b m' h' => ?_) (fun _ _ he => by rw [he.2.2 a hslot])
      (usbBulkWriteAsyncPrepare_spec h)
    obtain ⟨-, -, -, hkept, tail, htail⟩ := h'
    refine ⟨congrArg TransferWrapper.buffer (hkept a hslot), ?_⟩
    change m'.queue.free[i]? = some a
    rw [← htail]
    exact List.getElem?_append_left (List.getElem?_eq_some_iff.mp hi).1 ▸ hi
  | append data =>
    obtain ⟨bs, hbs, -⟩ := hl
    have hne : a ≠ m.queue.free.headD 0 := by
      intro heq
      have hpos : 0 < i := hs rfl
      have hnodup := h.nodup
      rw [← inQueue_append_free] at hnodup
      obtain ⟨b, rest, hb⟩ := List.exists_cons_of_ne_nil (h.written bs hbs).1
      rw [hb, List.headD_cons] at heq
      have h0 : m.queue.free[0]? = some a := by rw [hb, heq]; rfl
      have hlt := (List.getElem?_eq_some_iff.mp h0).1
      have := (List.getElem?_inj hlt hnodup.of_append_right).mp (h0.trans hi.symm)
      omega
    rw [run, memcpy, wp_modify, h.writeBuf, hbs]
    refine ⟨congrArg TransferWrapper.buffer ?_, hi⟩
    exact (wrappers_modifyWrapper a).trans (if_neg hne)
  | submit =>
    have hpos : 0 < i := hs rfl
    rw [run, wp_bind, wp_get, wp_bind, usbBulkWriteAsyncSubmit, wp_ite]
    split
    · exact rfl
    · refine wp_mono (fun _ m' h' => ⟨h'.buffer a hslot, h'.free (i - 1) a ?_⟩)
        (fun _ _ he => he a hslot) (submit_taken h false _)
      rwa [Nat.sub_add_cancel hpos]
  | read count =>
    have hpos : 0 < i := hs rfl
    rw [run, usbBulkReadAsync, wp_ite]
    split
    · exact rfl
    · refine wp_mono (fun _ m' h' => ⟨h'.buffer a hslot, h'.free (i - 1) a ?_⟩)
        (fun _ _ he => he a hslot) (submit_taken h true _)
      rwa [Nat.sub_add_cancel hpos]
  | await =>
    rw [run, wp_bind]
    refine wp_mono (fun r m' h' => ?_) (fun _ _ he => by rw [he.2.2])
      (usbBulkAwaitCompletion_spec h hl)
    obtain ⟨-, hkept, hfree⟩ := h'
    refine ⟨by rw [hkept], ?_⟩
    change m'.queue.free[i]? = some a
    rw [hfree]
    exact List.getElem?_append_left (List.getElem?_eq_some_iff.mp hi).1 ▸ hi
  | receive k data =>
    rw [run, HostMemory.receive, wp_modify]
    cases hk : m.queue.inQueue[k]? with
    | none => exact ⟨rfl, hi⟩
    | some b =>
      have hne : a ≠ b := fun hab => hnot (hab ▸ List.mem_of_getElem? hk)
      refine ⟨congrArg TransferWrapper.buffer ?_, hi⟩
      exact (wrappers_modifyWrapper a).trans (if_neg hne)

theorem forM_spares (h : Holds w m) (hl : Runs Work.step Work.Legal w ops)
    (hi : m.queue.free[i]? = some a) (hs : Runs WorkOp.forward WorkOp.Spares i ops) :
    wp (forM ops WorkOp.run)
      (fun _ m' => (m'.wrappers a).buffer = (m.wrappers a).buffer ∧
        m'.queue.free[run WorkOp.forward i ops]? = some a)
      (fun _ m' => (m'.wrappers a).buffer = (m.wrappers a).buffer) m := by
  induction ops generalizing w m i with
  | nil => exact ⟨rfl, hi⟩
  | cons op ops ih =>
    rw [List.forM_cons, wp_bind]
    refine wp_mono (fun _ m' h' => ?_) (fun _ _ he => he.2)
      (wp_and (WorkOp.run_spec h hl.1) (WorkOp.run_spares h hl.1 hi hs.1))
    obtain ⟨hholds, hbuf, hfree⟩ := h'
    exact wp_mono (fun _ _ h'' => ⟨h''.1.trans hbuf, h''.2⟩) (fun _ _ he => he.trans hbuf)
      (ih hholds hl.2 hfree hs.2)

theorem spares_mono {j : Nat} (hle : i ≤ j) (hs : Runs WorkOp.forward WorkOp.Spares i ops) :
    Runs WorkOp.forward WorkOp.Spares j ops := by
  induction ops generalizing i j with
  | nil => trivial
  | cons op ops ih =>
    exact ⟨fun hu => (hs.1 hu).trans_le hle, ih (Nat.sub_le_sub_right hle _) hs.2⟩

theorem reply_spared (h : Holds w m) (hne : w.flights ≠ []) {r : CompletionReport}
    {m₁ : HostMemory} (hr : usbBulkAwaitCompletion m = .ok r m₁)
    (hl : Runs Work.step Work.Legal (w.step .await) ops)
    (hs : Runs WorkOp.forward WorkOp.Spares (m.queue.capacity - m.queue.numItems) ops) :
    wp (forM ops WorkOp.run)
      (fun _ m' => (m'.wrappers r.buffer).buffer = (m.wrappers r.buffer).buffer ∧
        m'.queue.free[run WorkOp.forward (m.queue.capacity - m.queue.numItems) ops]? =
          some r.buffer)
      (fun _ m' => (m'.wrappers r.buffer).buffer = (m.wrappers r.buffer).buffer) m₁ := by
  obtain ⟨h₁, hkept, hfree⟩ := wp_ok (usbBulkAwaitCompletion_spec h hne) hr
  have hlast : m₁.queue.free[m.queue.capacity - m.queue.numItems]? = some r.buffer := by
    rw [hfree, ← length_free h.wf, List.getElem?_concat_length]
  rw [← hkept]
  exact forM_spares h₁ hl hlast hs

/-- A reply that is not collected yet, in a buffer of the library: its bytes stay there while the
slots before it last. There are four slots, so that it depends on how many transfers are under way. -/
theorem reply_kept (done ops : List WorkOp)
    (hl : Runs Work.step Work.Legal {} (done ++ .await :: ops))
    (hs : Runs WorkOp.forward WorkOp.Spares (4 - (run Work.step {} done).flights.length) ops)
    (outcomes : List Bool) :
    (∀ m m₁ m' r, serve done { outcomes } = .ok ⟨⟩ m → usbBulkAwaitCompletion m = .ok r m₁ →
      forM ops WorkOp.run m₁ = .ok ⟨⟩ m' →
        (m'.wrappers r.buffer).buffer = (m.wrappers r.buffer).buffer) ∧
      ∀ m m₁ m' r e, serve done { outcomes } = .ok ⟨⟩ m → usbBulkAwaitCompletion m = .ok r m₁ →
        forM ops WorkOp.run m₁ = .error e m' →
          (m'.wrappers r.buffer).buffer = (m.wrappers r.buffer).buffer := by
  rw [runs_append] at hl
  have hspec (m m₁ : HostMemory) (r : CompletionReport) (hm : serve done { outcomes } = .ok ⟨⟩ m)
      (hr : usbBulkAwaitCompletion m = .ok r m₁) :
      wp (forM ops WorkOp.run)
        (fun _ m' => (m'.wrappers r.buffer).buffer = (m.wrappers r.buffer).buffer)
        (fun _ m' => (m'.wrappers r.buffer).buffer = (m.wrappers r.buffer).buffer) m₁ := by
    have h := serve_ok hl.1 hm
    have hnum : m.queue.numItems = (run Work.step {} done).flights.length := by
      rw [← length_inQueue h.wf, ← h.flights, List.length_map]
    have hcap : 4 ≤ m.queue.capacity := by
      rw [← h.wf.capacity, ← length_slots]
      exact h.four_le
    exact wp_mono (fun _ _ h' => h'.1) (fun _ _ he => he)
      (reply_spared h hl.2.1 hr hl.2.2 (spares_mono (by omega) hs))
  exact ⟨fun m m₁ m' r hm hr hm' => (wp_ok (hspec m m₁ r hm hr) hm' :),
    fun m m₁ m' r e hm hr hm' => (wp_error (hspec m m₁ r hm hr) hm' :)⟩

def twoReads : List WorkOp :=
  [.prepare, .append [0x81, 0, 2], .submit, .read 2, .prepare, .append [0x81, 0, 2], .submit, .read 2,
    .await, .receive 0 [7, 7]]

def thirdRead : List WorkOp := [.prepare, .append [0x81, 0, 2], .submit, .await]

theorem twoReads_legal : Runs Work.step Work.Legal {} (twoReads ++ .await :: thirdRead) :=
  have hle : 2 ≤ 0x10000 := Nat.le_of_ble_eq_true rfl
  have hle' : 3 ≤ 0x10000 := Nat.le_of_ble_eq_true rfl
  ⟨rfl, ⟨[], rfl, hle'⟩, Option.some_ne_none _, ⟨rfl, hle⟩, rfl, ⟨[], rfl, hle'⟩,
    Option.some_ne_none _, ⟨rfl, hle⟩, List.cons_ne_nil _ _, ⟨2, rfl, le_rfl⟩, List.cons_ne_nil _ _,
    rfl, ⟨[], rfl, hle'⟩, Option.some_ne_none _, List.cons_ne_nil _ _, trivial⟩

theorem reply_kept_twoReads :
    ∃ m m₁ m' r, serve twoReads { outcomes := List.replicate 40 true } = .ok ⟨⟩ m ∧
      usbBulkAwaitCompletion m = .ok r m₁ ∧ forM thirdRead WorkOp.run m₁ = .ok ⟨⟩ m' ∧
      (m'.wrappers r.buffer).buffer = (m.wrappers r.buffer).buffer := by
  have hall : succeeds (do
      serve twoReads
      let _ ← usbBulkAwaitCompletion
      forM thirdRead WorkOp.run) { outcomes := List.replicate 40 true } = true := by
    decide +kernel
  obtain ⟨⟨⟩, m', hm'⟩ := exists_ok hall
  obtain ⟨⟨⟩, m, hm, h⟩ := bind_ok hm'
  obtain ⟨r, m₁, hr, h⟩ := bind_ok h
  exact ⟨m, m₁, m', r, hm, hr, h, (reply_kept twoReads thirdRead twoReads_legal
    ⟨nofun, fun _ => Nat.one_pos, fun _ => Nat.one_pos, nofun, trivial⟩ _).1 m m₁ m' r hm hr h⟩

end AtmController.Link
