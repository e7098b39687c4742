import AtmController.Lib.Effect
import Mathlib.Data.List.Rotate

namespace AtmController.Link

open Effect

inductive USBStatus
  | allocErr
  | emptyQueue
  | asyncSize
  | asyncSubmit
  | asyncTransfer
  deriving DecidableEq

structure UnboundedQueue (α : Type) where
  itemArray : List α
  capacity : Nat
  putIndex : Nat := 0
  takeIndex : Nat := 0
  numItems : Nat := 0
  deriving DecidableEq

structure Allocator (σ α : Type) where
  calloc : σ → Bool × σ
  createFunc : σ → Option α × σ

namespace UnboundedQueue

variable {σ α : Type}

def createItems (al : Allocator σ α) : Nat → EStateM USBStatus σ (List α)
  | 0 => pure []
  | n + 1 => do
    match ← modifyGet al.createFunc with
    | none => throw .allocErr
    | some item => do
      let items ← createItems al n
      pure (item :: items)

def queueInit (al : Allocator σ α) (capacity : Nat) : EStateM USBStatus σ (UnboundedQueue α) := do
  match ← modifyGet al.calloc with
  | false => throw .allocErr
  | true => do
    let itemArray ← createItems al capacity
    pure { itemArray, capacity }

def grow (al : Allocator σ α) (self : UnboundedQueue α) :
    EStateM USBStatus σ (UnboundedQueue α) := do
  match ← modifyGet al.calloc with
  | false => throw .allocErr
  | true => do
    let items ← createItems al self.capacity
    pure { self with
      itemArray :=
        self.itemArray.drop self.takeIndex ++ self.itemArray.take self.takeIndex ++ items
      takeIndex := 0, putIndex := self.capacity, capacity := 2 * self.capacity }

/-- The item that is put into the queue next; it is not there yet. -/
def queuePut [Inhabited α] (al : Allocator σ α) (self : UnboundedQueue α) :
    EStateM USBStatus σ (UnboundedQueue α × α) := do
  let self ← if self.numItems = self.capacity then self.grow al else pure self
  pure (self, self.itemArray[self.putIndex]!)

def nextIndex (self : UnboundedQueue α) (i : Nat) : Nat := if i + 1 = self.capacity then 0 else i + 1

def queueCommitPut (self : UnboundedQueue α) : UnboundedQueue α :=
  { self with numItems := self.numItems + 1, putIndex := self.nextIndex self.putIndex }

/-- The oldest item; it is still in the queue. -/
def queueTake [Inhabited α] (self : UnboundedQueue α) : EStateM USBStatus σ α := do
  if self.numItems = 0 then throw .emptyQueue
  pure self.itemArray[self.takeIndex]!

def queueCommitTake (self : UnboundedQueue α) : UnboundedQueue α :=
  { self with numItems := self.numItems - 1, takeIndex := self.nextIndex self.takeIndex }

/-- The items from `takeIndex` on, round the end of the array. -/
def slots (q : UnboundedQueue α) : List α := q.itemArray.rotate q.takeIndex

def inQueue (q : UnboundedQueue α) : List α := q.slots.take q.numItems

def free (q : UnboundedQueue α) : List α := q.slots.drop q.numItems

structure Wf (q : UnboundedQueue α) : Prop where
  capacity : q.itemArray.length = q.capacity
  numItems_le : q.numItems ≤ q.capacity
  takeIndex_lt : q.takeIndex < q.capacity
  putIndex : q.putIndex = (q.takeIndex + q.numItems) % q.capacity

variable {q : UnboundedQueue α}

theorem inQueue_append_free (q : UnboundedQueue α) : q.inQueue ++ q.free = q.slots :=
  List.take_append_drop ..

@[simp] theorem length_slots (q : UnboundedQueue α) :
    q.slots.length = q.itemArray.length := List.length_rotate ..

theorem length_inQueue (h : q.Wf) : q.inQueue.length = q.numItems := by
  rw [inQueue, List.length_take, length_slots, h.capacity]
  exact Nat.min_eq_left h.numItems_le

theorem length_free (h : q.Wf) : q.free.length = q.capacity - q.numItems := by
  rw [free, List.length_drop, length_slots, h.capacity]

theorem free_eq_nil (h : q.Wf) : q.free = [] ↔ q.numItems = q.capacity := by
  have hn := h.numItems_le
  rw [← List.length_eq_zero_iff, length_free h]
  omega

theorem rotate_nextIndex (h : q.Wf) (i : Nat) :
    q.itemArray.rotate (q.nextIndex i) = q.itemArray.rotate (i + 1) := by
  rw [nextIndex]
  split
  · next hi => rw [hi, ← h.capacity, List.rotate_length, List.rotate_zero]
  · rfl

theorem nextIndex_lt {i : Nat} (hi : i < q.capacity) : q.nextIndex i < q.capacity := by
  rw [nextIndex]
  split <;> omega

theorem nextIndex_mod {n : Nat} (h : 0 < q.capacity) :
    q.nextIndex (n % q.capacity) = (n + 1) % q.capacity := by
  have hlt := Nat.mod_lt n h
  rw [nextIndex, ← Nat.mod_add_mod]
  split
  · next hn => rw [hn, Nat.mod_self]
  · exact (Nat.mod_eq_of_lt (by omega)).symm

theorem getElem_putIndex [Inhabited α] (h : q.Wf) {a : α} {rest : List α}
    (hf : q.free = a :: rest) : q.itemArray[q.putIndex]! = a := by
  have hpos : 0 < q.capacity := Nat.zero_lt_of_lt h.takeIndex_lt
  have hlt : q.numItems < q.slots.length := by
    have := congrArg List.length hf
    rw [length_free h, List.length_cons] at this
    rw [length_slots, h.capacity]
    omega
  have hget : q.slots[q.numItems] = a := by
    rw [free, List.drop_eq_getElem_cons hlt] at hf
    exact (List.cons.inj hf).1
  simp only [slots, List.getElem_rotate, h.capacity, Nat.add_comm q.numItems,
    ← h.putIndex] at hget
  rw [getElem!_pos q.itemArray q.putIndex
    (by rw [h.putIndex, h.capacity]; exact Nat.mod_lt _ hpos), hget]

theorem getElem_takeIndex [Inhabited α] (h : q.Wf) {a : α} {rest : List α}
    (hq : q.inQueue = a :: rest) : q.itemArray[q.takeIndex]! = a := by
  have hlt : q.takeIndex < q.itemArray.length := h.capacity ▸ h.takeIndex_lt
  have hhead : q.slots.head? = some a := by
    rw [← inQueue_append_free, hq]
    rfl
  rw [slots, List.head?_rotate hlt, List.getElem?_eq_getElem hlt] at hhead
  rw [getElem!_pos q.itemArray q.takeIndex hlt]
  exact Option.some.inj hhead

theorem wf_queueCommitPut (h : q.Wf) (hn : q.numItems < q.capacity) :
    q.queueCommitPut.Wf where
  capacity := h.capacity
  numItems_le := hn
  takeIndex_lt := h.takeIndex_lt
  putIndex := by
    have hpos : 0 < q.capacity := Nat.zero_lt_of_lt hn
    calc q.nextIndex q.putIndex
      _ = q.nextIndex ((q.takeIndex + q.numItems) % q.capacity) := by rw [← h.putIndex]
      _ = (q.takeIndex + (q.numItems + 1)) % q.capacity := nextIndex_mod hpos

theorem queueCommitPut_spec (h : q.Wf) {a : α} {rest : List α} (hf : q.free = a :: rest) :
    q.queueCommitPut.Wf ∧ q.queueCommitPut.inQueue = q.inQueue ++ [a] ∧
      q.queueCommitPut.free = rest := by
  have hlt : q.numItems < q.capacity := by
    have := congrArg List.length hf
    rw [length_free h, List.length_cons] at this
    omega
  have hslots : q.slots = q.inQueue ++ [a] ++ rest := by
    rw [List.append_assoc, List.singleton_append, ← hf, inQueue_append_free]
  have hlen : (q.inQueue ++ [a]).length = q.numItems + 1 := by
    rw [List.length_append, length_inQueue h, List.length_singleton]
  refine ⟨wf_queueCommitPut h hlt, ?_, ?_⟩
  · change q.slots.take (q.numItems + 1) = _
    rw [hslots, ← hlen, List.take_left]
  · change q.slots.drop (q.numItems + 1) = _
    rw [hslots, ← hlen, List.drop_left]

theorem queueCommitTake_spec (h : q.Wf) {a : α} {rest : List α}
    (hq : q.inQueue = a :: rest) :
    q.queueCommitTake.Wf ∧ q.queueCommitTake.inQueue = rest ∧
      q.queueCommitTake.free = q.free ++ [a] := by
  have hpos : 0 < q.capacity := Nat.zero_lt_of_lt h.takeIndex_lt
  have hlen : rest.length + 1 = q.numItems := by
    rw [← length_inQueue h, hq, List.length_cons]
  have hslots : q.queueCommitTake.slots = rest ++ (q.free ++ [a]) := by
    change q.itemArray.rotate (q.nextIndex q.takeIndex) = _
    rw [rotate_nextIndex h, ← List.rotate_rotate, ← slots, ← inQueue_append_free, hq,
      List.cons_append, List.rotate_cons_succ, List.rotate_zero, List.append_assoc]
  have hnum : q.queueCommitTake.numItems = rest.length := by
    change q.numItems - 1 = _
    omega
  refine ⟨⟨h.capacity, ?_, nextIndex_lt h.takeIndex_lt, ?_⟩, ?_, ?_⟩
  · exact (Nat.sub_le ..).trans h.numItems_le
  · change q.putIndex = (q.nextIndex q.takeIndex + (q.numItems - 1)) % q.capacity
    have hnext := nextIndex_mod (q := q) (n := q.takeIndex) hpos
    rw [Nat.mod_eq_of_lt h.takeIndex_lt] at hnext
    rw [hnext, Nat.mod_add_mod, h.putIndex]
    congr 1
    omega
  · rw [inQueue, hslots, hnum, List.take_left]
  · rw [free, hslots, hnum, List.drop_left]

section Allocation

variable {al : Allocator σ α} {P : List α → σ → Prop} {s : σ}

/-- What an allocation keeps, of the items that were made so far. -/
structure Keeps (al : Allocator σ α) (P : List α → σ → Prop) : Prop where
  calloc : ∀ items s, P items s → P items (al.calloc s).2
  some : ∀ items s item, P items s → (al.createFunc s).1 = some item →
    P (items ++ [item]) (al.createFunc s).2
  none : ∀ items s, P items s → (al.createFunc s).1 = none → P items (al.createFunc s).2

theorem createItems_spec (hP : Keeps al P) (n : Nat) {made : List α} (h : P made s) :
    wp (createItems al n) (fun items t => items.length = n ∧ P (made ++ items) t)
      (fun e t => e = .allocErr ∧ ∃ items, P items t) s := by
  induction n generalizing made s with
  | zero => exact ⟨rfl, by rwa [List.append_nil]⟩
  | succ n ih =>
    rw [createItems, wp_bind, wp_modifyGet]
    cases hc : (al.createFunc s).1 with
    | none => exact ⟨rfl, made, hP.none _ _ h hc⟩
    | some item =>
      rw [wp_bind]
      refine wp_mono (fun items t ht => ⟨?_, ?_⟩) (fun _ _ he => he) (ih (hP.some _ _ _ h hc))
      · rw [List.length_cons, ht.1]
      · rw [← List.singleton_append, ← List.append_assoc]
        exact ht.2

theorem queueInit_spec (hP : Keeps al P) (capacity : Nat) (hpos : 0 < capacity) (h : P [] s) :
    wp (queueInit al capacity)
      (fun q t => q.Wf ∧ q.inQueue = [] ∧ q.capacity = capacity ∧ P q.free t)
      (fun e t => e = .allocErr ∧ ∃ items, P items t) s := by
  rw [queueInit, wp_bind, wp_modifyGet]
  cases (al.calloc s).1 with
  | false => exact ⟨rfl, [], hP.calloc _ _ h⟩
  | true =>
    rw [wp_bind]
    refine wp_mono (fun items t ht => ⟨?_, rfl, rfl, ?_⟩) (fun _ _ he => he)
      (createItems_spec hP capacity (hP.calloc _ _ h))
    · exact ⟨ht.1, Nat.zero_le _, hpos, by simp⟩
    · simpa [free, slots] using ht.2

theorem grow_spec (hP : Keeps al P) (h : q.Wf) (hfull : q.free = []) (hs : P [] s) :
    wp (q.grow al)
      (fun p t => p.Wf ∧ p.inQueue = q.inQueue ∧ p.free.length = q.capacity ∧ P p.free t)
      (fun e t => e = .allocErr ∧ ∃ items, P items t) s := by
  have hpos : 0 < q.capacity := Nat.zero_lt_of_lt h.takeIndex_lt
  have hnum := (free_eq_nil h).mp hfull
  have hslots : q.itemArray.drop q.takeIndex ++ q.itemArray.take q.takeIndex =
      q.inQueue := by
    rw [← List.append_nil q.inQueue, ← hfull, inQueue_append_free, slots,
      List.rotate_eq_drop_append_take (h.capacity ▸ h.takeIndex_lt.le)]
  have hlen := length_inQueue h
  rw [grow, wp_bind, wp_modifyGet]
  cases (al.calloc s).1 with
  | false => exact ⟨rfl, [], hP.calloc _ _ hs⟩
  | true =>
    rw [wp_bind]
    refine wp_mono (fun items t ht => ?_) (fun _ _ he => he)
      (createItems_spec hP q.capacity (hP.calloc _ _ hs))
    rw [wp_pure, hslots]
    have hin : (q.inQueue ++ items).take q.numItems = q.inQueue := by
      rw [← hlen, List.take_left]
    have hfree : (q.inQueue ++ items).drop q.numItems = items := by
      rw [← hlen, List.drop_left]
    refine ⟨⟨?_, ?_, ?_, ?_⟩, ?_, ?_, ?_⟩
    · rw [List.length_append, hlen, hnum, ht.1, Nat.two_mul]
    · change q.numItems ≤ 2 * q.capacity
      omega
    · exact Nat.mul_pos Nat.two_pos hpos
    · change q.capacity = (0 + q.numItems) % (2 * q.capacity)
      rw [Nat.zero_add, hnum, Nat.mod_eq_of_lt (by omega)]
    · rw [inQueue, slots, List.rotate_zero, hin]
    · rw [free, slots, List.rotate_zero, hfree, ht.1]
    · rw [free, slots, List.rotate_zero, hfree]
      exact ht.2

theorem queuePut_spec [Inhabited α] (hP : Keeps al P) (h : q.Wf) (hs : P [] s) :
    wp (q.queuePut al)
      (fun r t => r.1.Wf ∧ r.1.inQueue = q.inQueue ∧ (∃ rest, r.1.free = r.2 :: rest) ∧
        ∃ items, r.1.free = q.free ++ items ∧ (items = [] ∨ q.free = []) ∧ P items t)
      (fun e t => e = .allocErr ∧ ∃ items, P items t) s := by
  rw [queuePut, wp_ite]
  split
  · next hfull =>
    rw [wp_bind]
    have hnil := (free_eq_nil h).mpr hfull
    refine wp_mono (fun p t ht => ?_) (fun _ _ he => he) (grow_spec hP h hnil hs)
    obtain ⟨hwf, hin, hlen, hp⟩ := ht
    obtain ⟨a, rest, hfree⟩ := List.exists_cons_of_length_pos
      (hlen ▸ Nat.zero_lt_of_lt h.takeIndex_lt : 0 < p.free.length)
    exact ⟨hwf, hin, ⟨rest, by rw [hfree, getElem_putIndex hwf hfree]⟩, p.free,
      by rw [hnil, List.nil_append], .inr hnil, hp⟩
  · next hfull =>
    obtain ⟨a, rest, hfree⟩ := List.exists_cons_of_ne_nil (mt (free_eq_nil h).mp hfull)
    exact ⟨h, rfl, ⟨rest, by rw [hfree, getElem_putIndex h hfree]⟩, [],
      (List.append_nil _).symm, .inl rfl, hs⟩

theorem queueTake_spec [Inhabited α] (h : q.Wf) (s : σ) :
    wp (q.queueTake : EStateM USBStatus σ α)
      (fun a t => (∃ rest, q.inQueue = a :: rest) ∧ t = s)
      (fun e t => e = .emptyQueue ∧ q.inQueue = [] ∧ t = s) s := by
  rw [queueTake, wp_ite]
  split
  · next h0 => exact ⟨rfl, List.length_eq_zero_iff.mp ((length_inQueue h).trans h0), rfl⟩
  · next h0 =>
    have hne : q.inQueue ≠ [] := fun hn => h0 ((length_inQueue h).symm.trans (by rw [hn]; rfl))
    obtain ⟨a, rest, hq⟩ := List.exists_cons_of_ne_nil hne
    exact ⟨⟨rest, by rw [hq, getElem_takeIndex h hq]⟩, rfl⟩

end Allocation

end UnboundedQueue

end AtmController.Link
