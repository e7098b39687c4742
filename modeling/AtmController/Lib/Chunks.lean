import Mathlib.Data.List.Basic
import Mathlib.Tactic.Linarith
import Mathlib.Tactic.TypeStar

namespace Chunks

variable {α : Type*} {n : Nat}

/-- The chunks of a list, of which only the last one may be shorter than `n`. -/
def cut (n : Nat) : List α → List (List α)
  | [] => []
  | x :: xs => (x :: xs.take (n - 1)) :: cut n (xs.drop (n - 1))
termination_by xs => xs.length
decreasing_by
  rw [List.length_drop, List.length_cons]
  omega

@[simp] theorem cut_nil : cut n ([] : List α) = [] := by rw [cut]

theorem cut_append {c : List α} (hn : 0 < n) (hc : c.length = n) (xs : List α) :
    cut n (c ++ xs) = c :: cut n xs := by
  cases c with
  | nil => exact absurd hc (by simp; omega)
  | cons x c =>
    have hl : c.length = n - 1 := by rw [List.length_cons] at hc; omega
    rw [List.cons_append, cut, ← hl, List.take_left, List.drop_left]

theorem cut_of_length_le {xs : List α} (hxs : xs ≠ []) (h : xs.length ≤ n) : cut n xs = [xs] := by
  cases xs with
  | nil => exact absurd rfl hxs
  | cons x xs =>
    rw [List.length_cons] at h
    rw [cut, List.take_of_length_le (by omega), List.drop_of_length_le (by omega), cut_nil]

theorem cut_flatten_append {cs : List (List α)} (hn : 0 < n) (hcs : ∀ c ∈ cs, c.length = n)
    (xs : List α) : cut n (cs.flatten ++ xs) = cs ++ cut n xs := by
  induction cs with
  | nil => rfl
  | cons c cs ih =>
    rw [List.flatten_cons, List.append_assoc, cut_append hn (hcs c (List.mem_cons_self ..)),
      ih fun d hd => hcs d (List.mem_cons_of_mem _ hd), List.cons_append]

theorem flatten_cut (n : Nat) (xs : List α) : (cut n xs).flatten = xs := by
  induction xs using cut.induct n with
  | case1 => simp
  | case2 x xs ih => rw [cut, List.flatten_cons, ih, List.cons_append, List.take_append_drop]

theorem cut_bounds (hn : 0 < n) {xs c : List α} (hc : c ∈ cut n xs) :
    0 < c.length ∧ c.length ≤ n := by
  induction xs using cut.induct n with
  | case1 => simp at hc
  | case2 x xs ih =>
    rw [cut, List.mem_cons] at hc
    rcases hc with rfl | hc
    · rw [List.length_cons, List.length_take]
      omega
    · exact ih hc

def blocks (n count : Nat) : List Nat := (cut n (List.replicate count ())).map List.length

theorem blocks_bounds (hn : 0 < n) {count k : Nat} (hk : k ∈ blocks n count) : 0 < k ∧ k ≤ n := by
  obtain ⟨c, hc, rfl⟩ := List.mem_map.mp hk
  exact cut_bounds hn hc

@[simp] theorem blocks_zero : blocks n 0 = [] := by simp [blocks]

theorem blocks_add (hn : 0 < n) (count : Nat) : blocks n (n + count) = n :: blocks n count := by
  rw [blocks, List.replicate_add, cut_append hn List.length_replicate, List.map_cons,
    List.length_replicate, blocks]

theorem blocks_of_le {count : Nat} (hpos : 0 < count) (h : count ≤ n) :
    blocks n count = [count] := by
  have hne : List.replicate count () ≠ [] := List.ne_nil_of_length_pos (by simpa using hpos)
  rw [blocks, cut_of_length_le hne (by simpa using h), List.map_singleton, List.length_replicate]

theorem sum_blocks (n count : Nat) : (blocks n count).sum = count := by
  rw [blocks, ← List.length_flatten, flatten_cut, List.length_replicate]

/-- The full chunks of what was written so far, and the rest that is in the buffer. -/
structure Chunked (n : Nat) (cs : List (List α)) (buf xs : List α) : Prop where
  full : ∀ c ∈ cs, c.length = n
  lt : buf.length < n
  flatten : cs.flatten ++ buf = xs

variable {cs : List (List α)} {buf xs : List α}

theorem chunked_nil (hn : 0 < n) : Chunked n [] ([] : List α) [] := ⟨by simp, hn, rfl⟩

theorem Chunked.append (h : Chunked n cs buf xs) {ys : List α}
    (hlt : buf.length + ys.length < n) : Chunked n cs (buf ++ ys) (xs ++ ys) where
  full := h.full
  lt := by rwa [List.length_append]
  flatten := by rw [← h.flatten, List.append_assoc]

theorem Chunked.commit (h : Chunked n cs buf xs) {ys : List α}
    (hlt : buf.length + ys.length = n) (hn : 0 < n) :
    Chunked n (cs ++ [buf ++ ys]) [] (xs ++ ys) where
  full c hc := by
    rcases List.mem_append.mp hc with hc | hc
    · exact h.full c hc
    · rw [List.mem_singleton.mp hc, List.length_append, hlt]
  lt := hn
  flatten := by simp [← h.flatten]

theorem Chunked.cut_eq (h : Chunked n cs buf xs) :
    cut n xs = if buf = [] then cs else cs ++ [buf] := by
  have hn : 0 < n := Nat.lt_of_le_of_lt (Nat.zero_le _) h.lt
  rw [← h.flatten, cut_flatten_append hn h.full]
  split
  · next hb => rw [hb, cut_nil, List.append_nil]
  · next hb => rw [cut_of_length_le hb (Nat.le_of_lt h.lt)]

theorem Chunked.length_mod (h : Chunked n cs buf xs) : buf.length = xs.length % n := by
  have hl : cs.flatten.length = cs.length * n := by
    rw [List.length_flatten, List.map_congr_left h.full, List.map_const', List.sum_replicate_nat]
  rw [← h.flatten, List.length_append, hl, Nat.add_comm, Nat.add_mul_mod_self_right,
    Nat.mod_eq_of_lt h.lt]

end Chunks
