import AtmController.Backend.Settling

namespace AtmController.Backend

open Slice

def channel (b : BitVec 8) (x : BitVec 64) (chan : BitVec 7) : BitVec 8 :=
  if chan = 0 then b else byte x (chan.toNat - 1)

/-- The program counter after `i` accesses, when the value `b` is on channel 0 and the vector `x`
on the channels of the message. -/
def taking (b : BitVec 8) (x : BitVec 64) : Nat → Pc
  | 0 => .head
  | 1 => .confirm b 1
  | 2 => .confirm b 2
  | i + 3 => .readInput b i (readUpTo x i)

theorem complete_taking (bankID : BitVec 5) {b : BitVec 8} {x : BitVec 64} {rows csv : List Row}
    (hb : IsMessage b) {i : Nat} (hi : i < 10) :
    (⟨taking b x i, rows, csv⟩ : Host).complete bankID (if i < 3 then b else byte x (i - 3)) =
      ⟨taking b x (i + 1), rows, csv⟩ := by
  match i with
  | 0 =>
    change (⟨if b = 1 ∨ b = 2 ∨ b = 5 then .confirm b 1 else .head, rows, csv⟩ : Host) = _
    rw [if_pos (show b = 1 ∨ b = 2 ∨ b = 5 from hb)]
    rfl
  | 1 => simp [Host.complete, taking]
  | 2 => simp [Host.complete, taking, readUpTo]
  | i + 3 =>
    rw [if_neg (by omega), Nat.add_sub_cancel]
    simp [Host.complete, taking, readUpTo_succ, show i < 7 by omega]

theorem op_taking {b : BitVec 8} {x : BitVec 64} {rows csv : List Row} {i : Nat} :
    (⟨taking b x i, rows, csv⟩ : Host).op = some (.read (.ofNat 7 (i - 2))) := by
  match i with
  | 0 | 1 | 2 => rfl
  | i + 3 => rfl

namespace Host

def access (bankID : BitVec 5) (b : BitVec 8) (x : BitVec 64)
    (y : Host × List (BitVec 7 × BitVec 8)) : Host × List (BitVec 7 × BitVec 8) :=
  match y.1.op with
  | some (.read chan) => (y.1.complete bankID (channel b x chan), y.2)
  | some (.write chan data) => (y.1.complete bankID 0, y.2 ++ [(chan, data)])
  | none => y

/-- The accesses of a turn: three polls, eight reads, the status of a transaction and eight writes. -/
def turnLength (b : BitVec 8) : Nat := if b = 5 then 19 else 20

/-- The host after a turn of the loop, and what it wrote in it. -/
def turn (bankID : BitVec 5) (b : BitVec 8) (x : BitVec 64) (h : Host) :
    Host × List (BitVec 7 × BitVec 8) :=
  (access bankID b x)^[turnLength b] (h, [])

def replyWrites (befEncSen : Block) : List (BitVec 7 × BitVec 8) :=
  (List.range 8).map fun k => (.ofNat 7 (10 + k), replyByte befEncSen k)

variable {bankID : BitVec 5} {b : BitVec 8} {x : BitVec 64} {h : Host} {a : Answer}
  {ws : List (BitVec 7 × BitVec 8)}

theorem channel_taking {i : Nat} (hi : i < 11) :
    channel b x (.ofNat 7 (i - 2)) = if i < 3 then b else byte x (i - 3) := by
  have hv : (BitVec.ofNat 7 (i - 2)).toNat = i - 2 := by
    rw [BitVec.toNat_ofNat]
    omega
  split_ifs with h₃
  · rw [channel, if_pos (by rw [show i - 2 = 0 by omega]; rfl)]
  · rw [channel, if_neg (fun h0 => by rw [h0] at hv; simp at hv; omega), hv, Nat.sub_sub]

theorem iterate_taking (hb : IsMessage b) (hpc : h.pc = .head) {i : Nat} (hi : i ≤ 10) :
    (access bankID b x)^[i] (h, []) = (⟨taking b x i, h.dataFromCSV, h.csv⟩, []) := by
  induction i with
  | zero =>
    obtain ⟨pc, rows, csv⟩ := h
    obtain rfl : pc = .head := hpc
    rfl
  | succ i ih =>
    rw [Function.iterate_succ_apply', ih (by omega)]
    simp only [access, op_taking]
    rw [channel_taking (by omega), complete_taking bankID hb (by omega)]

theorem iterate_taken (hb : IsMessage b) (hpc : h.pc = .head) :
    (access bankID b x)^[11] (h, []) = (h.answer bankID b ⟨low x, high x⟩, []) := by
  rw [Function.iterate_succ_apply', iterate_taking hb hpc le_rfl]
  simp only [access, op_taking]
  rw [channel_taking (by decide), ← readUpTo_eight, readUpTo_succ]
  rfl

theorem iterate_writeReply {k : Nat} (hk : k ≤ 7) :
    (access bankID b x)^[k] ({ h with pc := .writeReply 0 a }, ws) =
      ({ h with pc := .writeReply k a },
        ws ++ (List.range k).map fun j => (.ofNat 7 (10 + j), replyByte a.befEncSen j)) := by
  induction k with
  | zero => simp
  | succ k ih =>
    rw [Function.iterate_succ_apply', ih (by omega)]
    simp [access, op, complete, show k < 7 by omega, List.range_succ]

theorem iterate_reply :
    (access bankID b x)^[8] ({ h with pc := .writeReply 0 a }, ws) =
      (h.settle a, ws ++ replyWrites a.befEncSen) := by
  rw [Function.iterate_succ_apply', iterate_writeReply le_rfl]
  simp [access, op, complete, settle, replyWrites, List.range_succ]

theorem turn_transact (hb : b = 1 ∨ b = 2) (hpc : h.pc = .head) {v : BitVec 8}
    (ha : transact bankID h.dataFromCSV b (decrypt64 ⟨low x, high x⟩) = a)
    (hst : a.status = some v) :
    h.turn bankID b x = (h.settle a, (9, v) :: replyWrites a.befEncSen) := by
  have h5 : b ≠ 5 := by rcases hb with rfl | rfl <;> decide
  have hmsg : IsMessage b := hb.imp_right .inl
  have hans : h.answer bankID b ⟨low x, high x⟩ = { h with pc := .writeStatus v a } := by
    simp only [answer, if_neg h5, ha, reply, hst]
  rw [turn, turnLength, if_neg h5, show 20 = 8 + (1 + 11) from rfl, Function.iterate_add_apply,
    Function.iterate_add_apply, iterate_taken hmsg hpc, hans]
  exact iterate_reply (h := h)

theorem turn_reconcile (hpc : h.pc = .head)
    (ha : reconcile bankID h.dataFromCSV (decrypt64 ⟨low x, high x⟩) = some a) :
    h.turn bankID 5 x = (h.settle a, replyWrites a.befEncSen) := by
  have hans : h.answer bankID 5 ⟨low x, high x⟩ = { h with pc := .writeReply 0 a } := by
    simp only [answer, if_true, ha, reply, reconcile_status ha]
  rw [turn, turnLength, if_pos rfl, show 19 = 8 + 11 from rfl, Function.iterate_add_apply,
    iterate_taken (.inr (.inr rfl)) hpc, hans]
  exact iterate_reply (h := h)

theorem turn_stopped (hpc : h.pc = .head)
    (ha : reconcile bankID h.dataFromCSV (decrypt64 ⟨low x, high x⟩) = none) :
    h.turn bankID 5 x = ({ h with pc := .stopped }, []) := by
  have hans : h.answer bankID 5 ⟨low x, high x⟩ = { h with pc := .stopped } := by
    simp only [answer, if_true, ha]
  rw [turn, turnLength, if_pos rfl, show 19 = 8 + 11 from rfl, Function.iterate_add_apply,
    iterate_taken (.inr (.inr rfl)) hpc, hans]
  rfl

end Host

end AtmController.Backend
