import Mathlib.Data.BitVec
import Mathlib.Tactic.Linarith
import AtmController.Lib.Chunks

/-! The commands by which the host reads and writes channels: a byte with the direction and the
channel, the length in two bytes, and for a write the data. -/

namespace AtmController.Link

open Chunks

inductive Transfer
  | put (chan : BitVec 7) (b : BitVec 8)
  | get (chan : BitVec 7)
  deriving DecidableEq

/-- What the interface does in a cycle in which it does not wait. A read of `count` bytes turns
the bus around before the first of them and finishes after the last. -/
inductive Action
  | wake
  | address
  | countHigh
  | countLow
  | turn (count : Nat)
  | get (chan : BitVec 7)
  | finish
  | put (chan : BitVec 7) (b : BitVec 8)
  deriving DecidableEq

@[simp] def Action.transfer : Action → Option Transfer
  | put chan b => some (.put chan b)
  | get chan => some (.get chan)
  | _ => none

@[simp] def Action.turned : Action → Option Nat
  | turn count => some count
  | _ => none

def maxLength : Nat := 0x10000

inductive Command
  | write (chan : BitVec 7) (data : List (BitVec 8)) (pos : 0 < data.length)
    (le : data.length ≤ maxLength)
  | read (chan : BitVec 7) (count : Nat) (pos : 0 < count) (le : count ≤ maxLength)

/-- The two bytes of a length, of which 0 stands for `maxLength`. -/
def encodeLength (count : Nat) : List (BitVec 8) := [.ofNat 8 (count / 256), .ofNat 8 count]

def decodeLength (hi lo : BitVec 8) : Nat :=
  if hi = 0 ∧ lo = 0 then maxLength else hi.toNat * 256 + lo.toNat

def readActions (chan : BitVec 7) (count : Nat) : List Action :=
  .turn count :: List.replicate count (.get chan) ++ [.finish]

def writeActions (chan : BitVec 7) (data : List (BitVec 8)) : List Action := data.map (.put chan)

namespace Command

def encode : Command → List (BitVec 8)
  | write chan data _ _ => chan.setWidth 8 :: encodeLength data.length ++ data
  | read chan count _ _ => (chan.setWidth 8 ||| 0x80) :: encodeLength count

def transfers : Command → List Transfer
  | write chan data _ _ => data.map (.put chan)
  | read chan count _ _ => List.replicate count (.get chan)

def reply : Command → Option Nat
  | write .. => none
  | read _ count _ _ => some count

/-- The cycles it takes when nothing has to be waited for. -/
def cost : Command → Nat
  | write _ data _ _ => 3 + data.length
  | read _ count _ _ => 3 + (count + 2)

def actions : Command → List Action
  | write chan data _ _ => .address :: .countHigh :: .countLow :: writeActions chan data
  | read chan count _ _ => .address :: .countHigh :: .countLow :: readActions chan count

theorem transfers_actions (c : Command) : c.actions.filterMap Action.transfer = c.transfers := by
  cases c with
  | write chan data pos le =>
    simp only [actions, writeActions, transfers, List.filterMap_cons, Action.transfer,
      List.filterMap_map]
    exact congrFun (List.filterMap_eq_map (f := Transfer.put chan)) data
  | read chan count pos le =>
    simp [actions, readActions, transfers, List.filterMap_cons, List.filterMap_append,
      List.filterMap_replicate]

theorem turned_actions (c : Command) : c.actions.filterMap Action.turned = c.reply.toList := by
  cases c with
  | write chan data pos le => simp [actions, writeActions, reply, List.filterMap_cons]
  | read chan count pos le =>
    simp [actions, readActions, reply, List.filterMap_cons, List.filterMap_append,
      List.filterMap_replicate]

theorem length_actions (c : Command) : c.actions.length = c.cost := by
  cases c with
  | write chan data pos le => simp [actions, writeActions, cost]; omega
  | read chan count pos le => simp [actions, readActions, cost]; omega

end Command

/-- What a stream of bytes makes the interface do; the flag in the first byte of a command tells
reads from writes. -/
def decode : List (BitVec 8) → List Action
  | [] => []
  | [_] => [.address]
  | [_, _] => [.address, .countHigh]
  | b :: hi :: lo :: bs =>
    .address :: .countHigh :: .countLow ::
      if b.getLsbD 7 then readActions (b.extractLsb' 0 7) (decodeLength hi lo) ++ decode bs
      else writeActions (b.extractLsb' 0 7) (bs.take (decodeLength hi lo)) ++
        decode (bs.drop (decodeLength hi lo))
termination_by bs => bs.length
decreasing_by
  · simp only [List.length_cons]
    omega
  · simp only [List.length_drop, List.length_cons]
    omega

@[simp] theorem decode_nil : decode [] = [] := by simp [decode]

@[simp] theorem decode_one (b : BitVec 8) : decode [b] = [.address] := by simp [decode]

@[simp] theorem decode_two (b hi : BitVec 8) : decode [b, hi] = [.address, .countHigh] := by
  simp [decode]

theorem decode_cons (b hi lo : BitVec 8) (bs : List (BitVec 8)) :
    decode (b :: hi :: lo :: bs) = .address :: .countHigh :: .countLow ::
      if b.getLsbD 7 then readActions (b.extractLsb' 0 7) (decodeLength hi lo) ++ decode bs
      else writeActions (b.extractLsb' 0 7) (bs.take (decodeLength hi lo)) ++
        decode (bs.drop (decodeLength hi lo)) := by
  rw [decode]

theorem decodeLength_pos (hi lo : BitVec 8) : 0 < decodeLength hi lo := by
  unfold decodeLength
  split
  · decide
  · next h =>
    by_contra hn
    have hz : hi.toNat = 0 ∧ lo.toNat = 0 := by omega
    exact h ⟨BitVec.eq_of_toNat_eq hz.1, BitVec.eq_of_toNat_eq hz.2⟩

theorem decodeLength_le (hi lo : BitVec 8) : decodeLength hi lo ≤ maxLength := by
  unfold decodeLength
  split
  · exact le_rfl
  · have := hi.isLt
    have := lo.isLt
    unfold maxLength
    omega

theorem decodeLength_encode {count : Nat} (hpos : 0 < count) (hle : count ≤ maxLength) :
    decodeLength (.ofNat 8 (count / 256)) (.ofNat 8 count) = count := by
  have hz : BitVec.ofNat 8 (count / 256) = 0 ∧ BitVec.ofNat 8 count = 0 ↔
      count / 256 % 256 = 0 ∧ count % 256 = 0 := by
    simp [← BitVec.toNat_inj, BitVec.toNat_ofNat]
  unfold maxLength at hle
  simp only [decodeLength, maxLength, hz, BitVec.toNat_ofNat]
  split <;> omega

theorem getLsbD_write (chan : BitVec 7) : (chan.setWidth 8).getLsbD 7 = false := by
  simp

theorem extractLsb'_write (chan : BitVec 7) : (chan.setWidth 8).extractLsb' 0 7 = chan := by
  apply BitVec.eq_of_getLsbD_eq
  intro i hi
  simp [hi, show i < 8 by omega]

theorem getLsbD_read (chan : BitVec 7) : (chan.setWidth 8 ||| (0x80 : BitVec 8)).getLsbD 7 = true := by
  rw [BitVec.getLsbD_or, getLsbD_write]
  rfl

theorem extractLsb'_read (chan : BitVec 7) :
    (chan.setWidth 8 ||| (0x80 : BitVec 8)).extractLsb' 0 7 = chan := by
  have h : (0x80 : BitVec 8).extractLsb' 0 7 = 0#7 := by decide
  rw [BitVec.extractLsb'_or, extractLsb'_write, h, BitVec.or_zero]

theorem decode_encode_append (c : Command) (bs : List (BitVec 8)) :
    decode (c.encode ++ bs) = c.actions ++ decode bs := by
  cases c with
  | write chan data pos le =>
    simp only [Command.encode, encodeLength, List.cons_append, List.nil_append]
    rw [decode_cons, getLsbD_write, extractLsb'_write, decodeLength_encode pos le]
    simp [Command.actions]
  | read chan count pos le =>
    simp only [Command.encode, encodeLength, List.cons_append, List.nil_append]
    rw [decode_cons, getLsbD_read, extractLsb'_read, decodeLength_encode pos le]
    rfl

theorem decode_encode (cs : List Command) (bs : List (BitVec 8)) :
    decode (cs.flatMap Command.encode ++ bs) = cs.flatMap Command.actions ++ decode bs := by
  induction cs with
  | nil => rfl
  | cons c cs ih =>
    rw [List.flatMap_cons, List.flatMap_cons, List.append_assoc, decode_encode_append, ih,
      List.append_assoc]

theorem maxLength_pos : 0 < maxLength := by decide

/-- The commands that write any data, and that read any number of bytes. -/
def writeCommands (chan : BitVec 7) (data : List (BitVec 8)) : List Command :=
  (cut maxLength data).pmap (fun d h => .write chan d h.1 h.2) fun _ => cut_bounds maxLength_pos

def readCommands (chan : BitVec 7) (count : Nat) : List Command :=
  (blocks maxLength count).pmap (fun n h => .read chan n h.1 h.2) fun _ =>
    blocks_bounds maxLength_pos

theorem writeCommands_of_le (chan : BitVec 7) {data : List (BitVec 8)} (hpos : 0 < data.length)
    (hle : data.length ≤ maxLength) : writeCommands chan data = [.write chan data hpos hle] := by
  simp only [writeCommands, cut_of_length_le (List.ne_nil_of_length_pos hpos) hle, List.pmap]

theorem readCommands_of_le (chan : BitVec 7) {count : Nat} (hpos : 0 < count)
    (hle : count ≤ maxLength) : readCommands chan count = [.read chan count hpos hle] := by
  simp only [readCommands, blocks_of_le hpos hle, List.pmap]

theorem readCommands_add (chan : BitVec 7) (count : Nat) : readCommands chan (maxLength + count) =
    readCommands chan maxLength ++ readCommands chan count := by
  rw [readCommands_of_le chan maxLength_pos le_rfl]
  simp only [readCommands, blocks_add maxLength_pos, List.pmap, List.singleton_append]

@[simp] theorem readCommands_zero (chan : BitVec 7) : readCommands chan 0 = [] := by
  simp only [readCommands, blocks_zero, List.pmap]

theorem flatMap_pmap {α β γ : Type} {P : α → Prop} {f : (a : α) → P a → β} {g : β → List γ}
    (g' : α → List γ) (h : ∀ a ha, g (f a ha) = g' a) {as : List α} (has : ∀ a ∈ as, P a) :
    (as.pmap f has).flatMap g = as.flatMap g' := by
  induction as with
  | nil => rfl
  | cons a as ih => rw [List.pmap_cons, List.flatMap_cons, List.flatMap_cons, h, ih]

theorem encode_writeCommands (chan : BitVec 7) (data : List (BitVec 8)) :
    (writeCommands chan data).flatMap Command.encode =
      (cut maxLength data).flatMap fun d => chan.setWidth 8 :: encodeLength d.length ++ d := by
  refine flatMap_pmap _ ?_ _
  intro d hd
  rfl

theorem transfers_writeCommands (chan : BitVec 7) (data : List (BitVec 8)) :
    (writeCommands chan data).flatMap Command.transfers = data.map (.put chan) := by
  have h : (writeCommands chan data).flatMap Command.transfers =
      (cut maxLength data).flatMap (List.map (Transfer.put chan)) := by
    refine flatMap_pmap _ ?_ _
    intro d hd
    rfl
  rw [h, List.flatMap_def, ← List.map_flatten, flatten_cut]

theorem transfers_readCommands (chan : BitVec 7) (count : Nat) :
    (readCommands chan count).flatMap Command.transfers = List.replicate count (.get chan) := by
  have h : (readCommands chan count).flatMap Command.transfers =
      (blocks maxLength count).flatMap fun n => List.replicate n (Transfer.get chan) := by
    refine flatMap_pmap _ ?_ _
    intro n hn
    rfl
  rw [h, List.eq_replicate_iff]
  refine ⟨?_, fun t ht => ?_⟩
  · rw [List.length_flatMap]
    simp [sum_blocks]
  · obtain ⟨n, -, ht⟩ := List.mem_flatMap.mp ht
    exact List.eq_of_mem_replicate ht

theorem reply_writeCommands (chan : BitVec 7) (data : List (BitVec 8)) :
    (writeCommands chan data).filterMap Command.reply = [] := by
  rw [List.filterMap_eq_nil_iff]
  intro c hc
  obtain ⟨d, -, -, rfl⟩ := List.mem_pmap.mp hc
  rfl

theorem reply_readCommands (chan : BitVec 7) (count : Nat) :
    (readCommands chan count).filterMap Command.reply = blocks maxLength count := by
  have h : (readCommands chan count).flatMap (fun c => c.reply.toList) =
      (blocks maxLength count).flatMap fun n => [n] := by
    refine flatMap_pmap _ ?_ _
    intro n hn
    rfl
  rw [List.filterMap_eq_flatMap_toList, h]
  simp

end AtmController.Link
