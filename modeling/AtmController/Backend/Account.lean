import AtmController.Backend.Wire

/-! The accounts of the host program and its arithmetic on balances. `int` is `BitVec 32` read as
two's complement; `maxPercent` is 4/5, and a `double` that becomes an integer loses its fraction. -/

namespace AtmController.Backend

structure Row where
  userID : BitVec 32
  hashedPin : BitVec 32
  admin : BitVec 32
  balance : BitVec 32
  deriving DecidableEq

structure Account where
  inLineNum : Nat
  isAdmin : Bool
  bal : BitVec 32
  deriving DecidableEq

def Row.Matches (userID hashedPin : BitVec 16) (r : Row) : Prop :=
  userID = r.userID.setWidth 16 ∧ hashedPin = r.hashedPin.setWidth 16

instance (userID hashedPin : BitVec 16) (r : Row) : Decidable (r.Matches userID hashedPin) :=
  inferInstanceAs (Decidable (_ ∧ _))

def findFrom (userID hashedPin : BitVec 16) (n : Nat) : List Row → Option Account
  | [] => none
  | r :: rs =>
    if r.Matches userID hashedPin then some ⟨n, r.admin = 1, r.balance⟩
    else findFrom userID hashedPin (n + 1) rs

def find (userID hashedPin : BitVec 16) (rows : List Row) : Option Account :=
  findFrom userID hashedPin 0 rows

def setBalance (rows : List Row) (inLineNum : Nat) (bal : BitVec 32) : List Row :=
  rows.modify inLineNum fun r => { r with balance := bal }

def myHash (bankID : BitVec 5) (befHash : BitVec 16) : BitVec 16 :=
  (List.range 16).foldl (fun ret i =>
    if befHash &&& 1#16 <<< i ≠ 0 then ret + 1#16 <<< ((i + bankID.toNat % 16) % 16) else ret) 0

/-- `!(reqAmo > maxPercent * bal)` -/
def SuffBalUser (bal reqAmo : BitVec 32) : Prop := ¬ 5 * reqAmo.toInt > 4 * bal.toInt

instance (bal reqAmo : BitVec 32) : Decidable (SuffBalUser bal reqAmo) :=
  inferInstanceAs (Decidable (¬ _))

/-- `maxPercent * bal`, as a word of a message -/
def percent (bal : BitVec 32) : BitVec 32 := .ofInt 32 ((4 * bal.toInt).tdiv 5)

/-- The balance after the withdrawals that the entry `remCacheBal` of the cache stands for. -/
def finalBal (bal remCacheBal : BitVec 32) : BitVec 32 :=
  bal - .ofInt 32 ((4 * bal.toInt - 5 * remCacheBal.toInt).tdiv 5)

theorem toNat_lt_of_nonneg {bal : BitVec 32} (hb : 0 ≤ bal.toInt) : bal.toNat < 2 ^ 31 := by
  rw [BitVec.toInt_eq_toNat_cond] at hb
  have := bal.isLt
  split_ifs at hb <;> omega

theorem toInt_of_toNat_lt {w : BitVec 32} (h : w.toNat < 2 ^ 31) : w.toInt = w.toNat := by
  rw [BitVec.toInt_eq_toNat_cond, if_pos (by omega)]

theorem percent_eq {w : BitVec 32} (h : w.toNat < 2 ^ 31) :
    percent w = .ofNat 32 (4 * w.toNat / 5) := by
  rw [percent, toInt_of_toNat_lt h, Int.tdiv_eq_ediv_of_nonneg (by omega)]
  exact BitVec.ofInt_natCast 32 (4 * w.toNat / 5)

end AtmController.Backend
