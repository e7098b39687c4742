import AtmController.Backend.Polling

namespace AtmController.Backend

open Slice

/-- Each balance is between 0 and what it was. -/
def Lowered (rows rows' : List Row) : Prop :=
  List.Forall₂ (fun r r' => 0 ≤ r'.balance.toInt ∧ r'.balance.toInt ≤ r.balance.toInt) rows rows'

theorem lowered_refl {rows : List Row} (h : ∀ r ∈ rows, 0 ≤ r.balance.toInt) : Lowered rows rows :=
  List.forall₂_same.mpr fun r hr => ⟨h r hr, le_rfl⟩

theorem lowered_setBalance {rows : List Row} {n : Nat} {r : Row} {bal : BitVec 32}
    (h : ∀ r ∈ rows, 0 ≤ r.balance.toInt) (hr : rows[n]? = some r) :
    Lowered rows (setBalance rows n bal) ↔ 0 ≤ bal.toInt ∧ bal.toInt ≤ r.balance.toInt := by
  induction rows generalizing n with
  | nil => simp at hr
  | cons r₀ rs ih =>
    have hs : ∀ r ∈ rs, 0 ≤ r.balance.toInt := fun r hr => h r (List.mem_cons_of_mem _ hr)
    cases n with
    | zero =>
      obtain rfl : r₀ = r := Option.some.inj hr
      rw [setBalance, List.modify_zero_cons, Lowered, List.forall₂_cons]
      exact and_iff_left (lowered_refl hs)
    | succ n =>
      rw [setBalance, List.modify_succ_cons, Lowered, List.forall₂_cons]
      exact (and_iff_right ⟨h r₀ (List.mem_cons_self ..), le_rfl⟩).trans (ih hs hr)

abbrev request (x : BitVec 64) : Block := decrypt64 ⟨low x, high x⟩

abbrev requester (bankID : BitVec 5) (rows : List Row) (x : BitVec 64) : Option Account :=
  find (userID (request x).v1) (myHash bankID (unhashedPin (request x).v1)) rows

def encrypted (w0 w1 : BitVec 32) : BitVec 64 :=
  join (encrypt64 ⟨w0, w1⟩).v1 (encrypt64 ⟨w0, w1⟩).v0

@[simp] theorem request_encrypted (w0 w1 : BitVec 32) : request (encrypted w0 w1) = ⟨w0, w1⟩ := by
  rw [request, encrypted, low_join, high_join]
  exact decrypt64_encrypt64 _

/-! ### Transactions -/

/-- A turn with a transaction pays out at most four fifths of a balance, and takes from it what it
pays. -/
structure DebitsSafely (bankID : BitVec 5) (b : BitVec 8) (x : BitVec 64) (h : Host) : Prop where
  debit : ∀ a, requester bankID h.dataFromCSV x = some a → a.isAdmin = false → b = 1 →
    5 * ((request x).v0.toNat : Int) ≤ 4 * a.bal.toInt →
    let bal := a.bal.toInt - (request x).v0.toNat
    (h.turn bankID b x).1.dataFromCSV = setBalance h.dataFromCSV a.inLineNum (.ofInt 32 bal) ∧
      (h.turn bankID b x).2 = (9, 1) :: Host.replyWrites (encrypt64 ⟨.ofInt 32 (4 * bal / 5), 0⟩)
  keep : (∀ a, requester bankID h.dataFromCSV x = some a → a.isAdmin = false → b = 1 →
    ¬ 5 * ((request x).v0.toNat : Int) ≤ 4 * a.bal.toInt) →
    (h.turn bankID b x).1.dataFromCSV = h.dataFromCSV
  granted : ∀ a, requester bankID h.dataFromCSV x = some a → a.isAdmin = false →
    (9, 1) ∈ (h.turn bankID b x).2 → 5 * ((request x).v0.toNat : Int) ≤ 4 * a.bal.toInt
  lowered : Lowered h.dataFromCSV (h.turn bankID b x).1.dataFromCSV

variable {bankID : BitVec 5} {b : BitVec 8} {x : BitVec 64} {h : Host} {a : Account}
  {rows : List Row}

theorem toNat_bal_lt (hrows : ∀ r ∈ rows, 0 ≤ r.balance.toInt)
    (ha : requester bankID rows x = some a) : a.bal.toNat < 2 ^ 31 := by
  obtain ⟨r, hr, hb⟩ := exists_of_find ha
  rw [← hb]
  exact toNat_lt_of_nonneg (hrows r (List.mem_of_getElem? hr))

theorem transact_account (ha : requester bankID rows x = some a) (b : BitVec 8) :
    transact bankID rows b (request x) =
      if a.isAdmin then
        ⟨some 3, encrypt64 ⟨packNotes (num2000Admin (request x).v0) (num1000Admin (request x).v0)
          (num500Admin (request x).v0) (num100Admin (request x).v0), 0⟩, none⟩
      else if SuffBalUser a.bal (request x).v0 then
        if b = 1 then
          ⟨some 1, encrypt64 ⟨percent (a.bal - (request x).v0), 0⟩,
            some (a.inLineNum, a.bal - (request x).v0)⟩
        else ⟨some 1, encrypt64 ⟨percent a.bal, 0⟩, none⟩
      else ⟨some 2, encrypt64 ⟨percent a.bal, 0⟩, none⟩ := by
  rw [requester] at ha
  rw [transact, ha]

theorem status_mem {st st' : BitVec 8} {m : Block} :
    ((9, st) : BitVec 7 × BitVec 8) ∈ (9, st') :: Host.replyWrites m ↔ st = st' := by
  have hn : ((9, st) : BitVec 7 × BitVec 8) ∉ Host.replyWrites m := by
    simp only [Host.replyWrites, List.mem_map, List.mem_range, not_exists, not_and]
    intro k hk he
    have h9 : (BitVec.ofNat 7 (10 + k)).toNat = 9 := congrArg BitVec.toNat (congrArg Prod.fst he)
    rw [BitVec.toNat_ofNat] at h9
    omega
  rw [List.mem_cons, or_iff_left hn, Prod.mk.injEq, and_iff_right rfl]

theorem suffBalUser_of_le {bal w : BitVec 32} (hb : bal.toNat < 2 ^ 31) (hw : w.toNat < 2 ^ 31) :
    SuffBalUser bal w ↔ 5 * (w.toNat : Int) ≤ 4 * bal.toInt := by
  rw [SuffBalUser, toInt_of_toNat_lt hw, toInt_of_toNat_lt hb]
  omega

theorem suffBalUser_of_ge {bal w : BitVec 32} (hb : 0 ≤ bal.toInt) (hw : 2 ^ 31 ≤ w.toNat) :
    SuffBalUser bal w := by
  have hlt := w.isLt
  rw [SuffBalUser, BitVec.toInt_eq_toNat_cond w, if_neg (by omega)]
  omega

theorem sub_eq {bal w : BitVec 32} (hb : bal.toNat < 2 ^ 31)
    (hle : 5 * (w.toNat : Int) ≤ 4 * bal.toInt) :
    bal - w = .ofInt 32 (bal.toInt - w.toNat) ∧
      percent (bal - w) = .ofInt 32 (4 * (bal.toInt - w.toNat) / 5) ∧
        0 ≤ (bal - w).toInt ∧ (bal - w).toInt ≤ bal.toInt := by
  rw [toInt_of_toNat_lt hb] at hle ⊢
  have hsub : (bal - w).toNat = bal.toNat - w.toNat :=
    BitVec.toNat_sub_of_le (show w.toNat ≤ bal.toNat by omega)
  have hint : (bal.toNat : Int) - w.toNat = ((bal.toNat - w.toNat : Nat) : Int) := by omega
  have hdiv : 4 * ((bal.toNat - w.toNat : Nat) : Int) / 5 =
      ((4 * (bal.toNat - w.toNat) / 5 : Nat) : Int) := by omega
  refine ⟨?_, ?_, ?_, ?_⟩
  · rw [hint, BitVec.ofInt_natCast, ← hsub, BitVec.ofNat_toNat, BitVec.setWidth_eq]
  · rw [percent_eq (by omega), hsub, hint, hdiv, BitVec.ofInt_natCast]
  · rw [toInt_of_toNat_lt (by omega)]
    omega
  · rw [toInt_of_toNat_lt (by omega), hsub]
    omega

theorem debitsSafely_of_kept {st : BitVec 8} {m : Block} (hb : b = 1 ∨ b = 2) (hpc : h.pc = .head)
    (hrows : ∀ r ∈ h.dataFromCSV, 0 ≤ r.balance.toInt)
    (ht : transact bankID h.dataFromCSV b (request x) = ⟨some st, m, none⟩)
    (hn : ∀ a, requester bankID h.dataFromCSV x = some a → a.isAdmin = false →
      (b = 1 → ¬ 5 * ((request x).v0.toNat : Int) ≤ 4 * a.bal.toInt) ∧
        (st = 1 → 5 * ((request x).v0.toNat : Int) ≤ 4 * a.bal.toInt)) :
    DebitsSafely bankID b x h := by
  have hturn := Host.turn_transact hb hpc ht rfl
  have hkeep : (h.turn bankID b x).1.dataFromCSV = h.dataFromCSV := by rw [hturn]; rfl
  refine ⟨fun a ha hadm hb1 hle => absurd hle ((hn a ha hadm).1 hb1), fun _ => hkeep, ?_, ?_⟩
  · intro a ha hadm hmem
    rw [hturn, status_mem] at hmem
    exact (hn a ha hadm).2 hmem.symm
  · rw [hkeep]
    exact lowered_refl hrows

theorem debitsSafely_of_lt (hb : b = 1 ∨ b = 2) (hpc : h.pc = .head)
    (hrows : ∀ r ∈ h.dataFromCSV, 0 ≤ r.balance.toInt)
    (ha : requester bankID h.dataFromCSV x = some a) (hadm : a.isAdmin = false)
    (hw : (request x).v0.toNat < 2 ^ 31) : DebitsSafely bankID b x h := by
  have hbal := toNat_bal_lt hrows ha
  have hsuff := suffBalUser_of_le hbal hw
  have honly {a' : Account} (ha' : requester bankID h.dataFromCSV x = some a') : a' = a :=
    Option.some.inj (ha'.symm.trans ha)
  have ht := transact_account ha b
  simp only [hadm, Bool.false_eq_true, if_false] at ht
  by_cases hs : SuffBalUser a.bal (request x).v0
  · rw [if_pos hs] at ht
    have hle := hsuff.mp hs
    rcases hb with rfl | rfl
    · rw [if_pos rfl] at ht
      obtain ⟨hnew, hpct, h0, hlow⟩ := sub_eq hbal hle
      have hturn := Host.turn_transact (.inl rfl) hpc ht rfl
      obtain ⟨r, hr, hbr⟩ := exists_of_find ha
      refine ⟨fun a' ha' _ _ _ => ?_, fun hn => absurd hle (hn a ha hadm rfl), fun a' ha' _ _ => ?_, ?_⟩
      · rw [hturn, honly ha']
        exact ⟨congrArg (setBalance _ _) hnew,
          congrArg (fun w => (9, 1) :: Host.replyWrites (encrypt64 ⟨w, 0⟩)) hpct⟩
      · rw [honly ha']
        exact hle
      · rw [hturn]
        exact (lowered_setBalance hrows hr).mpr ⟨h0, hbr ▸ hlow⟩
    · rw [if_neg (by decide)] at ht
      refine debitsSafely_of_kept (.inr rfl) hpc hrows ht fun a' ha' _ => ⟨fun h => ?_, fun _ => ?_⟩
      · exact absurd h (by decide)
      · rw [honly ha']
        exact hle
  · rw [if_neg hs] at ht
    refine debitsSafely_of_kept hb hpc hrows ht fun a' ha' _ => ⟨fun _ => ?_, fun h => ?_⟩
    · rw [honly ha']
      exact fun hle => hs (hsuff.mpr hle)
    · exact absurd h (by decide)

/-- A turn with a transaction is safe exactly when a user asks for less than 2^31. -/
theorem debits_safely_iff (hb : b = 1 ∨ b = 2) (hpc : h.pc = .head)
    (hrows : ∀ r ∈ h.dataFromCSV, 0 ≤ r.balance.toInt) :
    DebitsSafely bankID b x h ↔ ∀ a, requester bankID h.dataFromCSV x = some a →
      a.isAdmin = false → (request x).v0.toNat < 2 ^ 31 := by
  constructor
  · intro hd a ha hadm
    by_contra hge
    have hbal := toNat_bal_lt hrows ha
    have ht := transact_account ha b
    have hs : SuffBalUser a.bal (request x).v0 :=
      suffBalUser_of_ge (by rw [toInt_of_toNat_lt hbal]; omega) (by omega)
    simp only [hadm, Bool.false_eq_true, if_false, if_pos hs] at ht
    have hst : (transact bankID h.dataFromCSV b (request x)).status = some 1 := by
      rw [ht]
      split <;> rfl
    have hturn := Host.turn_transact hb hpc rfl hst
    have hle := hd.granted a ha hadm (by rw [hturn]; exact List.mem_cons_self ..)
    rw [toInt_of_toNat_lt hbal] at hle
    omega
  · intro hlt
    cases ha : requester bankID h.dataFromCSV x with
    | none =>
      have ht : transact bankID h.dataFromCSV b (request x) = ⟨some 4, ⟨0, 0⟩, none⟩ := by
        rw [requester] at ha
        rw [transact, ha]
      exact debitsSafely_of_kept hb hpc hrows ht fun a ha' => absurd (ha.symm.trans ha') (by simp)
    | some a =>
      cases hadm : a.isAdmin with
      | false => exact debitsSafely_of_lt hb hpc hrows ha hadm (hlt a ha hadm)
      | true =>
        have ht := transact_account ha b
        rw [if_pos hadm] at ht
        refine debitsSafely_of_kept hb hpc hrows ht fun a' ha' hadm' => ?_
        obtain rfl := Option.some.inj (ha.symm.trans ha')
        exact absurd (hadm.symm.trans hadm') (by decide)

abbrev oneAccount : Host := ⟨.head, [⟨0, 0, 0, 1000⟩], [⟨0, 0, 0, 1000⟩]⟩

theorem oneAccount_nonneg : ∀ r ∈ oneAccount.dataFromCSV, 0 ≤ r.balance.toInt := by decide

theorem debits_safely_of_500 : DebitsSafely 0 1 (encrypted 500 0) oneAccount := by
  refine (debits_safely_iff (.inl rfl) rfl oneAccount_nonneg).mpr fun _ _ _ => ?_
  rw [request_encrypted]
  decide

/-- A request for 2^32 - 1 is one for -1: the account is credited. -/
theorem account_credited : ¬ DebitsSafely 0 1 (encrypted 0xffffffff 0) oneAccount ∧
    (oneAccount.turn 0 1 (encrypted 0xffffffff 0)).1.dataFromCSV = [⟨0, 0, 0, 1001⟩] := by
  have hrow : (oneAccount.turn 0 1 (encrypted 0xffffffff 0)).1.dataFromCSV =
      [⟨0, 0, 0, 1001⟩] := by
    rw [Host.turn_transact (.inl rfl) rfl (by rw [← request, request_encrypted]) (v := 1) (by decide)]
    decide
  refine ⟨fun h => ?_, hrow⟩
  have hl := h.lowered
  rw [hrow, Lowered, List.forall₂_cons] at hl
  exact absurd hl.1.2 (by decide)

/-! ### Entries of the cache -/

/-- The values that the host converts to `int` and to `uint32_t` on the way. -/
structure ConversionsInRange (bal remCacheBal : BitVec 32) : Prop where
  entry : remCacheBal.toNat < 2 ^ 31
  spent : -2 ^ 31 ≤ (4 * bal.toInt - 5 * remCacheBal.toInt).tdiv 5 ∧
    (4 * bal.toInt - 5 * remCacheBal.toInt).tdiv 5 < 2 ^ 31
  reply : 0 ≤ (4 * (finalBal bal remCacheBal).toInt).tdiv 5 ∧
    (4 * (finalBal bal remCacheBal).toInt).tdiv 5 < 2 ^ 32

/-- A turn with an entry of the cache credits and overdraws no account. -/
structure ReconcilesSafely (bankID : BitVec 5) (x : BitVec 64) (h : Host) : Prop where
  lowered : Lowered h.dataFromCSV (h.turn bankID 5 x).1.dataFromCSV
  inRange : ∀ a, requester bankID h.dataFromCSV x = some a → a.isAdmin = false →
    ConversionsInRange a.bal (request x).v0

theorem finalBal_eq {bal w : BitVec 32} (hb : bal.toNat < 2 ^ 31)
    (hw : 5 * w.toNat < 4 * bal.toNat + 5) :
    finalBal bal w = .ofNat 32 (bal.toNat - (4 * bal.toNat - 5 * w.toNat) / 5) ∧
      (4 * bal.toInt - 5 * w.toInt).tdiv 5 = ((4 * bal.toNat - 5 * w.toNat) / 5 : Nat) := by
  have hd : (4 * bal.toInt - 5 * w.toInt).tdiv 5 = ((4 * bal.toNat - 5 * w.toNat) / 5 : Nat) := by
    rw [toInt_of_toNat_lt hb, toInt_of_toNat_lt (by omega), Int.tdiv_eq_ediv,
      show Int.sign 5 = 1 from rfl]
    split_ifs <;> omega
  refine ⟨?_, hd⟩
  have hle : (4 * bal.toNat - 5 * w.toNat) / 5 ≤ bal.toNat := by omega
  rw [finalBal, hd, BitVec.ofInt_natCast]
  apply BitVec.eq_of_toNat_eq
  rw [BitVec.toNat_sub_of_le (by rw [BitVec.le_def, BitVec.toNat_ofNat]; omega), BitVec.toNat_ofNat,
    BitVec.toNat_ofNat]
  omega

theorem toInt_finalBal {bal w : BitVec 32} (hb : bal.toNat < 2 ^ 31)
    (hw : 5 * w.toNat < 4 * bal.toNat + 5) :
    (finalBal bal w).toInt = ((bal.toNat - (4 * bal.toNat - 5 * w.toNat) / 5 : Nat) : Int) := by
  rw [(finalBal_eq hb hw).1, toInt_of_toNat_lt (by rw [BitVec.toNat_ofNat]; omega),
    BitVec.toNat_ofNat, Nat.mod_eq_of_lt (by omega)]

theorem not_le_finalBal {bal w : BitVec 32} (hb : bal.toNat < 2 ^ 31) (hw : w.toNat < 2 ^ 31)
    (hgt : 4 * bal.toNat + 5 ≤ 5 * w.toNat) :
    ¬ (0 ≤ (finalBal bal w).toInt ∧ (finalBal bal w).toInt ≤ bal.toInt) := by
  obtain ⟨e, he⟩ : ∃ e : Nat, (4 * bal.toInt - 5 * w.toInt).tdiv 5 = -(e : Int) ∧ 0 < e ∧
      e < 2 ^ 31 := by
    refine ⟨(5 * w.toNat - 4 * bal.toNat) / 5, ?_, by omega, by omega⟩
    rw [toInt_of_toNat_lt hb, toInt_of_toNat_lt hw, Int.tdiv_eq_ediv, show Int.sign 5 = 1 from rfl]
    split_ifs <;> omega
  rw [finalBal, he.1, BitVec.toInt_sub, BitVec.toInt_ofInt, toInt_of_toNat_lt hb]
  simp only [Int.sub_bmod_bmod]
  rw [Int.bmod_def]
  split_ifs <;> omega

theorem reconcile_unknown (ha : requester bankID rows x = none) :
    reconcile bankID rows (request x) = some ⟨none, encrypt64 ⟨0, 0⟩, none⟩ := by
  rw [requester] at ha
  rw [reconcile, ha]

theorem reconcile_admin (ha : requester bankID rows x = some a) (hadm : a.isAdmin = true) :
    reconcile bankID rows (request x) = none := by
  rw [requester] at ha
  simp only [reconcile, ha, hadm, if_true]

theorem reconcile_account (ha : requester bankID rows x = some a) (hadm : a.isAdmin = false) :
    reconcile bankID rows (request x) =
      some ⟨none, encrypt64 ⟨percent (finalBal a.bal (request x).v0), 0⟩,
        some (a.inLineNum, finalBal a.bal (request x).v0)⟩ := by
  rw [requester] at ha
  simp only [reconcile, ha, hadm, Bool.false_eq_true, if_false]

/-- A turn with an entry is safe exactly when the entry has at most four fifths of the balance, up
to the fraction that the conversion drops. -/
theorem reconciles_safely_iff (hpc : h.pc = .head)
    (hrows : ∀ r ∈ h.dataFromCSV, 0 ≤ r.balance.toInt) :
    ReconcilesSafely bankID x h ↔ ∀ a, requester bankID h.dataFromCSV x = some a →
      a.isAdmin = false → 5 * ((request x).v0.toNat : Int) < 4 * a.bal.toInt + 5 := by
  constructor
  · intro hr a ha hadm
    have hbal := toNat_bal_lt hrows ha
    have hw := (hr.inRange a ha hadm).entry
    rw [toInt_of_toNat_lt hbal]
    by_contra hge
    refine not_le_finalBal hbal hw (by omega) ?_
    obtain ⟨r, hr', hbr⟩ := exists_of_find ha
    have hl := hr.lowered
    rw [Host.turn_reconcile hpc (reconcile_account ha hadm)] at hl
    rw [← hbr]
    exact (lowered_setBalance hrows hr').mp (hbr ▸ hl)
  · intro hle
    cases ha : requester bankID h.dataFromCSV x with
    | none =>
      have hn : ∀ a, requester bankID h.dataFromCSV x = some a → False :=
        fun a ha' => by simp [ha] at ha'
      refine ⟨?_, fun a ha' => (hn a ha').elim⟩
      rw [Host.turn_reconcile hpc (reconcile_unknown ha)]
      exact lowered_refl hrows
    | some a =>
      have honly {a' : Account} (ha' : requester bankID h.dataFromCSV x = some a') : a' = a :=
        Option.some.inj (ha'.symm.trans ha)
      cases hadm : a.isAdmin with
      | true =>
        refine ⟨?_, fun a' ha' hadm' => ?_⟩
        · rw [Host.turn_stopped hpc (reconcile_admin ha hadm)]
          exact lowered_refl hrows
        · rw [honly ha'] at hadm'
          exact absurd (hadm.symm.trans hadm') (by decide)
      | false =>
        have hbal := toNat_bal_lt hrows ha
        have hlt := hle a ha hadm
        rw [toInt_of_toNat_lt hbal] at hlt
        have hw : 5 * (request x).v0.toNat < 4 * a.bal.toNat + 5 := by omega
        have hint := toInt_finalBal hbal hw
        refine ⟨?_, fun a' ha' _ => ?_⟩
        · obtain ⟨r, hr, hbr⟩ := exists_of_find ha
          rw [Host.turn_reconcile hpc (reconcile_account ha hadm)]
          refine (lowered_setBalance hrows hr).mpr ?_
          rw [hint, hbr, toInt_of_toNat_lt hbal]
          omega
        · rw [honly ha']
          refine ⟨by omega, ?_, ?_⟩
          · rw [(finalBal_eq hbal hw).2]
            omega
          · rw [hint, Int.tdiv_eq_ediv_of_nonneg (by omega)]
            omega

theorem reconciles_safely_of_300 : ReconcilesSafely 0 (encrypted 300 0) oneAccount := by
  refine (reconciles_safely_iff rfl oneAccount_nonneg).mpr fun a ha _ => ?_
  rw [requester, request_encrypted] at ha
  obtain rfl : (⟨0, false, 1000⟩ : Account) = a := Option.some.inj ha
  rw [request_encrypted]
  decide

/-- An entry with twice the balance, which no check stops: the account is credited. -/
theorem account_credited_by_entry : ¬ ReconcilesSafely 0 (encrypted 2000 0) oneAccount ∧
    (oneAccount.turn 0 5 (encrypted 2000 0)).1.dataFromCSV = [⟨0, 0, 0, 2200⟩] := by
  have ha : requester 0 oneAccount.dataFromCSV (encrypted 2000 0) = some ⟨0, false, 1000⟩ := by
    rw [requester, request_encrypted]
    rfl
  have hrow : (oneAccount.turn 0 5 (encrypted 2000 0)).1.dataFromCSV = [⟨0, 0, 0, 2200⟩] := by
    rw [Host.turn_reconcile rfl (reconcile_account ha rfl), request_encrypted]
    decide
  refine ⟨fun h => ?_, hrow⟩
  have hl := h.lowered
  rw [hrow, Lowered, List.forall₂_cons] at hl
  exact absurd hl.1.2 (by decide)

/-! ### The withdrawals of an outage -/

theorem turn_of_spent {w : Nat} (hpc : h.pc = .head)
    (ha : requester bankID h.dataFromCSV x = some a) (hadm : a.isAdmin = false)
    (hb : a.bal.toNat < 2 ^ 31) (hw : w ≤ 4 * a.bal.toNat / 5)
    (hx : (request x).v0.toNat = 4 * a.bal.toNat / 5 - w) :
    h.turn bankID 5 x =
      (⟨.head, setBalance h.dataFromCSV a.inLineNum (.ofNat 32 (a.bal.toNat - w)),
        setBalance h.dataFromCSV a.inLineNum (.ofNat 32 (a.bal.toNat - w))⟩,
        Host.replyWrites (encrypt64 ⟨.ofNat 32 (4 * (a.bal.toNat - w) / 5), 0⟩)) := by
  have hf := (finalBal_eq hb (w := (request x).v0) (by omega)).1
  rw [show a.bal.toNat - (4 * a.bal.toNat - 5 * (request x).v0.toNat) / 5 = a.bal.toNat - w
    by omega] at hf
  have hn : (BitVec.ofNat 32 (a.bal.toNat - w)).toNat = a.bal.toNat - w := by
    rw [BitVec.toNat_ofNat]
    omega
  have hp : percent (.ofNat 32 (a.bal.toNat - w)) = .ofNat 32 (4 * (a.bal.toNat - w) / 5) := by
    rw [percent_eq (by omega), hn]
  rw [Host.turn_reconcile hpc (reconcile_account ha hadm), hf, hp]
  rfl

/-- A resync takes exactly what was spent from the account that the entry is of, and the entry that
comes back says so. -/
theorem resync_reconciles {w : Nat} (hpc : h.pc = .head)
    (ha : requester bankID h.dataFromCSV x = some a) (hadm : a.isAdmin = false)
    (h0 : 0 ≤ a.bal.toInt) (hw : w ≤ 4 * a.bal.toNat / 5)
    (hx : (request x).v0.toNat = 4 * a.bal.toNat / 5 - w) :
    let y := h.turn bankID 5 x
    let left := BitVec.ofNat 32 (4 * (a.bal.toNat - w) / 5)
    y.1.Holds (setBalance h.dataFromCSV a.inLineNum (.ofNat 32 (a.bal.toNat - w))) ∧
      (∀ n, n ≠ a.inLineNum → y.1.dataFromCSV[n]? = h.dataFromCSV[n]?) ∧
      y.2 = Host.replyWrites (encrypt64 ⟨left, 0⟩) ∧
      (w = 0 → y.1.dataFromCSV = h.dataFromCSV) ∧
      y.1.turn bankID 5 (encrypted left (request x).v1) = y := by
  have hb := toNat_lt_of_nonneg h0
  intro y left
  have hy : y = _ := turn_of_spent hpc ha hadm hb hw hx
  obtain ⟨r, hr, hbr⟩ := exists_of_find ha
  refine ⟨?_, fun n hn => ?_, ?_, ?_, ?_⟩
  · rw [hy]
    exact ⟨rfl, rfl⟩
  · rw [hy]
    simp [setBalance, hn.symm]
  · rw [hy]
  · rintro rfl
    rw [hy]
    refine (setBalance_eq_self_iff hr).mpr ?_
    rw [hbr, Nat.sub_zero, BitVec.ofNat_toNat, BitVec.setWidth_eq]
  · have hn : (BitVec.ofNat 32 (a.bal.toNat - w)).toNat = a.bal.toNat - w := by
      rw [BitVec.toNat_ofNat]
      omega
    have hreq : request (encrypted left (request x).v1) = ⟨left, (request x).v1⟩ :=
      request_encrypted _ _
    have ha' : requester bankID y.1.dataFromCSV (encrypted left (request x).v1) =
        some { a with bal := .ofNat 32 (a.bal.toNat - w) } := by
      rw [requester, hreq, hy]
      exact find_setBalance ha
    have hleft : (request (encrypted left (request x).v1)).v0.toNat =
        4 * (a.bal.toNat - w) / 5 - 0 := by
      rw [hreq, BitVec.toNat_ofNat]
      omega
    obtain ⟨r', hr', hbr'⟩ := exists_of_find ha'
    have hsame : setBalance y.1.dataFromCSV a.inLineNum (.ofNat 32 (a.bal.toNat - w)) =
        y.1.dataFromCSV := (setBalance_eq_self_iff hr').mpr hbr'.symm
    rw [turn_of_spent (w := 0) (by rw [hy]) ha' hadm (by rw [hn]; omega) (Nat.zero_le _)
      (by rw [hn]; exact hleft), hn, Nat.sub_zero, hsame, hy]

theorem resync_reconciles_500 :
    (oneAccount.turn 0 5 (encrypted 300 0)).1.Holds [⟨0, 0, 0, 500⟩] ∧
      (oneAccount.turn 0 5 (encrypted 300 0)).2 = Host.replyWrites (encrypt64 ⟨400, 0⟩) := by
  have ha : requester 0 oneAccount.dataFromCSV (encrypted 300 0) = some ⟨0, false, 1000⟩ := by
    rw [requester, request_encrypted]
    rfl
  obtain ⟨hh, -, hr, -⟩ := resync_reconciles (w := 500) rfl ha rfl (by decide) (by decide)
    (by rw [request_encrypted]; rfl)
  exact ⟨hh, hr⟩

end AtmController.Backend
