import AtmController.Frontend.Progress

namespace AtmController.Frontend

open Slice

def Main.blinksLeft (m : Main) : Nat :=
  2 * (m.notesToBeDispensed.n2000 + m.notesToBeDispensed.n1000 + m.notesToBeDispensed.n500 +
    m.notesToBeDispensed.n100) + m.timeGap.toNat

/-- A bound on the cycles that a state with blinking leds lasts. -/
def Main.cyclesLeft (g : Generics) (m : Main) : Nat :=
  (m.blinksLeft + (g.maxNoOfBlinks - m.ledBlinkCounter)) * (g.N + 1) + (g.N - m.timeCounter)

namespace Main

variable {g : Generics} {m : Main}

theorem blinkNote_spec {fewer : NoteCounters} {on : BitVec 4} {k : Nat}
    (hk : k = fewer.n2000 + fewer.n1000 + fewer.n500 + fewer.n100)
    (hm : m.notesToBeDispensed.n2000 + m.notesToBeDispensed.n1000 + m.notesToBeDispensed.n500 +
      m.notesToBeDispensed.n100 = k + 1) :
    (m.timeCounter = g.N → (m.blinkNote g fewer on).blinksLeft + 1 = m.blinksLeft) ∧
      (m.timeCounter ≠ g.N → (m.blinkNote g fewer on).blinksLeft = m.blinksLeft) := by
  cases hg : m.timeGap <;> by_cases hN : m.timeCounter = g.N <;>
    simp only [blinkNote, blinksLeft, hg, hN, hm] <;> split_ifs <;> simp_all
  omega

theorem blinkNotes_spec (g : Generics) (m : Main) :
    m.blinkNotes g = m.finishBlinks g ∨
      (m.blinkNotes g).systemState = m.systemState ∧
        (m.timeCounter = g.N → (m.blinkNotes g).blinksLeft + 1 = m.blinksLeft) ∧
        (m.timeCounter ≠ g.N → (m.blinkNotes g).blinksLeft = m.blinksLeft) := by
  have hst (fewer : NoteCounters) (on : BitVec 4) :
      (m.blinkNote g fewer on).systemState = m.systemState := by
    obtain ⟨l, n', b, h⟩ := exists_blinkNote g fewer on m
    rw [h]
  simp only [blinkNotes]
  split_ifs with h₁ h₂ h₃ h₄
  · exact .inr ⟨hst _ _, blinkNote_spec rfl (by simp only; omega)⟩
  · exact .inr ⟨hst _ _, blinkNote_spec rfl (by simp only; omega)⟩
  · exact .inr ⟨hst _ _, blinkNote_spec rfl (by simp only; omega)⟩
  · exact .inr ⟨hst _ _, blinkNote_spec rfl (by simp only; omega)⟩
  · exact .inl rfl

theorem finishBlinks_spec (g : Generics) (m : Main) :
    ∃ l q, m.finishBlinks g = { m with ledOut := l, systemState := q } ∧
      (q = .dummy ∨ q = m.systemState ∧ m.ledBlinkCounter ≠ g.maxNoOfBlinks) := by
  simp only [finishBlinks]
  split
  · exact ⟨_, _, rfl, .inl rfl⟩
  · next h => exact ⟨_, _, rfl, .inr ⟨rfl, h⟩⟩

theorem countBlinks_spec (g : Generics) (m : Main) :
    ∃ l, m.countBlinks g = { m with
      ledOut := l
      ledBlinkCounter := if m.ledBlinkCounter ≠ g.maxNoOfBlinks ∧ m.timeCounter = g.N
        then m.ledBlinkCounter + 1 else m.ledBlinkCounter } := by
  simp only [countBlinks, blink]
  split_ifs <;> first | exact ⟨_, rfl⟩ | simp_all

end Main

namespace Atm

open Main Cipher

variable {g : Generics} {c : BitVec 7} {d : Durable} {a : NoteAllocator} {v x : BitVec 64}
  {acc adm : Bool} {k n w : Nat} {i : AtmEdge} {s : Atm} {m : Main}

/-! ### The answer -/

structure Decrypting (g : Generics) (c : BitVec 7) (d : Durable) (a : NoteAllocator)
    (v x : BitVec 64) (account admin : Bool) (n : Nat) (s : Atm) : Prop
    extends Pending g c d a v s where
  state : s.systemState = .decrypt
  account : s.adequateCashInAccount = account
  admin : s.userIsAdmin = admin
  deInput : s.deInput = x
  startDecrypt : s.startDecrypt = decide (1 ≤ n)
  decrypter : WorkingAt 0xC6EF3720 decryptCycle x s.startDecrypt (n - 1) s.decrypter

theorem Waiting.lastByte
    (h : Waiting g c d a v (fun j => Slice.byte x j) 7 acc adm w s) (hr : i.debouncedReset = false)
    (hc : i.chanAddr.toNat = 17) (hv : i.h2fValid = true) (hb : i.h2fData = Slice.byte x 7)
    (hw : w + 1 < 31 * (g.N + 1)) :
    Decrypting g i.chanAddr d (NoteAllocator.clock ⟨false, true, d.stock, d.limits, low v⟩ a) v x
      acc adm 0 (s.clock g i) := by
  have h9 : i.chanAddr ≠ 9 := fun h9 => by rw [h9] at hc; exact absurd hc (by decide)
  obtain ⟨l, t, y, ht, hy, hm⟩ := clock_communicating (g := g) h.state hr
  rw [status_of_ne _ _ h9] at hm hy
  have hcol := h.collected.collect (by omega) hv hc hb
  have hF := hcol.complete
  have ht31 : t ≠ 31 := timeOutCounter_ne (by rw [h.waited]; exact hw) ht
  have hyx : y = x := by
    rw [hy hF]
    exact ext_bytes (m := 8) fun j hj => hcol.bytes j hj
  rw [if_neg ht31, if_pos hF, hyx] at hm
  obtain ⟨r', c', hc⟩ := exists_collect 10 i s.toMain
  rw [hc] at hm
  have hsd : (s.clock g i).startDecrypt = false := by rw [hm]; exact h.startDecrypt
  have hidle : (s.clock g i).decrypter.Idle := clock_stop hr h.startDecrypt
  exact { h.toPending.clock hr hm h.durable rfl rfl with
    state := by rw [hm]; rfl
    account := by rw [hm]; exact h.account
    admin := by rw [hm]; exact h.admin
    deInput := by rw [hm]; rfl
    startDecrypt := hsd
    decrypter := hidle.workingAt _ }

theorem clock_decrypter_at
    (h : WorkingAt 0xC6EF3720 decryptCycle x s.startDecrypt (n - 1) s.decrypter)
    (hs : s.startDecrypt = decide (1 ≤ n)) (hx : s.deInput = x) (hr : i.debouncedReset = false) :
    WorkingAt 0xC6EF3720 decryptCycle x true n (s.clock g i).decrypter := by
  have hcount : (if s.startDecrypt then n - 1 + 1 else 0) = n := by
    rw [hs]
    rcases Nat.eq_zero_or_pos n with rfl | hpos
    · rfl
    · rw [decide_eq_true (show 1 ≤ n from hpos)]
      exact Nat.sub_add_cancel hpos
  have hw := h.clock
  rw [hcount] at hw
  change WorkingAt _ _ _ _ _ (Decrypter.clock ⟨i.debouncedReset, s.startDecrypt, s.deInput⟩ _)
  rw [hr, hx]
  exact hw

theorem Decrypting.clock
    (h : Decrypting g c d a v x acc adm n s) (hn : n < 34) (hr : i.debouncedReset = false) :
    Decrypting g i.chanAddr d (NoteAllocator.clock ⟨false, true, d.stock, d.limits, low v⟩ a) v x
      acc adm (n + 1) (s.clock g i) := by
  have hm := clock_of_not_ready (g := g) hr (s := s) (by simp [h.state])
  have hd : s.decryptionOver = false := by
    rw [decryptionOver, h.decrypter.1.2.1]
    exact decide_eq_false (by omega)
  simp only [branch, h.state, decrypt, hd, blink, Bool.false_eq_true, if_false] at hm
  have hsd : (s.clock g i).startDecrypt = true := by rw [hm]; rfl
  have hw := clock_decrypter_at (g := g) h.decrypter h.startDecrypt h.deInput hr
  exact { h.toPending.clock hr hm h.durable rfl rfl with
    state := by rw [hm]; rfl
    account := by rw [hm]; exact h.account
    admin := by rw [hm]; exact h.admin
    deInput := by rw [hm]; exact h.deInput
    startDecrypt := by rw [hsd, decide_eq_true (show 1 ≤ n + 1 by omega)]
    decrypter := by rw [hsd]; exact hw }

structure Settling (g : Generics) (c : BitVec 7) (d : Durable) (a : NoteAllocator)
    (v x : BitVec 64) (account : Bool) (q : SystemState) (s : Atm) : Prop
    extends Pending g c d a v s where
  state : s.systemState = q
  account : s.adequateCashInAccount = account
  startDecrypt : s.startDecrypt = true
  decrypter : Finished 0xC6EF3720 decryptCycle x s.decrypter

theorem Decrypting.settling
    (h : Decrypting g c d a v x acc adm 34 s) (hr : i.debouncedReset = false) :
    Settling g i.chanAddr d (NoteAllocator.clock ⟨false, true, d.stock, d.limits, low v⟩ a) v x
      acc (if adm then .loadingCash else .dispensingCash) (s.clock g i) := by
  have hm := clock_of_not_ready (g := g) hr (s := s) (by simp [h.state])
  have hd : s.decryptionOver = true := by
    rw [decryptionOver, h.decrypter.1.2.1]
    rfl
  simp only [branch, h.state, decrypt, hd, h.admin, blink, if_true] at hm
  have hf : Finished 0xC6EF3720 decryptCycle x s.decrypter := ⟨33, le_rfl, h.decrypter.1⟩
  exact { h.toPending.clock hr hm h.durable rfl rfl with
    state := by rw [hm]; rfl
    account := by rw [hm]; exact h.account
    startDecrypt := by rw [hm]; rfl
    decrypter := hf.clock hr h.startDecrypt }

theorem Settling.deOutput {q : SystemState}
    (h : Settling g c d a v x acc q s) : s.deOutput = decipher x :=
  h.decrypter.output.trans (result_decrypt x)

/-! ### The notes move -/

structure Dispensed (g : Generics) (c : BitVec 7) (d : Durable) (a : NoteAllocator)
    (v : BitVec 64) (s : Atm) : Prop extends Underway g c d a v s where
  state : s.systemState = .dispensingCash
  done : s.dispensingDoneAlready = true
  ledBlinkCounter : s.ledBlinkCounter ≤ g.maxNoOfBlinks

def outcome (s : Atm) : Durable :=
  if s.adequateCashInAccount = true ∧ s.adequateCashInAtm = true then
    { s.durable with stock := s.removeNotes, cache := s.dispenseCache }
  else { s.durable with cache := s.refuseCache }

theorem countBlinks_ledBlinkCounter_le (h : m.ledBlinkCounter ≤ g.maxNoOfBlinks) :
    (m.countBlinks g).ledBlinkCounter ≤ g.maxNoOfBlinks := by
  obtain ⟨l, hm⟩ := countBlinks_spec g m
  rw [hm]
  simp only
  split
  · omega
  · exact h

theorem countBlinks_progress {m₀ : Main} (hb : m₀.ledBlinkCounter ≤ g.maxNoOfBlinks)
    (ht : m₀.timeCounter ≤ g.N) (hbc : m.ledBlinkCounter = m₀.ledBlinkCounter)
    (htc : m.timeCounter = m₀.timeCounter)
    (hN : m.timeCounter = g.N →
      m.blinksLeft + 1 = m₀.blinksLeft ∨
        m.blinksLeft = m₀.blinksLeft ∧ m₀.ledBlinkCounter < g.maxNoOfBlinks)
    (hn : m.timeCounter ≠ g.N → m.blinksLeft = m₀.blinksLeft) :
    (tick g i (m.countBlinks g)).cyclesLeft g < m₀.cyclesLeft g := by
  obtain ⟨l, hm⟩ := countBlinks_spec g m
  rw [hbc, htc] at hm
  generalize hk : (if m₀.ledBlinkCounter ≠ g.maxNoOfBlinks ∧ m₀.timeCounter = g.N
    then m₀.ledBlinkCounter + 1 else m₀.ledBlinkCounter) = k at hm
  have hgoal : (tick g i (m.countBlinks g)).cyclesLeft g =
      (m.blinksLeft + (g.maxNoOfBlinks - k)) * (g.N + 1) +
        (g.N - if m₀.timeCounter = g.N then 0 else m₀.timeCounter + 1) := by
    rw [hm, ← htc]
    rfl
  rw [hgoal, cyclesLeft]
  by_cases hT : m₀.timeCounter = g.N
  · have hlt : m.blinksLeft + (g.maxNoOfBlinks - k) + 1 ≤
        m₀.blinksLeft + (g.maxNoOfBlinks - m₀.ledBlinkCounter) := by
      rcases hN (htc.trans hT) with h | ⟨h, hlt⟩
      · split at hk <;> omega
      · rw [if_pos ⟨by omega, hT⟩] at hk
        omega
    have hmul := Nat.mul_le_mul_right (g.N + 1) hlt
    rw [Nat.add_mul _ 1] at hmul
    rw [if_pos hT]
    omega
  · rw [if_neg fun h => hT h.2] at hk
    rw [if_neg hT, hn (by rw [htc]; exact hT), ← hk]
    omega

theorem refuse_of_done (g : Generics) (b : Nat) (h : s.dispensingDoneAlready = true) :
    ∃ l j, s.refuse g b =
      { s.toMain.finishBlinks g with ledOut := l, led4to7BlinkCounter := j } := by
  simp only [refuse, h, Bool.true_eq_false, if_false]
  split_ifs
  · exact ⟨_, _, rfl⟩
  · exact ⟨_, _, rfl⟩
  · exact ⟨_, _, rfl⟩

theorem Dispensed.cases (h : Dispensed g c d a v s) :
    ∃ m : Main, s.dispensingCash g = m.countBlinks g ∧ m.durable = d ∧
      started m = started s.toMain ∧ m.dispensingDoneAlready = true ∧
      m.ledBlinkCounter = s.ledBlinkCounter ∧ (m.systemState = .dummy ∨
        m.systemState = .dispensingCash ∧
        (m.timeCounter = g.N → m.blinksLeft + 1 = s.blinksLeft ∨
          m.blinksLeft = s.blinksLeft ∧ s.ledBlinkCounter < g.maxNoOfBlinks) ∧
        (m.timeCounter ≠ g.N → m.blinksLeft = s.blinksLeft)) := by
  have hle := h.ledBlinkCounter
  obtain ⟨l, q, hfb, hq⟩ := finishBlinks_spec g s.toMain
  have hfin : q = .dummy ∨ q = .dispensingCash ∧ s.ledBlinkCounter < g.maxNoOfBlinks := by
    rcases hq with rfl | ⟨rfl, hne⟩
    · exact .inl rfl
    · exact .inr ⟨h.state, by omega⟩
  by_cases hok : s.adequateCashInAccount = true ∧ s.adequateCashInAtm = true
  · have hdm : s.dispense g = s.toMain.blinkNotes g := by
      simp only [dispense, h.done, Bool.true_eq_false, if_false]
    rw [dispensingCash, if_pos hok, hdm]
    rcases blinkNotes_spec g s.toMain with hbn | ⟨hst, hN, hn⟩
    · rw [hbn, hfb]
      refine ⟨_, rfl, h.durable, rfl, h.done, rfl, ?_⟩
      rcases hfin with rfl | ⟨rfl, hlt⟩
      · exact .inl rfl
      · exact .inr ⟨rfl, fun _ => .inr ⟨rfl, hlt⟩, fun _ => rfl⟩
    · obtain ⟨l', n, b, q', hbn, -⟩ := exists_blinkNotes g s.toMain
      refine ⟨_, rfl, ?_, ?_, ?_, ?_, ?_⟩
      · rw [hbn]; exact h.durable
      · rw [hbn]
      · rw [hbn]; exact h.done
      · rw [hbn]
      · have htc : (s.toMain.blinkNotes g).timeCounter = s.timeCounter := by rw [hbn]
        rw [htc]
        exact .inr ⟨hst.trans h.state, fun hT => .inl (hN hT), hn⟩
  · have hr : ∃ b, s.dispensingCash g = (s.refuse g b).countBlinks g := by
      rw [dispensingCash, if_neg hok]
      split
      · exact ⟨_, rfl⟩
      · exact ⟨_, rfl⟩
    obtain ⟨b, hr⟩ := hr
    obtain ⟨l', j, href⟩ := refuse_of_done (s := s) g b h.done
    rw [hr, href, hfb]
    refine ⟨_, rfl, h.durable, rfl, h.done, rfl, ?_⟩
    rcases hfin with rfl | ⟨rfl, hlt⟩
    · exact .inl rfl
    · exact .inr ⟨rfl, fun _ => .inr ⟨rfl, hlt⟩, fun _ => rfl⟩

structure Over (g : Generics) (c : BitVec 7) (d : Durable) (a : NoteAllocator) (v : BitVec 64)
    (s : Atm) : Prop extends Underway g c d a v s where
  state : s.systemState = .dummy

theorem Underway.clock_of_finished {d' : Durable} (h : Underway g c d a v s)
    (ha : a.systemState = .finished) (hr : i.debouncedReset = false)
    (hm : (s.clock g i).toMain = tick g i m) (hd : m.durable = d')
    (hs : started m = started s.toMain) : Underway g i.chanAddr d' a v (s.clock g i) := by
  have hu := h.clock hr hm hd hs
  rwa [NoteAllocator.clock_finished rfl rfl ha] at hu

theorem Dispensed.clock (h : Dispensed g c d a v s) (ha : a.systemState = .finished)
    (hr : i.debouncedReset = false) :
    Over g i.chanAddr d a v (s.clock g i) ∨
      Dispensed g i.chanAddr d a v (s.clock g i) ∧
        (s.clock g i).cyclesLeft g < s.cyclesLeft g := by
  have hm := clock_of_not_ready (g := g) hr (s := s) (by simp [h.state])
  simp only [branch, h.state] at hm
  obtain ⟨m, hdc, hdu, hst, hdone, hbc, hq⟩ := h.cases
  rw [hdc] at hm
  obtain ⟨l, hcb⟩ := countBlinks_spec g m
  have hu : Underway g i.chanAddr d a v (s.clock g i) := by
    rw [hcb] at hm
    exact h.toUnderway.clock_of_finished ha hr hm hdu hst
  have hsys : (s.clock g i).systemState = m.systemState := by rw [hm, hcb]; rfl
  have htc : m.timeCounter = s.timeCounter := by
    simp only [Prod.mk.injEq] at hst
    exact hst.2.2.1
  rcases hq with hq | ⟨hq, hN, hn⟩
  · exact .inl { hu with state := hsys.trans hq }
  · refine .inr ⟨{ hu with state := hsys.trans hq, done := ?_, ledBlinkCounter := ?_ }, ?_⟩
    · rw [hm, hcb]; exact hdone
    · rw [hm]; exact countBlinks_ledBlinkCounter_le (hbc ▸ h.ledBlinkCounter)
    · rw [hm]; exact countBlinks_progress h.ledBlinkCounter h.timeCounter hbc htc hN hn

theorem Pending.dispense (h : Pending g c d a v s) (hs : s.systemState = .dispensingCash)
    (ha : a.systemState = .finished) (hr : i.debouncedReset = false) :
    Over g i.chanAddr s.outcome a v (s.clock g i) ∨
      Dispensed g i.chanAddr s.outcome a v (s.clock g i) := by
  have hm := clock_of_not_ready (g := g) hr (s := s) (by simp [hs])
  simp only [branch, hs] at hm
  have key : ∃ m : Main, s.dispensingCash g = m.countBlinks g ∧ m.durable = s.outcome ∧
      started m = started s.toMain ∧ m.dispensingDoneAlready = true ∧ m.ledBlinkCounter = 0 ∧
      (m.systemState = .dispensingCash ∨ m.systemState = .dummy) := by
    by_cases hok : s.adequateCashInAccount = true ∧ s.adequateCashInAtm = true
    · obtain ⟨l, n, b, q, hd, hq⟩ := exists_dispense g s
      refine ⟨s.dispense g, by rw [dispensingCash, if_pos hok], ?_⟩
      simp only [h.notDispensed, Bool.false_eq_true, if_false] at hd
      rw [hd, outcome, if_pos hok]
      exact ⟨rfl, rfl, rfl, h.ledBlinkCounter, by rwa [hs] at hq⟩
    · have href : ∃ b, s.dispensingCash g = (s.refuse g b).countBlinks g := by
        rw [dispensingCash, if_neg hok]
        split
        · exact ⟨_, rfl⟩
        · exact ⟨_, rfl⟩
      obtain ⟨b, href⟩ := href
      obtain ⟨l, n, q, hd, hq⟩ := exists_refuse g b s
      refine ⟨s.refuse g b, href, ?_⟩
      simp only [h.notDispensed, Bool.false_eq_true, if_false] at hd
      rw [hd, outcome, if_neg hok]
      exact ⟨rfl, rfl, rfl, h.ledBlinkCounter, by rwa [hs] at hq⟩
  obtain ⟨m, hdc, hdu, hst, hdone, hbc, hq⟩ := key
  rw [hdc] at hm
  obtain ⟨l, hcb⟩ := countBlinks_spec g m
  have hu : Underway g i.chanAddr s.outcome a v (s.clock g i) := by
    rw [hcb] at hm
    exact h.toUnderway.clock_of_finished ha hr hm hdu hst
  have hsys : (s.clock g i).systemState = m.systemState := by rw [hm, hcb]; rfl
  rcases hq with hq | hq
  · refine .inr { hu with state := hsys.trans hq, done := ?_, ledBlinkCounter := ?_ }
    · rw [hm, hcb]; exact hdone
    · rw [hm]; exact countBlinks_ledBlinkCounter_le (hbc ▸ Nat.zero_le _)
  · exact .inl { hu with state := hsys.trans hq }

structure Loading (g : Generics) (c : BitVec 7) (d : Durable) (a : NoteAllocator)
    (v x : BitVec 64) (s : Atm) : Prop extends Underway g c d a v s where
  state : s.systemState = .loadingCash
  ledBlinkCounter : s.ledBlinkCounter < g.maxNoOfBlinks
  startDecrypt : s.startDecrypt = true
  decrypter : Finished 0xC6EF3720 decryptCycle x s.decrypter

theorem loadingCash_spec (g : Generics) (s : Atm) : ∃ l k q,
    s.loadingCash g = { s.toMain with
      stock := noteBytes s.deOutput, ledBlinkCounter := k, ledOut := l, systemState := q } ∧
    (k = if s.timeCounter = g.N then s.ledBlinkCounter + 1 else s.ledBlinkCounter) ∧
    (q = .dummy ∧ k = g.maxNoOfBlinks ∨ q = s.systemState ∧ k ≠ g.maxNoOfBlinks) := by
  simp only [loadingCash, blink]
  split_ifs <;> exact ⟨_, _, _, rfl, rfl, by simp_all⟩

theorem Loading.clock (h : Loading g c d a v x s) (ha : a.systemState = .finished)
    (hr : i.debouncedReset = false) :
    Over g i.chanAddr { d with stock := noteBytes (decipher x) } a v (s.clock g i) ∨
      Loading g i.chanAddr { d with stock := noteBytes (decipher x) } a v x (s.clock g i) ∧
        (s.clock g i).cyclesLeft g < s.cyclesLeft g := by
  have hm := clock_of_not_ready (g := g) hr (s := s) (by simp [h.state])
  have hx : s.deOutput = decipher x := h.decrypter.output.trans (result_decrypt x)
  have hlt := h.ledBlinkCounter
  have ht := h.timeCounter
  obtain ⟨l, k, q, hl, hkN, hq⟩ := loadingCash_spec g s
  rw [hx] at hl
  rw [h.state] at hq
  simp only [branch, h.state, hl] at hm
  have hu : Underway g i.chanAddr { d with stock := noteBytes (decipher x) } a v (s.clock g i) := by
    refine h.toUnderway.clock_of_finished ha hr hm ?_ rfl
    rw [← h.durable]
    rfl
  rcases hq with ⟨rfl, -⟩ | ⟨rfl, hk⟩
  · exact .inl { hu with state := by rw [hm]; rfl }
  · have hk : k < g.maxNoOfBlinks := by split_ifs at hkN <;> omega
    refine .inr ⟨{ hu with
      state := by rw [hm]; rfl
      ledBlinkCounter := by rw [hm]; exact hk
      startDecrypt := by rw [hm]; exact h.startDecrypt
      decrypter := h.decrypter.clock hr h.startDecrypt }, ?_⟩
    have hcy : (s.clock g i).cyclesLeft g = (s.blinksLeft + (g.maxNoOfBlinks - k)) * (g.N + 1) +
        (g.N - if s.timeCounter = g.N then 0 else s.timeCounter + 1) := by
      rw [hm]
      rfl
    rw [hcy, cyclesLeft]
    by_cases hT : s.timeCounter = g.N
    · rw [if_pos hT] at hkN ⊢
      have hle : s.blinksLeft + (g.maxNoOfBlinks - k) + 1 =
          s.blinksLeft + (g.maxNoOfBlinks - s.ledBlinkCounter) := by omega
      rw [← hle, Nat.add_mul _ 1]
      omega
    · rw [if_neg hT] at hkN ⊢
      rw [hkN]
      omega

theorem Settling.load (h : Settling g c d a v x acc .loadingCash s) (hb : 0 < g.maxNoOfBlinks) :
    Loading g c d a v x s :=
  { h with ledBlinkCounter := by rw [h.toPending.ledBlinkCounter]; exact hb }

theorem Over.wait (h : Over g c d a v s) (ha : a.systemState = .finished)
    (hr : i.debouncedReset = false) (hd : i.debouncedDone = false) :
    Over g i.chanAddr d a v (s.clock g i) := by
  have hm := clock_of_not_ready (g := g) hr (s := s) (by simp [h.state])
  simp only [branch, h.state, dummy, hd, Bool.false_eq_true, if_false] at hm
  exact { h.toUnderway.clock_of_finished ha hr hm h.durable rfl with
    state := by rw [hm]; exact h.state }

theorem Over.confirm (h : Over g c d a v s) (ha : a.systemState = .finished)
    (hr : i.debouncedReset = false) (hd : i.debouncedDone = true) :
    Underway g i.chanAddr d a v (s.clock g i) ∧ (s.clock g i).systemState = .ready := by
  have hm := clock_of_not_ready (g := g) hr (s := s) (by simp [h.state])
  simp only [branch, h.state, dummy, hd, if_true] at hm
  exact ⟨h.toUnderway.clock_of_finished ha hr hm h.durable rfl, by rw [hm]; rfl⟩

/-! ### What the states of a transaction meet -/

/-- A search is not left in the middle; `b` tells whether an earlier one was. -/
def Holding (b : Bool) (s : Atm) : Prop :=
  s.startNoteAllocation = true ∨ s.noteAllocator.binarysearchStart = b

theorem Resting.holding (h : Resting g c d a s) : s.Holding a.binarysearchStart :=
  .inr (by rw [h.allocator]; rfl)

theorem Entered.holding {n : Nat} (h : Entered g c d a v n s) : s.Holding a.binarysearchStart := by
  cases n with
  | zero => exact .inr (by rw [h.allocator]; rfl)
  | succ n => exact .inl ((congrArg Session.startNoteAllocation h.session).trans (by simp))

theorem Underway.holding {b : Bool} (h : Underway g c d a v s) : s.Holding b :=
  .inl h.startNoteAllocation

/-- The limits are awaited and deciphered, up to the first transaction. -/
def Booting (b : Bool) (s : Atm) : Prop :=
  s.Holding b ∧ (s.systemState = .setup ∨ s.systemState = .decryptSetup ∨ s.systemState = .ready)

def Asking (b : Bool) (s : Atm) : Prop :=
  s.Holding b ∧ (s.systemState = .takingInput ∨ s.systemState = .noteAllocation ∨
    s.systemState = .encrypt ∨ s.systemState = .communicating)

def Opening (b : Bool) (s : Atm) : Prop := s.Holding b ∧ s.systemState = .ready ∨ s.Asking b

def Answered (acc adm : Bool) (s : Atm) : Prop :=
  s.startNoteAllocation = true ∧ s.systemState = .decrypt ∧ s.adequateCashInAccount = acc ∧
    s.userIsAdmin = adm

def Dispensing (acc atm : Bool) (s : Atm) : Prop :=
  s.startNoteAllocation = true ∧ s.systemState = .dispensingCash ∧
    s.adequateCashInAccount = acc ∧ s.adequateCashInAtm = atm

def Closing (b : Bool) (s : Atm) : Prop :=
  s.Holding b ∧ (s.systemState = .dummy ∨ s.systemState = .ready)

theorem Typing.asking {n : Nat} {l : Bool} (h : Typing g c d a v n l s) :
    s.Asking a.binarysearchStart :=
  ⟨h.holding, .inl h.state⟩

theorem Entered.asking {n : Nat} (h : Entered g c d a v n s) : s.Asking a.binarysearchStart := by
  have hst := h.state
  split at hst
  · exact ⟨h.holding, .inr (.inl hst)⟩
  · exact ⟨h.holding, .inr (.inr (.inl hst))⟩

theorem Waiting.asking {b : Bool} {r : Nat → BitVec 8} {n w : Nat}
    (h : Waiting g c d a v r n acc adm w s) : s.Asking b :=
  ⟨h.holding, .inr (.inr (.inr h.state))⟩

theorem Parked.opening (h : Parked g c d a s) : s.Opening a.binarysearchStart :=
  .inl ⟨h.holding, h.state⟩

theorem Parked.closing (h : Parked g c d a s) : s.Closing a.binarysearchStart :=
  ⟨h.holding, .inr h.state⟩

theorem Over.closing {b : Bool} (h : Over g c d a v s) : s.Closing b := ⟨h.holding, .inl h.state⟩

theorem Decrypting.answered {n : Nat} (h : Decrypting g c d a v x acc adm n s) :
    s.Answered acc adm :=
  ⟨h.startNoteAllocation, h.state, h.account, h.admin⟩

/-- Whatever is answered is granted or loaded, and whatever is dispensed is paid. -/
structure Served (s : Atm) : Prop where
  holding : s.Holding false
  answered : s.systemState ≠ .communicationLost
  granted : s.systemState = .decrypt → s.adequateCashInAccount = true ∨ s.userIsAdmin = true
  paid : s.systemState = .dispensingCash →
    s.adequateCashInAccount = true ∧ s.adequateCashInAtm = true

theorem Booting.served (h : s.Booting false) : s.Served := by
  obtain ⟨hh, h | h | h⟩ := h <;>
    exact ⟨hh, by simp [h], fun h' => by simp [h] at h', fun h' => by simp [h] at h'⟩

theorem Asking.served (h : s.Asking false) : s.Served := by
  obtain ⟨hh, h | h | h | h⟩ := h <;>
    exact ⟨hh, by simp [h], fun h' => by simp [h] at h', fun h' => by simp [h] at h'⟩

theorem Opening.served (h : s.Opening false) : s.Served := by
  rcases h with ⟨hh, h⟩ | h
  · exact ⟨hh, by simp [h], fun h' => by simp [h] at h', fun h' => by simp [h] at h'⟩
  · exact h.served

theorem Answered.served (h : s.Answered acc adm) (hg : acc = true ∨ adm = true) : s.Served := by
  obtain ⟨hn, h, rfl, rfl⟩ := h
  exact ⟨.inl hn, by simp [h], fun _ => hg, fun h' => by simp [h] at h'⟩

theorem Dispensing.served (h : s.Dispensing true true) : s.Served := by
  obtain ⟨hn, h, hp⟩ := h
  exact ⟨.inl hn, by simp [h], fun h' => by simp [h] at h', fun _ => hp⟩

theorem served_of_loadingCash (hn : s.startNoteAllocation = true)
    (h : s.systemState = .loadingCash) : s.Served :=
  ⟨.inl hn, by simp [h], fun h' => by simp [h] at h', fun h' => by simp [h] at h'⟩

theorem Closing.served (h : s.Closing false) : s.Served := by
  obtain ⟨hh, h | h⟩ := h <;>
    exact ⟨hh, by simp [h], fun h' => by simp [h] at h', fun h' => by simp [h] at h'⟩

theorem account_clock (hr : i.debouncedReset = false) (hs : s.systemState = .dispensingCash) :
    (s.clock g i).adequateCashInAccount = s.adequateCashInAccount := by
  have hm := clock_of_not_ready (g := g) hr (s := s) (by simp [hs])
  have hb := branch_dispensingCash (g := g) (i := i) hs
  simp only [branch, hs] at hm
  generalize s.dispensingCash g = m at hb hm
  rw [hm]
  cases hb with
  | dispense | refuse | dispensed => rfl
  | _ => simp_all

/-! ### Service from the cache -/

theorem Lost.serve {entry : BitVec 64} (h : Lost g c d a v s)
    (hr : i.debouncedReset = false) (he : s.communicationLost = s.serveFromCache entry) :
    Pending g i.chanAddr { d with cacheMode := true }
        (NoteAllocator.clock ⟨false, true, d.stock, d.limits, low v⟩ a) v (s.clock g i) ∧
      (s.clock g i).systemState = .dispensingCash ∧
      (s.clock g i).adequateCashInAccount = decide (low v ≤ low entry) := by
  have hm := clock_of_not_ready (g := g) hr (s := s) (by simp [h.state])
  simp only [branch, h.state, he, serveFromCache] at hm
  refine ⟨h.toPending.clock hr hm ?_ rfl rfl, by rw [hm]; rfl, by rw [hm, ← h.enInput]; rfl⟩
  rw [← h.durable]
  rfl

end Atm

end AtmController.Frontend
