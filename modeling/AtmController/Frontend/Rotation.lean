import AtmController.Frontend.Collection
import AtmController.Frontend.OfflineWithdrawals

namespace AtmController.Frontend

open Clocked Slice

def Cache.exchanged (c : Cache) (r : BitVec 64) : Cache :=
  ⟨c.cache4, join (high c.cache1) (low (decipher r)), c.cache2, c.cache3⟩

namespace Atm

open Main Cipher

variable {g : Generics} {i : AtmEdge} {s : Atm} {c : Cache} {r : BitVec 64} {k n : Nat}

/-- At the beginning of a round: `k` rounds are over, and the cache is `c`. -/
structure Entering (k : Nat) (c : Cache) (s : Atm) : Prop where
  state : s.systemState = .communicationRegained
  count : s.cacheUpdateCount = k
  cache : s.cache = c
  startEncrypt : s.startEncrypt = false
  notOver : s.encryptionOver = false

structure Encrypting (k : Nat) (c : Cache) (n : Nat) (s : Atm) : Prop where
  state : s.systemState = .communicationRegained
  count : s.cacheUpdateCount = k
  cache : s.cache = c
  enInput : s.enInput = c.cache1
  startEncrypt : s.startEncrypt = true
  encrypter : WorkingAt 0 encryptCycle c.cache1 true n s.encrypter
  startDecrypt : s.startDecrypt = false
  decrypter : n = 0 ∨ s.decrypter.Idle
  checksum : s.checksumForBackendResponse = 0

structure Presenting (k : Nat) (c : Cache) (r : BitVec 64) (j : Nat) (s : Atm) : Prop where
  state : s.systemState = .communicateCache
  count : s.cacheUpdateCount = k
  cache : s.cache = c
  startEncrypt : s.startEncrypt = false
  startDecrypt : s.startDecrypt = false
  decrypter : s.decrypter.Idle
  collected : s.Collected (byte r) j

structure Updating (k : Nat) (c : Cache) (r : BitVec 64) (n : Nat) (s : Atm) : Prop where
  state : s.systemState = .updateCache
  count : s.cacheUpdateCount = k
  cache : s.cache = c
  startEncrypt : s.startEncrypt = false
  encrypter : s.encrypter.Idle
  deInput : s.deInput = r
  startDecrypt : s.startDecrypt = decide (1 ≤ n)
  decrypter : WorkingAt 0xC6EF3720 decryptCycle r s.startDecrypt (n - 1) s.decrypter

theorem Parked.reconnect {d : Durable} {b : BitVec 7} {a : NoteAllocator} (h : Parked g b d a s)
    (hm : d.cacheMode = true) (hb : b ≠ 0) (hr : i.debouncedReset = false) (hi : i.chanAddr = 0) :
    Entering 0 d.cache (s.clock g i) ∧ (s.clock g i).bankId = d.bankId := by
  have hd := h.durable
  have hrec : s.Reconnects i := by
    refine ⟨?_, hi, ?_, h.state⟩
    · rw [← hm, ← hd]
      rfl
    · rw [h.addr, hi]
      exact hb
  have hse : s.startEncrypt = false := congrArg Session.startEncrypt h.session
  have hm₁ : (s.clock g i).toMain = tick g i s.reconnect := by
    simp only [Atm.clock, mainProcess, hr, if_pos hrec, Bool.false_eq_true, if_false]
  refine ⟨{
    state := by rw [hm₁]; rfl
    count := by rw [hm₁]; exact congrArg Session.cacheUpdateCount h.session
    cache := by rw [hm₁, ← hd]; rfl
    startEncrypt := by rw [hm₁]; rfl
    notOver := (clock_stop hr hse).2 }, ?_⟩
  rw [hm₁, ← hd]
  rfl

theorem Entering.clock (h : Entering k c s) (hk : k ≠ 4) (hr : i.debouncedReset = false) :
    Encrypting k c 0 (s.clock g i) := by
  have hm := clock_of_not_ready (g := g) hr (s := s) (by simp [h.state])
  have hk4 : s.cacheUpdateCount ≠ 4 := by rw [h.count]; exact hk
  simp only [branch, h.state, communicationRegained, h.startEncrypt, if_true, hk4, if_false,
    h.notOver, Bool.false_eq_true, blink] at hm
  exact {
    state := by rw [hm]; rfl
    count := by rw [hm]; exact h.count
    cache := by rw [hm]; exact h.cache
    enInput := by rw [hm, ← h.cache]; rfl
    startEncrypt := by rw [hm]; rfl
    encrypter := (clock_stop hr h.startEncrypt).workingAt true
    startDecrypt := by rw [hm]; rfl
    decrypter := .inl rfl
    checksum := by rw [hm]; rfl }

theorem Entering.ready (h : Entering 4 c s) (hr : i.debouncedReset = false) :
    (s.clock g i).systemState = .ready ∧ (s.clock g i).cacheMode = false ∧
      (s.clock g i).cache = c := by
  have hm := clock_of_not_ready (g := g) hr (s := s) (by simp [h.state])
  simp only [branch, h.state, communicationRegained, h.startEncrypt, if_true, h.count, blink] at hm
  exact ⟨by rw [hm]; rfl, by rw [hm]; rfl, by rw [hm]; exact h.cache⟩

theorem Encrypting.clock (h : Encrypting k c n s) (hk : k ≠ 4) (hn : n < 33)
    (hr : i.debouncedReset = false) : Encrypting k c (n + 1) (s.clock g i) := by
  have hm := clock_of_not_ready (g := g) hr (s := s) (by simp [h.state])
  have hk4 : s.cacheUpdateCount ≠ 4 := by rw [h.count]; exact hk
  have ho : s.encryptionOver = false := by
    rw [encryptionOver, h.encrypter.1.2.1]
    exact decide_eq_false (by omega)
  simp only [branch, h.state, communicationRegained, h.startEncrypt, Bool.true_eq_false,
    Bool.false_eq_true, hk4, if_false, ho, blink] at hm
  have hw := h.encrypter.clock
  exact {
    state := by rw [hm]; rfl
    count := by rw [hm]; exact h.count
    cache := by rw [hm]; exact h.cache
    enInput := by rw [hm]; exact h.enInput
    startEncrypt := by rw [hm]; rfl
    encrypter := by
      change WorkingAt _ _ _ _ _ (Encrypter.clock ⟨i.debouncedReset, s.startEncrypt, s.enInput⟩ _)
      rw [hr, h.startEncrypt, h.enInput]
      exact hw
    startDecrypt := by rw [hm]; exact h.startDecrypt
    decrypter := .inr (clock_stop hr h.startDecrypt)
    checksum := by rw [hm]; exact h.checksum }

theorem Encrypting.present (h : Encrypting k c 33 s) (hk : k ≠ 4) (hr : i.debouncedReset = false) :
    Presenting k c r 0 (s.clock g i) ∧ (s.clock g i).enOutput = encipher c.cache1 := by
  have hm := clock_of_not_ready (g := g) hr (s := s) (by simp [h.state])
  have hk4 : s.cacheUpdateCount ≠ 4 := by rw [h.count]; exact hk
  have hf : Finished 0 encryptCycle c.cache1 s.encrypter := ⟨33, le_rfl, h.encrypter.1⟩
  simp only [branch, h.state, communicationRegained, h.startEncrypt, Bool.true_eq_false, hk4,
    if_false, encryptionOver, hf.done, if_true, blink] at hm
  refine ⟨{
    state := by rw [hm]; rfl
    count := by rw [hm]; exact h.count
    cache := by rw [hm]; exact h.cache
    startEncrypt := by rw [hm]; rfl
    startDecrypt := by rw [hm]; exact h.startDecrypt
    decrypter := clock_stop hr h.startDecrypt
    collected := .zero (by rw [hm]; exact h.checksum) }, ?_⟩
  exact (hf.clock hr h.startEncrypt).output.trans (result_encrypt _)

theorem Presenting.clock {j j' : Nat} (h : Presenting k c r j s) (hr : i.debouncedReset = false)
    (hj : j' < 8) (hcol : (s.collect 10 i).Collected (byte r) j') :
    Presenting k c r j' (s.clock g i) := by
  have hm := clock_of_not_ready (g := g) hr (s := s) (by simp [h.state])
  obtain ⟨r', c', hc⟩ := exists_collect 10 i s.toMain
  rw [hc] at hcol
  have hN : c' ≠ 0b11111111 := hcol.incomplete hj
  simp only [branch, h.state, communicateCache, hc, blink] at hm
  rw [if_neg hN] at hm
  exact {
    state := by rw [hm]; rfl
    count := by rw [hm]; exact h.count
    cache := by rw [hm]; exact h.cache
    startEncrypt := by rw [hm]; exact h.startEncrypt
    startDecrypt := by rw [hm]; exact h.startDecrypt
    decrypter := clock_stop hr h.startDecrypt
    collected := by rw [hm]; exact hcol.congr rfl rfl }

theorem Presenting.take (h : Presenting k c r 7 s) (hr : i.debouncedReset = false)
    (hcol : (s.collect 10 i).Collected (byte r) 8) : Updating k c r 0 (s.clock g i) := by
  have hm := clock_of_not_ready (g := g) hr (s := s) (by simp [h.state])
  obtain ⟨r', c', hc⟩ := exists_collect 10 i s.toMain
  rw [hc] at hcol
  have hF : c' = 0b11111111 := hcol.complete
  have hx : r' = r := ext_bytes (m := 8) fun j hj => hcol.bytes j hj
  simp only [branch, h.state, communicateCache, hc, blink] at hm
  rw [if_pos hF, hx] at hm
  have hsd : (s.clock g i).startDecrypt = false := by rw [hm]; exact h.startDecrypt
  exact {
    state := by rw [hm]; rfl
    count := by rw [hm]; exact h.count
    cache := by rw [hm]; exact h.cache
    startEncrypt := by rw [hm]; exact h.startEncrypt
    encrypter := clock_stop hr h.startEncrypt
    deInput := by rw [hm]; rfl
    startDecrypt := hsd
    decrypter := Idle.workingAt (clock_stop hr h.startDecrypt) _ }

theorem Updating.clock (h : Updating k c r n s) (hn : n < 34) (hr : i.debouncedReset = false) :
    Updating k c r (n + 1) (s.clock g i) := by
  have hm := clock_of_not_ready (g := g) hr (s := s) (by simp [h.state])
  have hd : s.decryptionOver = false := by
    rw [decryptionOver, h.decrypter.1.2.1]
    exact decide_eq_false (by omega)
  simp only [branch, h.state, updateCache, hd, blink, Bool.false_eq_true, if_false] at hm
  have hsd : (s.clock g i).startDecrypt = true := by rw [hm]; rfl
  have hw := clock_decrypter_at (g := g) h.decrypter h.startDecrypt h.deInput hr
  exact {
    state := by rw [hm]; rfl
    count := by rw [hm]; exact h.count
    cache := by rw [hm]; exact h.cache
    startEncrypt := by rw [hm]; exact h.startEncrypt
    encrypter := clock_stop hr h.startEncrypt
    deInput := by rw [hm]; exact h.deInput
    startDecrypt := by rw [hsd, decide_eq_true (show 1 ≤ n + 1 by omega)]
    decrypter := by rw [hsd]; exact hw }

theorem clock_bankId (hs : s.systemState ≠ .ready) : (s.clock g i).bankId = s.bankId := by
  have he := clock_cases g i s
  generalize (s.clock g i).toMain = m at he
  cases he with
  | reset hr => rfl
  | reconnect hr hc => rfl
  | branch m hr hc hb =>
    cases hb with
    | ready b l h => exact absurd h hs
    | _ => rfl

theorem not_reset_of_not_ready (hs : (s.clock g i).systemState ≠ .ready) :
    i.debouncedReset = false := by
  have he := clock_cases g i s
  generalize (s.clock g i).toMain = m at he hs
  cases he with
  | reset hr => exact absurd rfl hs
  | reconnect hr hc => exact hr
  | branch m hr hc hb => exact hr

theorem Updating.rotate (h : Updating k c r 34 s) (hr : i.debouncedReset = false) :
    Entering (k + 1) (c.exchanged r) (s.clock g i) := by
  have hm := clock_of_not_ready (g := g) hr (s := s) (by simp [h.state])
  have hf : Finished 0xC6EF3720 decryptCycle r s.decrypter := ⟨33, le_rfl, h.decrypter.1⟩
  have hx : s.deOutput = decipher r := hf.output.trans (result_decrypt r)
  simp only [branch, h.state, updateCache, decryptionOver, hf.done, hx, if_true, blink] at hm
  exact {
    state := by rw [hm]; rfl
    count := by rw [hm]; exact congrArg (· + 1) h.count
    cache := by rw [hm, ← h.cache]; rfl
    startEncrypt := by rw [hm]; exact h.startEncrypt
    notOver := (clock_stop hr h.startEncrypt).2 }

end Atm

/-- The replies of the host, one for each round. It writes the bytes of a reply in order and with
any idle cycles once the ATM presents a record; what it does while the ATM enciphers and deciphers
does not matter. -/
inductive Replies : List (BitVec 64) → List Pins → Prop
  | nil (p) : Replies [] [p]
  | cons (r rs w b u ps) : w.length = 35 → Sends (byte r) 0 b → u.length = 35 → Replies rs ps →
      Replies (r :: rs) (w ++ b ++ u ++ ps)

namespace TopLevel

open Atm

variable {g : Generics} {c : Cache} {r : BitVec 64} {k : Nat} {p : Pins}
  {x : TopLevel × List (BitVec 64)}

/-- The top level with the records it has presented: one more whenever 01101 is entered. -/
abbrev presenting (g : Generics) :
    Pins → TopLevel × List (BitVec 64) → TopLevel × List (BitVec 64) :=
  ghost (clock g) fun p t l =>
    if t.atm.systemState ≠ .communicateCache ∧
        (clock g p t).atm.systemState = .communicateCache then
      l ++ [decipher (clock g p t).atm.enOutput]
    else l

theorem presenting_snd_of_ne {q : SystemState}
    (h : (x.1.atm.clock g (x.1.edge p)).systemState = q) (hq : q ≠ .communicateCache) :
    (presenting g p x).2 = x.2 := if_neg fun h' => hq (h.symm.trans h'.2)

theorem presenting_snd_of_eq (h : x.1.atm.systemState = .communicateCache) :
    (presenting g p x).2 = x.2 := if_neg fun h' => h'.1 h

theorem Entering.presents (h : Entering k c x.1.atm) (hk : k ≠ 4) {w : List Pins}
    (hw : w.length = 35) (hr : Runs (presenting g) (fun p y => NoReset p y.1) x w) :
    let y := run (presenting g) x w
    Presenting k c r 0 y.1.atm ∧ y.1.atm.enOutput = encipher c.cache1 ∧
      y.1.atm.bankId = x.1.atm.bankId ∧ y.2 = x.2 ++ [c.cache1] := by
  obtain ⟨p, w, rfl⟩ := List.exists_cons_of_length_pos (l := w) (by omega)
  obtain ⟨w, q, rfl⟩ := List.eq_nil_or_concat' w |>.resolve_left (by rintro rfl; simp at hw)
  obtain ⟨hp, hr⟩ := hr
  obtain ⟨hr, hq⟩ := (runs_concat w q).mp hr
  have hw : w.length = 33 := by simpa using hw
  have hbank {q : SystemState} {s : Atm} {i : AtmEdge} (hs : s.systemState = q) (hq : q ≠ .ready)
      (hb : s.bankId = x.1.atm.bankId) : (s.clock g i).bankId = x.1.atm.bankId :=
    (clock_bankId (by rw [hs]; exact hq)).trans hb
  have h₀ := h.clock (g := g) hk hp
  obtain ⟨h₁, hb, hl⟩ := hr.progress (P := fun n y => Encrypting k c n y.1.atm ∧
      y.1.atm.bankId = x.1.atm.bankId ∧ y.2 = x.2)
    (m := 33) (n := 0) (fun n hn p y hp ⟨hy, hb, hl⟩ => by
      have hy' := hy.clock (g := g) hk hn hp
      exact ⟨hy', hbank hy.state (by decide) hb,
        (presenting_snd_of_ne hy'.state (by decide)).trans hl⟩)
    ⟨h₀, hbank h.state (by decide) rfl, presenting_snd_of_ne h₀.state (by decide)⟩ (by omega)
  simp only [run_cons, run_concat]
  rw [Nat.zero_add, hw] at h₁
  generalize run (presenting g) (presenting g p x) w = y at *
  obtain ⟨h₂, ho⟩ := h₁.present (g := g) (r := r) hk hq
  refine ⟨h₂, ho, hbank h₁.state (by decide) hb, ?_⟩
  have hlog : (presenting g q y).2 = y.2 ++ [decipher (y.1.atm.clock g (y.1.edge q)).enOutput] :=
    if_pos ⟨by rw [h₁.state]; decide, h₂.state⟩
  rw [hlog, hl, ho, decipher_encipher]

theorem Sends.updates {j : Nat} {b : List Pins} (h : Sends (byte r) j b) (hj : j < 8)
    (hr : Runs (presenting g) (fun p y => NoReset p y.1) x b)
    (hx : Presenting k c r j x.1.atm) :
    Updating k c r 0 (run (presenting g) x b).1.atm ∧ (run (presenting g) x b).2 = x.2 := by
  induction h generalizing x with
  | nil => exact absurd hj (by omega)
  | idle p ps _ hp _ ih =>
    have hcol : x.1.atm.collect 10 (x.1.edge p) = x.1.atm.toMain := by
      cases hv : p.h2fValid with
      | false => exact Main.collect_of_not_valid 10 _ _ hv
      | true => exact Main.collect_of_lt 10 _ _ (show p.chanAddr.toNat < 10 by have := hp hv; omega)
    have hx' := hx.clock (g := g) hr.1 hj (by rw [hcol]; exact hx.collected)
    obtain ⟨hu, hl⟩ := ih hj hr.2 hx'
    exact ⟨hu, hl.trans (presenting_snd_of_eq hx.state)⟩
  | @byte p ps k' _ hv ha hd hps ih =>
    have hcol : (x.1.atm.collect 10 (x.1.edge p)).Collected (byte r) (k' + 1) :=
      hx.collected.collect hj hv ha hd
    rcases Nat.lt_or_eq_of_le (Nat.succ_le_of_lt hj) with hlt | heq
    · obtain ⟨hu, hl⟩ := ih hlt hr.2 (hx.clock (g := g) hr.1 hlt hcol)
      exact ⟨hu, hl.trans (presenting_snd_of_eq hx.state)⟩
    · obtain rfl : k' = 7 := by omega
      cases hps with
      | nil => exact ⟨hx.take hr.1 hcol, presenting_snd_of_eq hx.state⟩
      | idle _ _ h8 => exact absurd h8 (by omega)
      | byte _ _ h8 => exact absurd h8 (by omega)

theorem Updating.enters (h : Updating k c r 0 x.1.atm) {u : List Pins} (hu : u.length = 35)
    (hr : Runs (presenting g) (fun p y => NoReset p y.1) x u) :
    Entering (k + 1) (c.exchanged r) (run (presenting g) x u).1.atm ∧
      (run (presenting g) x u).2 = x.2 := by
  obtain ⟨u, q, rfl⟩ := List.eq_nil_or_concat' u |>.resolve_left (by rintro rfl; simp at hu)
  obtain ⟨hr, hq⟩ := (runs_concat u q).mp hr
  have hu : u.length = 34 := by simpa using hu
  obtain ⟨h₁, hl⟩ := hr.progress (P := fun n y => Updating k c r n y.1.atm ∧ y.2 = x.2)
    (m := 34) (n := 0) (fun n hn p y hp ⟨hy, hl⟩ => by
      have hy' := hy.clock (g := g) hn hp
      exact ⟨hy', (presenting_snd_of_ne hy'.state (by decide)).trans hl⟩)
    ⟨h, rfl⟩ (by omega)
  rw [run_concat]
  rw [Nat.zero_add, hu] at h₁
  have h₂ := h₁.rotate (g := g) hq
  exact ⟨h₂, (presenting_snd_of_ne h₂.state (by decide)).trans hl⟩

def fronts (c : Cache) : List (BitVec 64) → List (BitVec 64)
  | [] => []
  | r :: rs => c.cache1 :: fronts (c.exchanged r) rs

theorem Replies.rotates {rs : List (BitVec 64)} {ps : List Pins} (h : Replies rs ps)
    (hk : k + rs.length = 4) (hr : Runs (presenting g) (fun p y => NoReset p y.1) x ps)
    (hx : Entering k c x.1.atm) :
    let y := run (presenting g) x ps
    y.2 = x.2 ++ fronts c rs ∧ y.1.atm.systemState = .ready ∧ y.1.atm.cacheMode = false ∧
      y.1.atm.cache = rs.foldl Cache.exchanged c := by
  induction h generalizing x k c with
  | nil p =>
    obtain rfl : k = 4 := hk
    obtain ⟨hs, hm, hc⟩ := hx.ready (g := g) hr.1
    exact ⟨by rw [fronts, List.append_nil]; exact presenting_snd_of_ne hs (by decide), hs, hm, hc⟩
  | cons r rs w b u ps hw hb hu _ ih =>
    rw [List.length_cons] at hk
    obtain ⟨hr, hps⟩ := (runs_append _ ps).mp hr
    obtain ⟨hr, hu'⟩ := (runs_append _ u).mp hr
    obtain ⟨hw', hb'⟩ := (runs_append w b).mp hr
    simp only [run_append] at hu' hps ⊢
    obtain ⟨h₁, -, -, hl₁⟩ := Entering.presents (r := r) hx (by omega) hw hw'
    obtain ⟨h₂, hl₂⟩ := Sends.updates hb (by decide) hb' h₁
    obtain ⟨h₃, hl₃⟩ := Updating.enters h₂ hu hu'
    obtain ⟨hl, hrest⟩ := ih (by omega) hps h₃
    refine ⟨?_, hrest⟩
    rw [hl, hl₃, hl₂, hl₁, List.append_assoc]
    rfl

def ShowsLast (x : TopLevel × List (BitVec 64)) : Prop :=
  x.1.atm.systemState = .communicateCache → x.2.getLast? = some (decipher x.1.atm.enOutput)

theorem showsLast_presenting (hd : x.1.atm.DecrypterInv x.1.atm.decrypter) (h : ShowsLast x) :
    ShowsLast (presenting g p x) := by
  intro hs
  have hs' : (x.1.atm.clock g (x.1.edge p)).systemState = .communicateCache := hs
  by_cases hc : x.1.atm.systemState = .communicateCache
  · have hr : (x.1.edge p).debouncedReset = false :=
      not_reset_of_not_ready (by rw [hs']; decide)
    simp only [Main.DecrypterInv, hc] at hd
    have ho : (x.1.atm.clock g (x.1.edge p)).enOutput = x.1.atm.enOutput :=
      Cipher.clock_output_of_stop hr hd.1
    change _ = some (decipher (x.1.atm.clock g (x.1.edge p)).enOutput)
    rw [presenting_snd_of_eq hc, ho]
    exact h hc
  · have hlog : (presenting g p x).2 = x.2 ++ [decipher (clock g p x.1).atm.enOutput] :=
      if_pos ⟨hc, hs⟩
    rw [hlog, List.getLast?_concat]
    rfl

/-- From the entry to Communication regained four replies make the ATM present the four entries,
each once, and put the low words of the replies in their places. -/
theorem resync_rotation (g : Generics) (t : TopLevel)
    (hs : t.atm.systemState = .communicationRegained) (he : t.atm.startEncrypt = false)
    (ho : t.atm.encryptionOver = false) (hk : t.atm.cacheUpdateCount = 0)
    (r₁ r₂ r₃ r₄ : BitVec 64) (ps : List Pins) (h : Replies [r₁, r₄, r₃, r₂] ps)
    (hr : Runs (clock g) NoReset t ps) :
    let c := t.atm.cache
    let x := run (presenting g) (t, []) ps
    x.2 = [c.cache1, c.cache4, c.cache3, c.cache2] ∧
      (∀ qs, qs <+: ps → ShowsLast (run (presenting g) (t, []) qs)) ∧
      x.1.atm.systemState = .ready ∧ x.1.atm.cacheMode = false ∧
      x.1.atm.cache = ⟨join (high c.cache1) (low (decipher r₁)),
        join (high c.cache2) (low (decipher r₂)), join (high c.cache3) (low (decipher r₃)),
        join (high c.cache4) (low (decipher r₄))⟩ := by
  have hr' : Runs (presenting g) (fun p y => NoReset p y.1) (t, []) ps := runs_ghost.mpr hr
  obtain ⟨hl, hready, hm, hc⟩ := Replies.rotates (x := (t, [])) h rfl hr' ⟨hs, hk, rfl, he, ho⟩
  refine ⟨hl, fun qs _ => ?_, hready, hm, hc⟩
  have hd : t.atm.DecrypterInv t.atm.decrypter := by
    simp only [Main.DecrypterInv, hs]
    exact fun h' => absurd (he.symm.trans h') (by decide)
  refine (run_invariant (P := fun x => x.1.atm.DecrypterInv x.1.atm.decrypter ∧ ShowsLast x)
    (fun _ _ hx => ⟨decrypterInv_clock hx.1, showsLast_presenting hx.1 hx.2⟩) ⟨hd, ?_⟩ qs).2
  exact fun h' => absurd (hs.symm.trans h') (by decide)

theorem exists_entering : ∃ u, Leads {} powerUp u ∧ u.Settled {} ∧
    u.atm.Entering 0 Tracked.spent.cache := by
  obtain ⟨t, a, h, hs, -, hp⟩ := Tracked.exists_spent
  obtain ⟨hs', hat⟩ := hs.step (g := {}) (p := idlePins 0 {} 0) rfl
  refine ⟨_, h.step (idlePins 0 {} 0), hs', ?_⟩
  rw [hat]
  exact (hp.reconnect rfl (by decide) rfl rfl).1

def replyPins : List (BitVec 64) → List Pins
  | [] => [idlePins 0 {} 0]
  | r :: rs => List.replicate 35 (idlePins 0 {} 0) ++
      (List.range 8).map (fun j => writePins (BitVec.ofNat 7 (10 + j)) (byte r j)) ++
      List.replicate 35 (idlePins 0 {} 0) ++ replyPins rs

theorem replies_replyPins (rs : List (BitVec 64)) : Replies rs (replyPins rs) := by
  induction rs with
  | nil => exact .nil _
  | cons r rs ih =>
    refine .cons _ _ _ _ _ _ (List.length_replicate ..) ?_ (List.length_replicate ..) ih
    repeat' first
      | exact .nil
      | refine .byte _ _ (by decide) rfl rfl rfl ?_

theorem buttons_of_mem_replyPins {rs : List (BitVec 64)} (hp : p ∈ replyPins rs) :
    p.buttons = {} := by
  induction rs with
  | nil =>
    rw [List.mem_singleton.mp hp]
    rfl
  | cons r rs ih =>
    simp only [replyPins, List.mem_append, List.mem_map] at hp
    rcases hp with ((hp | ⟨j, -, rfl⟩) | hp) | hp
    · rw [List.eq_of_mem_replicate hp]
      rfl
    · rfl
    · rw [List.eq_of_mem_replicate hp]
      rfl
    · exact ih hp

theorem Settled.noReset {t : TopLevel} {ps : List Pins} {b : Buttons} (h : t.Settled b)
    (hb : b.reset = false) (hps : ∀ p ∈ ps, p.buttons = b) : Runs (TopLevel.clock g) NoReset t ps := by
  have hleft : Runs (TopLevel.clock g) (fun p _ => p.buttons = b) t ps :=
    runs_of_forall fun p hp _ => hps p hp
  refine hleft.strengthen
    (P := Settled b) (fun p u hp hu => ?_) h
  have he : u.edge p = b.edge p := hu.edge p
  rw [← hp] at hu
  refine ⟨?_, by rw [← hp]; exact hu.clock⟩
  rw [NoReset, he]
  exact hb

theorem resync_rotation_first : ∃ ps, (after {} ps).atm.systemState = .ready ∧
    (after {} ps).atm.cacheMode = false ∧
    (after {} ps).atm.cache = ⟨0x002012340000012c, 0, 0, 0⟩ := by
  obtain ⟨t, ⟨qs, -, hqs⟩, hs, ht⟩ := exists_entering
  obtain ⟨ps, hps, hb⟩ : ∃ ps, Replies [encipher 300, encipher 0, encipher 0, encipher 0] ps ∧
      ∀ p ∈ ps, p.buttons = {} := ⟨_, replies_replyPins _, fun _ => buttons_of_mem_replyPins⟩
  obtain ⟨-, -, hready, hm, hc⟩ := resync_rotation {} t ht.state ht.startEncrypt ht.notOver ht.count
    (encipher 300) (encipher 0) (encipher 0) (encipher 0) ps hps (hs.noReset rfl hb)
  rw [run_ghost_fst] at hready hm hc
  have hrun : after {} (qs ++ ps) = run (clock {}) t ps := by
    rw [after_append, show after {} qs = t from hqs]
  refine ⟨qs ++ ps, ?_⟩
  rw [hrun]
  refine ⟨hready, hm, hc.trans ?_⟩
  rw [ht.cache]
  simp only [decipher_encipher]
  decide

end TopLevel

end AtmController.Frontend
