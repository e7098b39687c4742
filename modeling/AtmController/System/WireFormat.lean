import AtmController.Backend.Wire
import AtmController.Frontend.Boot
import Mathlib.Tactic.IntervalCases

namespace AtmController.System

open Clocked Slice Backend Frontend

theorem decrypt64_readUpTo (v : BitVec 64) : decrypt64 (readUpTo (encipher v) 8) = words v := by
  rw [readUpTo_eight]
  change decrypt64 (words (encipher _)) = _
  rw [encipher, words_ofWords, decrypt64_encrypt64]

/-- What the states of the resynchronisation know about the encrypter, provided that they are
entered with `start_encrypt` withdrawn. -/
def ResyncInv (m : Main) (e : Cipher) : Prop :=
  match m.systemState with
  | .communicationRegained => m.Enciphering e
  | .communicateCache => m.startEncrypt = false ∧ e.output = encipher m.enInput
  | .updateCache => m.startEncrypt = false ∧ e.Idle
  | _ => True

def StaleReconnect (p : Pins) (t : TopLevel) : Prop :=
  (t.edge p).debouncedReset = false ∧ t.atm.Reconnects (t.edge p) ∧ t.atm.startEncrypt = true

section Atm

open Frontend.Atm Frontend.Main Cipher

variable {g : Generics} {i : AtmEdge} {s : Atm}

theorem resyncInv_clock (hi : ResyncInv s.toMain s.encrypter)
    (hok : i.debouncedReset = false → s.Reconnects i → s.startEncrypt = false) :
    ResyncInv (s.clock g i).toMain (s.clock g i).encrypter := by
  have he := clock_cases g i s
  change ResyncInv (s.clock g i).toMain
    (Encrypter.clock ⟨i.debouncedReset, s.startEncrypt, s.enInput⟩ s.encrypter)
  generalize (s.clock g i).toMain = m at he
  cases he with
  | reset hr => trivial
  | reconnect hr hc => exact (clock_stop hr (hok hr hc)).working _
  | branch m hr hc hb =>
    have hstop (hs : s.startEncrypt = false) :
        (Encrypter.clock ⟨i.debouncedReset, s.startEncrypt, s.enInput⟩ s.encrypter).Idle :=
      clock_stop hr hs
    rw [hr] at hstop ⊢
    change ResyncInv m _
    cases hb with
    | communicationRegained l h =>
      simp only [ResyncInv, h] at hi
      simp only [ResyncInv]
      by_cases hk : s.cacheUpdateCount = 4
      · simp only [if_pos hk]
      · cases hd : s.encryptionOver with
        | false =>
          simp only [if_neg hk, Bool.false_eq_true, if_false, and_false, not_false_eq_true,
            decide_true]
          cases hs : s.startEncrypt with
          | false => exact (clock_stop rfl rfl).working _
          | true =>
            have hw := hi.clock
            rw [hs] at hw
            exact hw
        | true =>
          obtain ⟨hs, hf⟩ := hi.finished hd
          simp only [hs, if_true, ne_eq, hk, not_false_eq_true, and_self, not_true_eq_false,
            decide_false, true_and]
          rw [← result_encrypt]
          exact (hf.clock rfl rfl).output
    | communicateCache l r c h =>
      simp only [ResyncInv, h] at hi
      simp only [ResyncInv]
      split_ifs
      · exact ⟨hi.1, hstop hi.1⟩
      · exact ⟨hi.1, (clock_output_of_stop rfl hi.1).trans hi.2⟩
    | updateCache l h =>
      simp only [ResyncInv, h] at hi
      simp only [ResyncInv]
      cases s.decryptionOver with
      | false => exact ⟨hi.1, hstop hi.1⟩
      | true => exact (hstop hi.1).working _
    | loadingCash l n q h hq => rcases hq with rfl | rfl <;> trivial
    | dispense l n k b q h hq => rcases hq with rfl | rfl <;> trivial
    | refuse l n k q h hq => rcases hq with rfl | rfl <;> trivial
    | dispensed l n k b j q h hq => rcases hq with rfl | rfl <;> trivial
    | userNotInCache l n q h hq => rcases hq with rfl | rfl <;> trivial
    | _ =>
      simp only [ResyncInv, *]
      try split_ifs
      all_goals trivial

end Atm

section TopLevel

open Frontend.TopLevel

variable {g : Generics} {q q' : SystemState}

theorem resyncInv {ps : List Pins}
    (h : Runs (clock g) (fun p t => ¬ StaleReconnect p t) powerUp ps) :
    ResyncInv (after g ps).atm.toMain (after g ps).atm.encrypter := by
  have h₀ : ResyncInv powerUp.atm.toMain powerUp.atm.encrypter := trivial
  refine h.invariant (P := fun t : TopLevel => ResyncInv t.atm.toMain t.atm.encrypter) ?_ h₀
  intro p t hok hi
  refine resyncInv_clock hi fun hr hc => ?_
  by_contra hs
  exact hok ⟨hr, hc, by simpa using hs⟩

def Stays (g : Generics) (q : SystemState) (p : Pins) (t : TopLevel) : Prop :=
  t.atm.systemState = q ∧ (clock g p t).atm.systemState = q

theorem Stays.enInput {p : Pins} {t : TopLevel} (hq : q.Collects q') (h : Stays g q p t) :
    (clock g p t).atm.enInput = t.atm.enInput ∧ (t.edge p).debouncedReset = false := by
  obtain ⟨hs, hs'⟩ := h
  have he := Frontend.Atm.clock_cases g (t.edge p) t.atm
  change (t.atm.clock g (t.edge p)).toMain.systemState = q at hs'
  change (t.atm.clock g (t.edge p)).toMain.enInput = _ ∧ _
  generalize (t.atm.clock g (t.edge p)).toMain = m at he hs'
  cases he with
  | reset _ => rcases hq with ⟨rfl, -⟩ | ⟨rfl, -⟩ <;> exact SystemState.noConfusion hs'
  | reconnect _ hc =>
    rcases hq with ⟨rfl, -⟩ | ⟨rfl, -⟩ <;> exact absurd (hc.2.2.2.symm.trans hs) (by decide)
  | branch m hr _ hb =>
    refine ⟨?_, hr⟩
    cases hb with
    | lastKey l h =>
      rcases hq with ⟨rfl, -⟩ | ⟨rfl, -⟩ <;> exact absurd (h.symm.trans hs) (by decide)
    | communicationRegained l h =>
      rcases hq with ⟨rfl, -⟩ | ⟨rfl, -⟩ <;> exact absurd (h.symm.trans hs) (by decide)
    | _ => rfl

theorem enOutput_eq {ps : List Pins}
    (h : Runs (clock g) (fun p t => ¬ StaleReconnect p t) powerUp ps) (hq : q.Collects q')
    (hs : (after g ps).atm.systemState = q) :
    (after g ps).atm.enOutput = encipher (after g ps).atm.enInput := by
  rcases hq with ⟨rfl, -⟩ | ⟨rfl, -⟩
  · have hi := encrypterInv (g := g) ps
    simp only [Main.EncrypterInv, hs] at hi
    exact hi.2.output.trans (result_encrypt _)
  · have hi := resyncInv h
    simp only [ResyncInv, hs] at hi
    exact hi.2

theorem enOutput_of_stays {ps qs : List Pins}
    (h : Runs (clock g) (fun p t => ¬ StaleReconnect p t) powerUp ps) (hq : q.Collects q')
    (hs : (after g ps).atm.systemState = q)
    (hst : Runs (clock g) (Stays g q) (after g ps) qs) :
    Runs (clock g) (fun p t => ¬ StaleReconnect p t) powerUp (ps ++ qs) ∧
      (after g (ps ++ qs)).atm.systemState = q ∧
      (after g (ps ++ qs)).atm.enOutput = encipher (after g ps).atm.enInput := by
  have hin : Runs (clock g) (fun p t => ¬ StaleReconnect p t) (after g ps) qs :=
    hst.mono fun p t hp hstale => by
      have hready := hstale.2.1.2.2.2
      rcases hq with ⟨rfl, -⟩ | ⟨rfl, -⟩ <;> exact absurd (hready.symm.trans hp.1) (by decide)
  have hrun := (runs_append ps qs).mpr ⟨h, hin⟩
  have hkeep : (after g (ps ++ qs)).atm.systemState = q ∧
      (after g (ps ++ qs)).atm.enInput = (after g ps).atm.enInput := by
    rw [after_append]
    exact hst.invariant (P := fun t : TopLevel => t.atm.systemState = q ∧
      t.atm.enInput = (after g ps).atm.enInput)
      (fun p t hp hi => ⟨hp.2, (hp.enInput hq).1.trans hi.2⟩) ⟨hs, rfl⟩
  exact ⟨hrun, hkeep.1, (enOutput_eq hrun hq hkeep.1).trans (by rw [hkeep.2])⟩

/-- The output of the encrypter in a cycle: a reset clears it at once. -/
def shownOutput (t : TopLevel) : BitVec 64 :=
  if t.resetDebouncer.buttonDeb then 0 else t.atm.enOutput

theorem shownOutput_of_noReset {t : TopLevel} (h : t.resetDebouncer.buttonDeb = false) :
    shownOutput t = t.atm.enOutput := by
  rw [shownOutput, h]
  rfl

theorem f2hData_eq_byte {p : Pins} {t : TopLevel}
    (hs : t.atm.systemState = .communicating ∨ t.atm.systemState = .communicateCache) {k : Nat}
    (hk : k < 8) (ha : p.chanAddr.toNat = k + 1) : TopLevel.f2hData p t = byte (shownOutput t) k := by
  have hne : p.chanAddr ≠ 0 := fun h0 => by simp [h0] at ha
  have hc : (t.edge p).chanAddr = p.chanAddr := rfl
  simp only [TopLevel.f2hData, Frontend.Atm.f2hData, hc]
  rw [if_neg hne, if_pos ⟨by omega, by omega, hs⟩, ha]
  rfl

theorem f2hData_of_stays {p : Pins} {t : TopLevel} (hq : q.Collects q') (h : Stays g q p t)
    {k : Nat} (hk : k < 8) (ha : p.chanAddr.toNat = k + 1) :
    TopLevel.f2hData p t = byte t.atm.enOutput k := by
  have hst : t.atm.systemState = .communicating ∨ t.atm.systemState = .communicateCache := by
    rcases hq with ⟨rfl, -⟩ | ⟨rfl, -⟩
    · exact .inl h.1
    · exact .inr h.1
  rw [f2hData_eq_byte hst hk ha, shownOutput_of_noReset (h.enInput hq).2]

def Reads (g : Generics) (t : TopLevel) (qs : List Pins) (bytes : Nat → BitVec 8) : Prop :=
  ∀ k < 8, ∃ pre p post, qs = pre ++ p :: post ∧ p.chanAddr.toNat = k + 1 ∧
    bytes (k + 1) = TopLevel.f2hData p (run (clock g) t pre)

/-- (a) The host decodes the bytes of `en_input`, after the run `ps`. -/
def HostDecodes (g : Generics) (ps : List Pins) : Prop :=
  ∀ q q', SystemState.Collects q q' → (after g ps).atm.systemState = q →
    ∀ qs bytes, Runs (clock g) (Stays g q) (after g ps) qs → Reads g (after g ps) qs bytes →
      let inp := decrypt64 (inpFromFrontEnd bytes)
      let enInput := (after g ps).atm.enInput
      inp.v0 = low enInput ∧ inp.v1 = high enInput ∧
        userID inp.v1 = enInput.extractLsb' 48 16 ∧
        unhashedPin inp.v1 = enInput.extractLsb' 32 16

/-- (b) The decrypter shows the two words of a reply, after the run `ps`. -/
def AtmDeciphers (g : Generics) (ps : List Pins) : Prop :=
  ∀ q q', SystemState.Collects q q' → (after g ps).atm.systemState = q →
    (after g ps).atm.checksumForBackendResponse = 0 → ∀ (w₀ w₁ : BitVec 32) (qs js),
    Sends (replyByte (encrypt64 ⟨w₀, w₁⟩)) 0 qs →
    Runs (clock g) (Undisturbed g) (after g ps) qs → js.length = 34 →
    Runs (clock g) (fun p t => (t.edge p).debouncedReset = false) (after g (ps ++ qs)) js →
      (after g (ps ++ qs ++ js)).atm.decryptionOver = true ∧
        (after g (ps ++ qs ++ js)).atm.deOutput = join w₁ w₀

theorem wire_round_trip (g : Generics) (ps : List Pins) :
    (Runs (clock g) (fun p t => ¬ StaleReconnect p t) powerUp ps → HostDecodes g ps) ∧
      AtmDeciphers g ps := by
  constructor
  · intro h q q' hq hs qs bytes hst hreads
    have hbytes : ∀ k < 8, bytes (k + 1) = byte (encipher (after g ps).atm.enInput) k := by
      intro k hk
      obtain ⟨pre, p, post, rfl, ha, hb⟩ := hreads k hk
      obtain ⟨hpre, hp, -⟩ := (runs_append pre _).mp hst
      obtain ⟨-, -, hout⟩ := enOutput_of_stays h hq hs hpre
      rw [after_append] at hout
      rw [hb, f2hData_of_stays hq hp hk ha, hout]
    have hinp : decrypt64 (inpFromFrontEnd bytes) = words (after g ps).atm.enInput := by
      rw [inpFromFrontEnd_bytes _ hbytes]
      change decrypt64 (words (encipher _)) = _
      rw [encipher, words_ofWords, decrypt64_encrypt64]
    simp only [hinp]
    exact ⟨rfl, rfl, userID_high _, unhashedPin_high _⟩
  · intro q q' hq hs h0 w₀ w₁ qs js hsend hu hl hr
    obtain ⟨hs', hbytes, hsd⟩ :=
      Sends.collects hsend (by decide) hq hs (Main.Collected.zero h0) hu
    rw [← after_append] at hs' hbytes hsd
    have hde := decrypterInv (g := g) ps
    have hde' := decrypterInv (g := g) (ps ++ qs)
    have hstart : (after g (ps ++ qs)).atm.startDecrypt = false := by
      rw [hsd]
      rcases hq with ⟨rfl, -⟩ | ⟨rfl, -⟩
      · simp only [Main.DecrypterInv, hs] at hde
        exact hde.1
      · simp only [Main.DecrypterInv, hs] at hde
        exact hde.2
    have hq' : q' = .decrypt ∨ q' = .updateCache := by
      rcases hq with ⟨-, rfl⟩ | ⟨-, rfl⟩
      · exact .inl rfl
      · exact .inr rfl
    have hidle : (after g (ps ++ qs)).atm.decrypter.Idle := by
      have hw : (after g (ps ++ qs)).atm.Deciphering (after g (ps ++ qs)).atm.decrypter := by
        rcases hq' with rfl | rfl <;> simp only [Main.DecrypterInv, hs'] at hde'
        · exact hde'
        · exact hde'.2
      obtain ⟨n, hn, hz⟩ := hw
      rw [hz hstart] at hn
      exact Cipher.after_zero.mp hn
    have hdi : (after g (ps ++ qs)).atm.deInput = encipher (join w₁ w₀) := by
      refine ext_bytes (m := 8) fun j hj => ?_
      rw [hbytes j hj, replyByte_eq, encipher, words, low_join, high_join]
      rfl
    obtain ⟨-, -, -, hw⟩ := deciphers hq' hs' hstart hidle hr
      (List.ne_nil_of_length_pos (by omega)) hl.le
    rw [← after_append, hl, hdi] at hw
    exact ⟨hw.1.2.1, (hw.1.2.2.2 le_rfl).trans ((result_decrypt _).trans (decipher_encipher _))⟩

def readPins (b : Buttons) : List Pins := [1, 2, 3, 4, 5, 6, 7, 8].map fun c => idlePins c b 0

theorem of_mem_readPins {b : Buttons} {p : Pins} (hp : p ∈ readPins b) :
    p.h2fValid = false ∧ p.buttons = b := by
  simp only [readPins, List.mem_map] at hp
  obtain ⟨c, -, rfl⟩ := hp
  exact ⟨rfl, rfl⟩

theorem exists_reads (g : Generics) (b : Buttons) (t : TopLevel) :
    ∃ bytes, Reads g t (readPins b) bytes := by
  refine ⟨fun j => TopLevel.f2hData (idlePins (BitVec.ofNat 7 j) b 0)
    (run (clock g) t ((readPins b).take (j - 1))), fun k hk => ?_⟩
  refine ⟨(readPins b).take k, idlePins (BitVec.ofNat 7 (k + 1)) b 0, (readPins b).drop (k + 1),
    ?_, ?_, rfl⟩
  · interval_cases k <;> rfl
  · interval_cases k <;> rfl

section Waiting

variable {c : BitVec 7} {d : Durable} {a : NoteAllocator} {v : BitVec 64} {r : Nat → BitVec 8}
  {w : Nat} {t : TopLevel}

theorem stays_of_waiting {ps : List Pins} (ha : a.systemState = .finished) (h : t.Settled {})
    (hm : t.atm.Waiting g c d a v r 0 false false w) (hw : w + ps.length < 31 * (g.N + 1))
    (hps : ∀ p ∈ ps, p.h2fValid = false ∧ p.buttons = {}) :
    Runs (clock g) (Stays g .communicating) t ps := by
  induction ps generalizing t c w with
  | nil => trivial
  | cons p ps ih =>
    obtain ⟨hv, hb⟩ := hps p (List.mem_cons_self ..)
    rw [List.length_cons] at hw
    obtain ⟨hs, hat⟩ := h.step (g := g) hb
    have hn := hm.idle (i := Buttons.edge {} p) rfl (by decide) hv (by omega)
    rw [NoteAllocator.clock_finished rfl rfl ha, ← hat] at hn
    exact ⟨⟨hm.state, hn.state⟩, ih hs hn (by omega) fun q hq => hps q (List.mem_cons_of_mem _ hq)⟩

theorem exists_offered (hb : bankBits v = 0) :
    ∃ u c a w, Reaches (clock {}) (fun p t => ¬ StaleReconnect p t) powerUp u ∧ u.Settled {} ∧
      a.systemState = .finished ∧ w ≤ 2 * ({} : Generics).N ∧
      u.atm.Waiting {} c (booted 0) a v r 0 false false w := by
  have hN : debounceTime ≤ ({} : Generics).N := by rw [debounceTime_eq]; decide
  obtain ⟨t, a, ht, hs, ha, hp⟩ := exists_unconfigured {} 25
  obtain ⟨u, n, w, hu, hsu, hn, hw, hm⟩ := exists_waiting (f := false) hN hs hp hb.symm r
  have hsilent : Reaches (clock {}) (Silent 25) powerUp u := 
    ht.trans (silent_of_alone (brings_of_calm hu))
  refine ⟨u, 25, _, w, hsilent.mono fun p t hp hstale => ?_, hsu,
    (allocating_finished (d := booted 0) (v := v) ha hn).state, hw, hm⟩
  exact absurd (hp.2.2.symm.trans hstale.2.1.2.1) (by decide)

end Waiting

theorem wire_round_trip_of_withdrawal : ∃ ps bytes,
    (after {} ps).atm.systemState = .communicating ∧
      (after {} ps).atm.enInput = 0x00201234000001f4 ∧
      Runs (clock {}) (Stays {} .communicating) (after {} ps) (readPins {}) ∧
      Reads {} (after {} ps) (readPins {}) bytes ∧
      let inp := decrypt64 (inpFromFrontEnd bytes)
      inp.v0 = 500 ∧ userID inp.v1 = 32 ∧ unhashedPin inp.v1 = 0x1234 := by
  obtain ⟨u, c, a, w, ⟨ps, hps, rfl⟩, hs, hfin, hw, hm⟩ :=
    exists_offered (v := 0x00201234000001f4) (r := fun _ => 0) (by decide)
  obtain ⟨bytes, hreads⟩ := exists_reads {} {} (after {} ps)
  have hlate : 2 * ({} : Generics).N + 8 < 31 * (({} : Generics).N + 1) := by decide
  have hstays : Runs (clock {}) (Stays {} .communicating) (after {} ps) (readPins {}) :=
    stays_of_waiting hfin hs hm (show w + 8 < _ by omega) fun _ => of_mem_readPins
  have hv : (after {} ps).atm.enInput = 0x00201234000001f4 := hm.enInput
  obtain ⟨hlow, -, huser, hpin⟩ := (wire_round_trip {} ps).1 hps _ _ (.inl ⟨rfl, rfl⟩) hm.state _ _
    hstays hreads
  rw [hv] at hlow huser hpin
  exact ⟨ps, bytes, hm.state, hv, hstays, hreads, hlow, huser, hpin⟩

/-- The first two edges after a reconnection in the first cycle of Ready: the encrypter still shows
the last transaction, and is taken to be done with the cache entry. -/
theorem communicateCache_of_stale {c : BitVec 7} {d : Durable} {a : NoteAllocator} {v : BitVec 64}
    {i : AtmEdge} {s : Frontend.Atm} (h : s.Underway g c d a v) (hs : s.systemState = .ready)
    (hm : d.cacheMode = true) (hc : c ≠ 0) (hr : i.debouncedReset = false) (hi : i.chanAddr = 0) :
    let u := (s.clock g i).clock g i
    u.systemState = .communicateCache ∧ u.startEncrypt = false ∧ u.enInput = d.cache.cache1 ∧
      u.checksumForBackendResponse = 0 ∧ u.enOutput = encipher v := by
  have hd := h.durable
  have hrec : s.Reconnects i := by
    refine ⟨?_, hi, ?_, hs⟩
    · rw [← hm, ← hd]
      rfl
    · rw [h.addr, hi]
      exact hc
  have hm₁ : (s.clock g i).toMain = Frontend.Atm.tick g i s.reconnect := by
    simp only [Frontend.Atm.clock, Frontend.Atm.mainProcess, hr, if_pos hrec,
      Bool.false_eq_true, if_false]
  have he₁ : Cipher.Finished 0 encryptCycle v (s.clock g i).encrypter :=
    h.encrypter.clock hr h.startEncrypt
  have hk : (s.clock g i).cacheUpdateCount ≠ 4 := by
    rw [hm₁]
    change s.cacheUpdateCount ≠ 4
    rw [h.cacheUpdateCount]
    decide
  have hse : (s.clock g i).startEncrypt = false := by rw [hm₁]; rfl
  have hst : (s.clock g i).systemState = .communicationRegained := by rw [hm₁]; rfl
  have hca : (s.clock g i).cache = d.cache := by
    rw [hm₁, ← hd]
    rfl
  generalize s.clock g i = u at *
  have hm₂ := Frontend.Atm.clock_of_not_ready (g := g) hr (s := u) (by simp [hst])
  simp only [Frontend.Atm.branch, hst, Frontend.Atm.communicationRegained, hse, hk,
    Frontend.Atm.encryptionOver, he₁.done, Main.blink, if_true, if_false] at hm₂
  refine ⟨by rw [hm₂]; rfl, by rw [hm₂]; rfl, ?_, by rw [hm₂]; rfl, ?_⟩
  · rw [hm₂, ← hca]
    rfl
  · exact (Cipher.clock_output_of_stop hr hse).trans (he₁.output.trans (result_encrypt v))

structure Showing (x : BitVec 64) (t : TopLevel) : Prop where
  settled : t.Settled { done := true }
  state : t.atm.systemState = .communicateCache
  startEncrypt : t.atm.startEncrypt = false
  checksum : t.atm.checksumForBackendResponse = 0
  enOutput : t.atm.enOutput = x

theorem Showing.clock {x : BitVec 64} {p : Pins} {t : TopLevel} (h : Showing x t)
    (hv : p.h2fValid = false) (hb : p.buttons = { done := true }) :
    Stays g .communicateCache p t ∧ Showing x (TopLevel.clock g p t) := by
  have hset := h.settled
  rw [← hb] at hset
  have hr : (t.edge p).debouncedReset = false := by
    rw [hset.edge p, hb]
    rfl
  have hm := Frontend.Atm.clock_of_not_ready (g := g) hr (s := t.atm) (by simp [h.state])
  simp only [Frontend.Atm.branch, h.state, Frontend.Atm.communicateCache,
    Main.collect_of_not_valid 10 (t.edge p) t.atm.toMain hv, Main.blink, h.checksum] at hm
  rw [if_neg (by decide)] at hm
  have hst : (TopLevel.clock g p t).atm.systemState = .communicateCache :=
    congrArg Main.systemState hm
  refine ⟨⟨h.state, hst⟩, hb ▸ hset.clock, hst, ?_, ?_, ?_⟩
  · exact (congrArg Main.startEncrypt hm).trans h.startEncrypt
  · exact congrArg Main.checksumForBackendResponse hm
  · exact (Cipher.clock_output_of_stop hr h.startEncrypt).trans h.enOutput

theorem Showing.decodes {x : BitVec 64} {t : TopLevel} (h : Showing (encipher x) t) :
    let qs := readPins { done := true }
    Runs (TopLevel.clock g) (Stays g .communicateCache) t qs ∧
      ∃ bytes, Reads g t qs bytes ∧ decrypt64 (inpFromFrontEnd bytes) = words x := by
  intro qs
  have hquiet : Runs (TopLevel.clock g)
      (fun p _ => p.h2fValid = false ∧ p.buttons = { done := true }) t qs :=
    runs_of_forall fun p hp s => of_mem_readPins hp
  have hstays : Runs (TopLevel.clock g) (Stays g .communicateCache) t qs :=
    hquiet.strengthen (P := Showing (encipher x)) (fun p u hp hu => hu.clock hp.1 hp.2) h
  obtain ⟨bytes, hreads⟩ := exists_reads g { done := true } t
  refine ⟨hstays, bytes, hreads, ?_⟩
  have hbytes : ∀ k < 8, bytes (k + 1) = byte (encipher x) k := by
    intro k hk
    obtain ⟨pre, p, post, hqs, ha, hb⟩ := hreads k hk
    change qs = _ at hqs
    rw [hqs] at hstays hquiet
    obtain ⟨-, hp, -⟩ := (runs_append pre _).mp hstays
    have hu := ((runs_append pre _).mp hquiet).1.invariant (P := Showing (encipher x))
      (fun p u hp hu => (hu.clock (g := g) hp.1 hp.2).2) h
    rw [hb, f2hData_of_stays (.inr ⟨rfl, rfl⟩) hp hk ha, hu.enOutput]
  rw [inpFromFrontEnd_bytes _ hbytes]
  change decrypt64 (words (encipher _)) = _
  rw [encipher, words_ofWords, decrypt64_encrypt64]

/-- After power-up and a reset a withdrawal of 1 is refused out of the empty cache, and the
reconnection comes in the first cycle of Ready. -/
theorem exists_stale : ∃ t, Leads {} powerUp t ∧ Showing (encipher 1) t ∧ t.atm.enInput = 0 := by
  obtain ⟨t₆, d, a, h₆, hs₆, hfin, hcm, hca, hp₆⟩ := exists_refused 25
  obtain ⟨t₇, h₇, hs₇, hp₇⟩ := hs₆.press (c := 25) (P := Frontend.Atm.Over {} 25 d a 1)
    { done := true } 0 (fun s hs => hs.wait
      (i := Buttons.edge {} (idlePins 25 { done := true } 0)) hfin rfl rfl) hp₆
  obtain ⟨hp₈, hr₈⟩ := hp₇.confirm (i := Buttons.edge { done := true }
    (idlePins 25 { done := true } 0)) hfin rfl rfl
  obtain ⟨hst, hse, hen, hck, hout⟩ := communicateCache_of_stale
    (i := Buttons.edge { done := true } (idlePins 0 { done := true } 0)) hp₈ hr₈ hcm
    (by decide) rfl rfl
  have h₈ := hs₇.iterate (g := {}) (p := idlePins 25 { done := true } 0) 1
  have h₉ := h₈.1.iterate (g := {}) (p := idlePins 0 { done := true } 0) 2
  have hat := h₉.2
  rw [h₈.2] at hat
  have hbr := h₇.trans (brings_iterate {} 25 { done := true } 0 1 t₇)
  refine ⟨_, ((leads_of_reaches h₆).trans hbr).trans
    (brings_iterate {} 0 { done := true } 0 2 _), ⟨h₉.1, ?_, ?_, ?_, ?_⟩, ?_⟩
  · rw [hat]; exact hst
  · rw [hat]; exact hse
  · rw [hat]; exact hck
  · rw [hat]; exact hout
  · rw [hat]; exact hen.trans (by rw [hca])

/-- The host decodes the withdrawal of 1 in place of the cache entry. -/
theorem wire_round_trip_stale : ¬ ∀ g ps, HostDecodes g ps ∧ AtmDeciphers g ps := by
  intro hall
  obtain ⟨t, ⟨ps, -, hps⟩, hshow, hen⟩ := exists_stale
  obtain ⟨hstays, bytes, hreads, hinp⟩ := hshow.decodes (g := {})
  have ht : after {} ps = t := hps
  rw [← ht] at hstays hreads hen
  have hst : (after {} ps).atm.systemState = .communicateCache := ht ▸ hshow.state
  have hlow := ((hall {} ps).1 _ _ (.inr ⟨rfl, rfl⟩) hst _ _ hstays hreads).1
  rw [hinp, hen] at hlow
  exact absurd hlow (by decide)

end TopLevel

end AtmController.System
