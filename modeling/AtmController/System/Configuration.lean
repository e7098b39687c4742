import AtmController.Backend.Wire
import AtmController.Frontend.Boot

namespace AtmController.System

open Clocked Slice Backend Frontend

def setupMessage (maxAmount : BitVec 32) (n2000 n1000 n500 n100 : BitVec 8) : Block :=
  encrypt64 ⟨packNotes n2000 n1000 n500 n100, maxAmount⟩

theorem limits_setupMessage (maxAmount : BitVec 32) (n2000 n1000 n500 n100 : BitVec 8)
    {x : BitVec 64}
    (h : ∀ j < 8, byte x j = replyByte (setupMessage maxAmount n2000 n1000 n500 n100) j) :
    (⟨high (decipher x), noteBytes (decipher x)⟩ : Limits) =
      ⟨maxAmount, ⟨n2000, n1000, n500, n100⟩⟩ := by
  have hx : x = encipher (join maxAmount (packNotes n2000 n1000 n500 n100)) := by
    refine ext_bytes (m := 8) fun j hj => ?_
    rw [h j hj, replyByte_eq, encipher, words, low_join, high_join]
    rfl
  obtain ⟨h₃, h₂, h₁, h₀⟩ := byte_packNotes n2000 n1000 n500 n100
  rw [hx, decipher_encipher, high_join, noteBytes, byte_join_of_lt _ _ (by decide),
    byte_join_of_lt _ _ (by decide), byte_join_of_lt _ _ (by decide),
    byte_join_of_lt _ _ (by decide), h₃, h₂, h₁, h₀]

/-- The host writes the bytes of `r` from the `k`-th on, in order, up to the `n`-th. In between it
may idle or access other channels than 18 to 25. -/
inductive Delivers (r : Nat → BitVec 8) : Nat → Nat → List Pins → Prop
  | nil {k} : Delivers r k k []
  | other (p ps) {k n} : (p.h2fValid = true → p.chanAddr.toNat < 18 ∨ 26 ≤ p.chanAddr.toNat) →
      Delivers r k n ps → Delivers r k n (p :: ps)
  | byte (p ps) {k n} : p.h2fValid = true → p.chanAddr.toNat = 18 + k → p.h2fData = r k →
      Delivers r (k + 1) n ps → Delivers r k n (p :: ps)

theorem Delivers.le {r : Nat → BitVec 8} {k n : Nat} {ps : List Pins} (h : Delivers r k n ps) :
    k ≤ n := by
  induction h with
  | nil => exact le_rfl
  | other _ _ _ _ ih => exact ih
  | byte _ _ _ _ _ _ ih => omega

/-- Host runs that were interrupted before their last byte, each with a message of its own. -/
inductive Attempts : List Pins → Prop
  | nil : Attempts []
  | cons (r n qs ps) : n < 8 → Delivers r 0 n qs → Attempts ps → Attempts (qs ++ ps)

section Atm

open Frontend.Atm Frontend.Main

variable {g : Generics} {c : BitVec 7} {d : Durable} {a : NoteAllocator} {r : Nat → BitVec 8}
  {k m : Nat} {i : AtmEdge} {s : Frontend.Atm}

/-- The first `m` bytes are present, and the first `k` of them are from the message `r`. -/
structure Overwriting (g : Generics) (c : BitVec 7) (d : Durable) (a : NoteAllocator)
    (r : Nat → BitVec 8) (k m : Nat) (s : Frontend.Atm) : Prop extends s.Unstarted g c d a where
  state : s.systemState = .setup
  le : k ≤ m
  present : ∀ j < 8, s.checksumForBackendResponse.getLsbD j = decide (j < m)
  bytes : ∀ j < k, byte s.responseFromBackend j = r j
  startDecrypt : s.startDecrypt = false
  decrypter : s.decrypter.Idle

theorem Overwriting.clock {k' m' : Nat} (h : Overwriting g c d a r k m s)
    (hr : i.debouncedReset = false) (hm : m' < 8) (hle : k' ≤ m')
    (hp : ∀ j < 8, (s.collect 18 i).checksumForBackendResponse.getLsbD j = decide (j < m'))
    (hb : ∀ j < k', byte (s.collect 18 i).responseFromBackend j = r j) :
    Overwriting g i.chanAddr d a r k' m' (s.clock g i) := by
  have hc := clock_of_not_ready (g := g) hr (s := s) (by simp [h.state])
  obtain ⟨r', c', hcol⟩ := exists_collect 18 i s.toMain
  rw [hcol] at hp hb
  have hF : c' ≠ 0b11111111 := by
    intro hF
    have hbit := hp m' hm
    have hones : ∀ j < 8, (0b11111111 : BitVec 8).getLsbD j = true := by decide
    simp only [hF, hones m' hm] at hbit
    simp at hbit
  have hbr : s.branch g i = s.setup g i := by simp only [branch, h.state]
  rw [hbr, Frontend.Atm.setup, hcol] at hc
  simp only at hc
  rw [if_neg hF, blink] at hc
  exact { h.toUnstarted.clock hr hc h.durable rfl rfl with
    state := by rw [hc]; exact h.state
    le := hle
    present := by rw [hc]; exact hp
    bytes := by rw [hc]; exact hb
    startDecrypt := by rw [hc]; exact h.startDecrypt
    decrypter := Cipher.clock_stop hr h.startDecrypt }

theorem Overwriting.other (h : Overwriting g c d a r k m s) (hm : m < 8)
    (hr : i.debouncedReset = false)
    (hi : i.h2fValid = true → i.chanAddr.toNat < 18 ∨ 26 ≤ i.chanAddr.toNat) :
    Overwriting g i.chanAddr d a r k m (s.clock g i) := by
  have hcol : s.collect 18 i = s.toMain := by
    rw [Main.collect, if_neg fun hc => by have := hi hc.1; omega]
  refine h.clock hr hm h.le ?_ ?_
  · rw [hcol]; exact h.present
  · rw [hcol]; exact h.bytes

theorem Overwriting.collect (h : Overwriting g c d a r k m s) (hk : k < 8) (hv : i.h2fValid = true)
    (ha : i.chanAddr.toNat = 18 + k) (hd : i.h2fData = r k) :
    (∀ j < 8, (s.collect 18 i).checksumForBackendResponse.getLsbD j = decide (j < max m (k + 1))) ∧
      ∀ j < k + 1, byte (s.collect 18 i).responseFromBackend j = r j := by
  have hle := h.le
  constructor
  · intro j hj
    rw [Main.getLsbD_collect 18 i s.toMain hj]
    by_cases hjk : j = k
    · rw [if_pos ⟨hv, by omega⟩]
      simp [hjk]
    · rw [if_neg fun hc => by omega, h.present j hj]
      exact decide_eq_decide.mpr (by omega)
  · have hcol : (s.collect 18 i).responseFromBackend =
        assign s.responseFromBackend (8 * k) (r k) := by
      rw [Main.collect, if_pos ⟨hv, by omega, by omega⟩, ← hd,
        show i.chanAddr.toNat - 18 = k by omega]
    intro j hj
    rw [hcol]
    rcases Nat.lt_or_eq_of_le (Nat.le_of_lt_succ hj) with hlt | rfl
    · rw [byte_assign_of_ne _ _ (by omega) (by omega)]
      exact h.bytes j hlt
    · exact byte_assign _ _ (by omega)

theorem Overwriting.lastByte (h : Overwriting g c d a r 7 m s)
    (hr : i.debouncedReset = false) (hv : i.h2fValid = true) (ha : i.chanAddr.toNat = 25)
    (hd : i.h2fData = r 7) :
    ∃ x, (∀ j < 8, byte x j = r j) ∧ (s.clock g i).DecryptingSetup g i.chanAddr d a x 0 := by
  obtain ⟨hp, hb⟩ := h.collect (by decide) hv ha hd
  have hc := clock_of_not_ready (g := g) hr (s := s) (by simp [h.state])
  obtain ⟨r', c', hcol⟩ := exists_collect 18 i s.toMain
  rw [hcol] at hp hb
  have hF : c' = 0b11111111 := by
    apply BitVec.eq_of_getLsbD_eq
    intro j hj
    have hones : ∀ j < 8, (0b11111111 : BitVec 8).getLsbD j = true := by decide
    rw [hones j hj, show c'.getLsbD j = _ from hp j hj]
    simp
    omega
  have hbr : s.branch g i = s.setup g i := by simp only [branch, h.state]
  rw [hbr, Frontend.Atm.setup, hcol] at hc
  simp only at hc
  rw [if_pos hF, blink] at hc
  have hsd : (s.clock g i).startDecrypt = false := by rw [hc]; exact h.startDecrypt
  have hidle : (s.clock g i).decrypter.Idle := Cipher.clock_stop hr h.startDecrypt
  exact ⟨r', hb, { h.toUnstarted.clock hr hc h.durable rfl rfl with
    state := by rw [hc]; rfl
    deInput := by rw [hc]; rfl
    startDecrypt := hsd
    decrypter := hidle.workingAt _ }⟩

end Atm

section TopLevel

open Frontend.TopLevel

variable {g : Generics} {d : Durable} {a : NoteAllocator} {r : Nat → BitVec 8} {k m n : Nat}
  {t : TopLevel}

theorem Delivers.overwrites {ps : List Pins} (h : Delivers r k n ps) (hn : n < 8)
    (hr : Runs (clock g) NoReset t ps) {c : BitVec 7} (hm : m < 8)
    (ht : Overwriting g c d a r k m t.atm) :
    ∃ c m', m' < 8 ∧ Overwriting g c d a r n m' (run (clock g) t ps).atm := by
  induction h generalizing t c m with
  | nil => exact ⟨c, m, hm, ht⟩
  | other p ps hp _ ih => exact ih hn hr.2 hm (ht.other hm hr.1 hp)
  | @byte p ps k n hv ha hd hps ih =>
    have hk := hps.le
    obtain ⟨hp, hb⟩ := ht.collect (i := t.edge p) (by omega) hv ha hd
    exact ih hn hr.2 (m := max m (k + 1)) (by omega)
      (ht.clock hr.1 (by omega) (by omega) hp hb)

theorem Attempts.overwrites {ps : List Pins} (h : Attempts ps) (hr : Runs (clock g) NoReset t ps)
    {c : BitVec 7} (hm : m < 8) (ht : Overwriting g c d a r 0 m t.atm) :
    ∃ c m', m' < 8 ∧ ∀ r, Overwriting g c d a r 0 m' (run (clock g) t ps).atm := by
  have hany {r r' : Nat → BitVec 8} {c : BitVec 7} {m k : Nat} {s : Frontend.Atm}
      (h : Overwriting g c d a r k m s) : Overwriting g c d a r' 0 m s :=
    { h with le := Nat.zero_le _, bytes := fun j hj => absurd hj (Nat.not_lt_zero j) }
  induction h generalizing t c m r with
  | nil => exact ⟨c, m, hm, fun _ => hany ht⟩
  | cons r' n qs ps hn hqs _ ih =>
    obtain ⟨hqr, hpr⟩ := (runs_append qs ps).mp hr
    obtain ⟨c', m', hm', hq⟩ := hqs.overwrites hn hqr hm (hany ht)
    rw [run_append]
    exact ih hpr hm' (r := r') (hany hq)

theorem noReset_of_released {ps : List Pins} (h : ∀ p ∈ ps, p.reset = false) :
    Runs (clock g) NoReset powerUp ps := by
  have hreleased : Runs (clock g) (fun p _ => p.reset = false) powerUp ps :=
    runs_of_forall fun p hp _ => h p hp
  refine hreleased.strengthen
    (P := fun t : TopLevel => t.resetDebouncer.buttonDeb = false) (fun p t hp ht => ⟨ht, ?_⟩) rfl
  change (Debouncer.clock p.reset t.resetDebouncer).buttonDeb = false
  rw [hp]
  cases ho : t.resetDebouncer.oldbutton with
  | true => simp [Debouncer.clock, ho, ht]
  | false =>
    simp only [Debouncer.clock, ho, ne_eq, not_true_eq_false, if_false]
    split
    · rfl
    · exact ht

theorem overwriting_powerUp (g : Generics) :
    Overwriting g 0 (booted 0) NoteAllocator.powerUp (fun _ => 0) 0 0 powerUp.atm where
  durable := by decide
  addr := rfl
  timeCounter := Nat.zero_le _
  startNoteAllocation := rfl
  allocator := rfl
  state := rfl
  le := le_rfl
  present := fun j _ => by simp [powerUp, Frontend.Atm.powerUp]
  bytes := fun j hj => absurd hj (Nat.not_lt_zero j)
  startDecrypt := rfl
  decrypter := ⟨rfl, rfl⟩

theorem deciphers_setup {c : BitVec 7} {x : BitVec 64} {js : List Pins} (hl : js.length ≤ 34)
    (hr : Runs (clock g) NoReset t js) (ht : t.atm.DecryptingSetup g c d a x 0) :
    ∃ c, (run (clock g) t js).atm.DecryptingSetup g c d a x js.length := by
  have hp := hr.progress (P := fun k t => ∃ c, t.atm.DecryptingSetup g c d a x k) (m := 34) (n := 0)
    (fun k hk p t hp ⟨c, hc⟩ => ⟨_, hc.clock hk hp⟩) ⟨c, ht⟩ (by omega)
  rwa [Nat.zero_add] at hp

/-- After any number of interrupted attempts the limits are those of the first message that is
written in full, 35 edges after its last byte. -/
theorem configuration_arrives (g : Generics) (maxAmount : BitVec 32) (n2000 n1000 n500 n100 : BitVec 8)
    (as qs : List Pins) (p : Pins) (js : List Pins) (has : Attempts as)
    (hqs : Delivers (replyByte (setupMessage maxAmount n2000 n1000 n500 n100)) 0 7 qs)
    (hv : p.h2fValid = true) (ha : p.chanAddr.toNat = 25)
    (hd : p.h2fData = replyByte (setupMessage maxAmount n2000 n1000 n500 n100) 7)
    (hjs : js.length = 35) (hr : Runs (clock g) NoReset powerUp (as ++ qs ++ [p] ++ js)) :
    (after g (as ++ qs ++ [p] ++ js)).atm.systemState = .ready ∧
      (after g (as ++ qs ++ [p] ++ js)).atm.limits = ⟨maxAmount, ⟨n2000, n1000, n500, n100⟩⟩ := by
  obtain ⟨hr, hrj⟩ := (runs_append _ js).mp hr
  obtain ⟨hr, hrp⟩ := (runs_concat _ p).mp hr
  obtain ⟨hra, hrs⟩ := (runs_append as qs).mp hr
  obtain ⟨c₁, m₁, hm₁, h₁⟩ := has.overwrites hra (by decide) (overwriting_powerUp g)
  obtain ⟨c₂, m₂, hm₂, h₂⟩ := hqs.overwrites (by decide) hrs hm₁ (h₁ _)
  rw [after_append, after_concat, after_append]
  rw [run_concat] at hrj
  rw [run_append] at hrp hrj
  generalize run (clock g) (after g as) qs = t at h₂ hrp hrj ⊢
  obtain ⟨x, hx, h₃⟩ := h₂.lastByte (g := g) (i := t.edge p) hrp hv ha hd
  obtain ⟨js, q, rfl⟩ : ∃ is q, js = is ++ [q] :=
    (List.eq_nil_or_concat' js).resolve_left fun h => by simp [h] at hjs
  rw [List.length_append, List.length_singleton] at hjs
  obtain ⟨hrj, hrq⟩ := (runs_concat js q).mp hrj
  obtain ⟨c₄, h₄⟩ := deciphers_setup (by omega) hrj h₃
  rw [show js.length = 34 by omega] at h₄
  obtain ⟨hu, hst⟩ := h₄.ready hrq
  rw [run_concat]
  exact ⟨hst, (congrArg Durable.limits hu.durable).trans
    (limits_setupMessage maxAmount n2000 n1000 n500 n100 hx)⟩

theorem configuration_arrives_after_retry : ∃ ps, (after {} ps).atm.systemState = .ready ∧
    (after {} ps).atm.limits = ⟨20000, ⟨10, 20, 30, 40⟩⟩ := by
  let r := replyByte (setupMessage 20000 10 20 30 40)
  let write (k : Nat) (b : BitVec 8) := writePins (BitVec.ofNat 7 (18 + k)) b
  have has : Attempts ([write 0 0xff] ++ []) :=
    .cons (fun _ => 0xff) 1 _ _ (by decide) (.byte _ _ rfl rfl rfl .nil) .nil
  have hqs : Delivers r 0 7 [write 0 (r 0), write 1 (r 1), write 2 (r 2), write 3 (r 3),
      write 4 (r 4), write 5 (r 5), write 6 (r 6)] :=
    .byte _ _ rfl rfl rfl <| .byte _ _ rfl rfl rfl <| .byte _ _ rfl rfl rfl <|
      .byte _ _ rfl rfl rfl <| .byte _ _ rfl rfl rfl <| .byte _ _ rfl rfl rfl <|
      .byte _ _ rfl rfl rfl .nil
  refine ⟨_, configuration_arrives {} 20000 10 20 30 40 _ _ (write 7 (r 7))
    (List.replicate 35 (idlePins 25 {} 0)) has hqs rfl rfl rfl rfl (noReset_of_released ?_)⟩
  intro p hp
  simp only [List.mem_append, List.mem_cons, List.not_mem_nil, or_false, List.mem_replicate] at hp
  rcases hp with ((rfl | rfl | rfl | rfl | rfl | rfl | rfl | rfl) | rfl) | ⟨-, rfl⟩ <;> rfl

end TopLevel

end AtmController.System
