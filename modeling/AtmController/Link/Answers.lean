import AtmController.Link.Requests

namespace AtmController.Link

open Effect Chunks FLContext

namespace FLContext

variable {bs bs' : List (BitVec 8)} {ns : List Read} {ks : List Nat}
  {rs rs' : List CompletionReport} {c c' c'' : FLContext} {cs cs' : List Command} {buffer : ReadBuffer}

def readsInto (buffer : ReadBuffer) (cs : List Command) : List Read :=
  (cs.filterMap Command.reply).map (Read.mk · buffer)

@[simp] theorem count_readsInto (buffer : ReadBuffer) (cs : List Command) :
    (readsInto buffer cs).map Read.count = cs.filterMap Command.reply := by
  rw [readsInto, List.map_map]
  exact List.map_id _

theorem readsInto_append (buffer : ReadBuffer) (cs cs' : List Command) :
    readsInto buffer (cs ++ cs') = readsInto buffer cs ++ readsInto buffer cs' := by
  rw [readsInto, List.filterMap_append, List.map_append]
  rfl

theorem Answers.exists_replies (h : c.Answers ks) (hns : ns.map Read.count = ks) :
    ∃ rs ps, c.repliesTo ns = some (rs, ps) ∧ ∀ r ∈ rs, r.Whole := by
  obtain ⟨rs, ps, hr, hfull⟩ := h
  obtain ⟨⟨cs, qs⟩, hcs, heq⟩ := Option.map_eq_some_iff.mp hr
  obtain ⟨rfl, rfl⟩ := Prod.mk.inj heq
  have hcount : (c.inFlight ++ ks.map (Read.mk · .own)).map Read.count =
      (c.inFlight ++ ns).map Read.count := by
    rw [List.map_append, List.map_append, hns, List.map_map]
    exact congrArg _ (List.map_id _)
  obtain ⟨cs', hcs', hfull'⟩ :=
    exists_completions hcount hcs fun r hr => hfull r (List.mem_append_right _ hr)
  refine ⟨c.held ++ cs', qs, ?_, fun r hr => ?_⟩
  · rw [repliesTo, hcs', Option.map_some]
  · rcases List.mem_append.mp hr with hr | hr
    · exact hfull r (List.mem_append_left _ hr)
    · exact hfull' r hr

theorem Served.answers (h : Served bs ns rs c c') (ha : c.Answers (ns.map Read.count ++ ks)) :
    (∀ r ∈ rs, r.Whole) ∧ c'.Answers ks := by
  have hns : (ns ++ ks.map (Read.mk · .own)).map Read.count = ns.map Read.count ++ ks := by
    simp [Function.comp_def]
  obtain ⟨rs', ps, hr, hfull⟩ := ha.exists_replies hns
  rw [repliesTo_append, h.replies, Option.bind_map] at hr
  cases h' : c'.replies with
  | none => simp [h'] at hr
  | some r =>
    cases hs : completions (ks.map (Read.mk · .own)) r.2 with
    | none => simp [h', hs] at hr
    | some s =>
      simp only [h', Option.bind_some, Function.comp, hs, Option.map_some, Option.some.injEq,
        Prod.mk.injEq] at hr
      obtain ⟨rfl, rfl⟩ := hr
      refine ⟨fun r hr => hfull r (by simp [hr]), r.1 ++ s.1, s.2, ?_, fun r hr => hfull r ?_⟩
      · rw [repliesTo_eq, h', Option.bind_some, hs, Option.map_some]
      · simp only [List.append_assoc, List.mem_append] at hr ⊢
        exact .inr hr

/-- In the course from `c` to `c'` there was no whole reply to a read that was under way or to one
of the commands `cs`, up to which all was submitted. -/
def Starved (cs : List Command) (c c' : FLContext) : Prop :=
  Unanswered c c' ∨ ∃ cs₁, cs₁ <+: cs ∧
    c.stream ++ cs₁.flatMap Command.encode <+: c'.submitted.flatten ∧
    ¬ c.Answers (cs₁.filterMap Command.reply)

theorem Starved.mono (h : Starved cs c c') : Starved (cs ++ cs') c c' :=
  h.imp_right fun ⟨cs₁, hcs, hrest⟩ => ⟨cs₁, hcs.trans (List.prefix_append _ _), hrest⟩

theorem stream_of_buffered (hb : c.buffered = []) : c.stream = c.submitted.flatten := by
  rw [stream, hb, List.append_nil]

theorem flatten_mono {α : Type} {xs ys : List (List α)} (h : xs <+: ys) :
    xs.flatten <+: ys.flatten := by
  obtain ⟨zs, rfl⟩ := h
  rw [List.flatten_append]
  exact List.prefix_append _ _

theorem Served.answers_commands
    (h : Served (cs.flatMap Command.encode) (readsInto buffer cs) rs c c')
    (ha : c.Answers ((cs ++ cs').filterMap Command.reply)) :
    (∀ r ∈ rs, r.Whole) ∧ c'.Answers (cs'.filterMap Command.reply) := by
  rw [List.filterMap_append, ← count_readsInto buffer cs] at ha
  exact h.answers ha

theorem Served.starved
    (h : Served (cs.flatMap Command.encode) (readsInto buffer cs) rs c c')
    (hb : c'.buffered = []) (h' : Starved cs' c' c'') : Starved (cs ++ cs') c c'' := by
  right
  rcases h' with h' | ⟨cs₁, hcs, hsub, hn⟩
  · refine ⟨cs, List.prefix_append _ _, ?_, fun ha => ?_⟩
    · rw [← h.stream, stream_of_buffered hb]
      exact flatten_mono h'.2
    · rw [← List.append_nil cs] at ha
      exact h'.1 (h.answers_commands ha).2
  · refine ⟨cs ++ cs₁, (List.prefix_append_right_inj _).mpr hcs, ?_,
      fun ha => hn (h.answers_commands ha).2⟩
    rwa [List.flatMap_append, ← List.append_assoc, ← h.stream]

/-- The commands `cs` were issued, and the replies that were collected brought `data`. -/
def Returned (buffer : ReadBuffer) (cs : List Command) (data : List (BitVec 8))
    (c c' : FLContext) : Prop :=
  ∃ rs, Served (cs.flatMap Command.encode) (readsInto buffer cs) rs c c' ∧
    rs.flatMap CompletionReport.data = data

theorem Returned.trans {data data' : List (BitVec 8)} (h : Returned buffer cs data c c')
    (h' : Returned buffer cs' data' c' c'') : Returned buffer (cs ++ cs') (data ++ data') c c'' := by
  obtain ⟨rs, hs, rfl⟩ := h
  obtain ⟨rs', hs', rfl⟩ := h'
  refine ⟨rs ++ rs', ?_, List.flatMap_append⟩
  rw [List.flatMap_append, readsInto_append]
  exact hs.trans hs'

theorem Returned.starved {data : List (BitVec 8)} (h : Returned buffer cs data c c')
    (hb : c'.buffered = []) (h' : Starved cs' c' c'') : Starved (cs ++ cs') c c'' :=
  h.elim fun _ h => h.1.starved hb h'

theorem Returned.ok {data : List (BitVec 8)} (h : Returned buffer cs data c c') : c'.Ok :=
  h.elim fun _ h => h.1.toOk

theorem Returned.isCommCapable {data : List (BitVec 8)} (h : Returned buffer cs data c c')
    (hcap : c.isCommCapable = true) : c'.isCommCapable = true :=
  h.elim fun _ h => h.1.isCommCapable.trans hcap

end FLContext

theorem CompletionReport.length_data {r : CompletionReport} {n : Nat} (hr : r.read = ⟨n, .own⟩)
    (hfull : r.Whole) : r.data.length = n := by
  obtain ⟨isRead, requestLength, buffer⟩ := r
  obtain ⟨rfl, hbuffer⟩ := Read.mk.inj hr
  cases buffer with
  | own data => exact hfull
  | borrowed k => cases hbuffer

theorem CompletionReport.length_data_borrowed {r : CompletionReport} {n : Nat}
    (hr : r.read = ⟨n, .borrowed⟩) : r.data.length = 0 := by
  obtain ⟨isRead, requestLength, buffer⟩ := r
  obtain ⟨-, hbuffer⟩ := Read.mk.inj hr
  cases buffer with
  | own data => cases hbuffer
  | borrowed k => rfl

variable {c : FLContext} {r : Read} {n : Nat} {ks : List Read}

theorem awaitReply_spec (hc : c.Ok) (hp : c.pending = r :: ks) :
    wp flReadChannelAsyncAwait
      (fun report c' => report.read = r ∧ c'.pending = ks ∧ c'.buffered = c.buffered ∧
        Served [] [] [report] c c')
      (fun _ c' => Unanswered c c') c := by
  refine wp_mono (fun report c' h => ?_) (fun _ _ he => ?_) (flReadChannelAsyncAwait_spec hc)
  · have hpend := h.2.pending
    rw [hp, List.append_nil, List.map_singleton, List.singleton_append, List.cons.injEq] at hpend
    exact ⟨hpend.1, hpend.2, h.1, h.2⟩
  · rw [hp] at he
    exact he.resolve_right (List.cons_ne_nil _ _)

theorem awaitWhole_spec (hc : c.Ok) (hp : c.pending = ⟨n, .own⟩ :: ks) :
    wp awaitWhole
      (fun data c' => data.length = n ∧ c'.pending = ks ∧ c'.buffered = c.buffered ∧
        Returned .own [] data c c')
      (fun _ c' => Unanswered c c') c := by
  rw [awaitWhole, wp_bind]
  refine wp_mono (fun report c' h => ?_) (fun _ _ he => he) (awaitReply_spec hc hp)
  obtain ⟨hread, hks, hb, hs⟩ := h
  by_cases hfull : report.Whole
  · rw [if_neg (not_not.mpr hfull)]
    exact ⟨report.length_data hread hfull, hks, hb, [report], hs, by simp⟩
  · rw [if_pos hfull]
    refine ⟨fun ha => hfull ?_, hs.grows⟩
    have hans := hs.answers (ha : c.Answers ([].map Read.count ++ []))
    exact hans.1 report (List.mem_singleton_self report)

theorem readSubmit_spec (hc : c.Ok) (hcap : c.isCommCapable = true) (chan : BitVec 8) {count : Nat}
    (hpos : 0 < count) (hle : count ≤ maxLength) (buffer : ReadBuffer) :
    wp (flReadChannelAsyncSubmit chan count buffer)
      (fun _ c' => c'.buffered = [] ∧ c'.pending = c.pending ++ [⟨count, buffer⟩] ∧
        Returned buffer (readCommands (chan.setWidth 7) count) [] c c')
      (fun _ c' => Unanswered c c') c := by
  refine wp_mono (fun _ c' h => ?_) (fun _ _ he => he)
    (flReadChannelAsyncSubmit_spec hc hcap chan hpos hle buffer)
  refine ⟨h.1, h.2.pending, [], ?_, rfl⟩
  rw [readCommands_of_le _ hpos hle]
  simpa [readsInto, Command.encode, Command.reply] using h.2

theorem submit_awaitWhole_spec (hc : c.Ok) (hcap : c.isCommCapable = true) (chan : BitVec 8)
    {count : Nat} (hpos : 0 < count) (hle : count ≤ maxLength)
    (hp : c.pending ++ [⟨count, .own⟩] = ⟨n, .own⟩ :: ks) :
    wp (flReadChannelAsyncSubmit chan count .own)
      (fun _ => wp awaitWhole
        (fun data c' => data.length = n ∧ c'.pending = ks ∧ c'.buffered = [] ∧
          Returned .own (readCommands (chan.setWidth 7) count) data c c')
        fun _ c' => Starved (readCommands (chan.setWidth 7) count) c c')
      (fun _ c' => Starved (readCommands (chan.setWidth 7) count) c c') c := by
  refine wp_mono (fun _ c1 h1 => ?_) (fun _ _ he => .inl he)
    (readSubmit_spec hc hcap chan hpos hle .own)
  obtain ⟨hb, hp1, hr⟩ := h1
  refine wp_mono (fun data c2 h2 => ?_) (fun _ c2 he => ?_)
    (awaitWhole_spec hr.ok (hp1.trans hp))
  · obtain ⟨hn, hks, hb2, hr2⟩ := h2
    exact ⟨hn, hks, hb2.trans hb, by simpa using hr.trans hr2⟩
  · have hst : Starved [] c1 c2 := .inl he
    simpa using hr.starved hb hst

theorem readBlocks_spec (hc : c.Ok) (hcap : c.isCommCapable = true) (hb : c.buffered = [])
    (chan : BitVec 8) (count : Nat) (hp : c.pending = [⟨n, .own⟩]) :
    wp (readBlocks chan count)
      (fun data c' => (∃ k, c'.pending = [⟨k, .own⟩] ∧ data.length + k = n + count) ∧ c'.buffered = [] ∧
        Returned .own (readCommands (chan.setWidth 7) count) data c c')
      (fun _ c' => Starved (readCommands (chan.setWidth 7) count) c c') c := by
  induction hn : count using Nat.strongRecOn generalizing c n count with
  | ind m ih =>
    subst hn
    rw [readBlocks, wp_ite]
    split
    · next hle =>
      obtain ⟨k, rfl⟩ := Nat.exists_eq_add_of_le (show maxLength ≤ count from hle)
      rw [readCommands_add, wp_bind]
      refine wp_mono (fun _ _ h => ?_) (fun _ _ he => he.mono)
        (submit_awaitWhole_spec hc hcap chan maxLength_pos le_rfl (congrArg (· ++ [_]) hp))
      rw [wp_bind]
      refine wp_mono (fun block c1 h1 => ?_) (fun _ _ he => he.mono) h
      obtain ⟨hlen, hp1, hb1, hr1⟩ := h1
      rw [wp_bind, show maxLength + k - 0x10000 = k from Nat.add_sub_cancel_left ..]
      refine wp_mono (fun rest c2 h2 => ?_) (fun _ _ he => hr1.starved hb1 he)
        (ih k (Nat.lt_add_of_pos_left maxLength_pos) hr1.ok (hr1.isCommCapable hcap) hb1 k hp1 rfl)
      obtain ⟨⟨l, hp2, hl⟩, hb2, hr2⟩ := h2
      change rest.length + l = maxLength + k at hl
      refine ⟨⟨l, hp2, ?_⟩, hb2, hr1.trans hr2⟩
      rw [List.length_append]
      omega
    · next hlt =>
      rw [wp_ite]
      split
      · next hne =>
        have hpos : 0 < count := Nat.pos_of_ne_zero hne
        have hle : count ≤ maxLength := by
          unfold maxLength
          omega
        rw [wp_bind]
        refine wp_mono (fun _ _ h => ?_) (fun _ _ he => he)
          (submit_awaitWhole_spec hc hcap chan hpos hle (congrArg (· ++ [_]) hp))
        refine wp_mono (fun data c1 h1 => ?_) (fun _ _ he => he) h
        obtain ⟨hlen, hp1, hb1, hr1⟩ := h1
        exact ⟨⟨count, hp1, by omega⟩, hb1, hr1⟩
      · next h0 =>
        rw [not_not.mp h0, readCommands_zero]
        exact ⟨⟨n, hp, by simp⟩, hb, [], (Appended.refl hc).served, rfl⟩

theorem flReadChannel_spec (hc : c.Ok) (hcap : c.isCommCapable = true) (chan : BitVec 8)
    {count : Nat} (hpos : 0 < count) (hp : c.pending = []) :
    wp (flReadChannel chan count)
      (fun data c' => data.length = count ∧ c'.pending = [] ∧ c'.buffered = [] ∧
        Returned .own (readCommands (chan.setWidth 7) count) data c c')
      (fun _ c' => Starved (readCommands (chan.setWidth 7) count) c c') c := by
  rw [flReadChannel]
  simp only [wp_bind, wp_get, hcap, if_neg hpos.ne', Bool.true_eq_false, if_false]
  rw [wp_ite]
  split
  · next hle =>
    obtain ⟨k, rfl⟩ := Nat.exists_eq_add_of_le (show maxLength ≤ count from hle)
    rw [readCommands_add, wp_bind]
    refine wp_mono (fun _ c1 h1 => ?_) (fun _ _ he => .inl he)
      (readSubmit_spec hc hcap chan maxLength_pos le_rfl .own)
    obtain ⟨hb1, hp1, hr1⟩ := h1
    rw [hp] at hp1
    rw [wp_bind, show maxLength + k - 0x10000 = k from Nat.add_sub_cancel_left ..]
    refine wp_mono (fun data c2 h2 => ?_) (fun _ _ he => hr1.starved hb1 he)
      (readBlocks_spec hr1.ok (hr1.isCommCapable hcap) hb1 chan k hp1)
    obtain ⟨⟨l, hp2, hl⟩, hb2, hr2⟩ := h2
    change data.length + l = maxLength + k at hl
    have hr12 : Returned .own (readCommands (chan.setWidth 7) maxLength ++
      readCommands (chan.setWidth 7) k) data c c2 := hr1.trans hr2
    rw [wp_bind]
    refine wp_mono (fun last c3 h3 => ?_) (fun _ c3 he => ?_) (awaitWhole_spec hr2.ok hp2)
    · obtain ⟨hlen, hp3, hb3, hr3⟩ := h3
      refine ⟨?_, hp3, hb3.trans hb2, by simpa using hr12.trans hr3⟩
      rw [List.length_append]
      omega
    · have hst : Starved [] c2 c3 := .inl he
      simpa using hr12.starved hb2 hst
  · next hlt =>
    have hle : count ≤ maxLength := by
      unfold maxLength
      omega
    rw [wp_bind]
    exact wp_mono (fun _ _ h => h) (fun _ _ he => he)
      (submit_awaitWhole_spec hc hcap chan hpos hle (congrArg (· ++ [_]) hp))

end AtmController.Link
