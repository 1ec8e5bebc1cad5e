import Stoker.PackBuilder.Breaker

/-!
# Splitting a built pack

`validate_config` makes sure that the breaker splits the given events where they were joined, but
`write_pack` stores the events with their stand-ins and a line end behind the last one. The sample
that is written splits into the stored events exactly when the breaker matches at the beginning of
every stored event but the first, and nowhere else but at the beginning of the first one and at the
line ends between them.
-/

open List

namespace Stoker

open Rewriting Transition Framing

/-! ### Splitting as cutting -/

lemma strips_newline : decide (('\n' : Char) = '\r' ∨ ('\n' : Char) = '\n') = true := by decide

lemma SplitLibs.space_of_strips (S : SplitLibs) (c : Char)
    (h : decide (c = '\r' ∨ c = '\n') = true) : S.isSpace c = true := by
  rcases of_decide_eq_true h with rfl | rfl
  · exact S.space_return
  · exact S.space_newline

/-- Events are joined with a line feed, line feeds and carriage returns are stripped behind them. -/
def SplitLibs.layout (S : SplitLibs) : Layout Char where
  lineEnd := '\n'
  strips c := c = '\r' ∨ c = '\n'
  space := S.isSpace
  strips_lineEnd := strips_newline
  space_of_strips := S.space_of_strips

lemma sampleText_eq (S : SplitLibs) {events : List Text} (h : events ≠ []) :
    sampleText events = S.layout.join events := by
  induction events with
  | nil => exact absurd rfl h
  | cons e es ih =>
    cases es with
    | nil => simp [sampleText, joinEvents, SplitLibs.layout]
    | cons e' es =>
      rw [Layout.join_cons, ← ih (cons_ne_nil _ _)]
      simp [sampleText, joinEvents, intercalate, SplitLibs.layout]

def Breaker.cuts (rx : Breaker) (text : Text) : List ℕ :=
  ((rx.finditer text).map Match.start).filter (· ≠ 0)

section

variable {S : SplitLibs} {rx : Breaker} {text : Text} {ms : List Match} {raw cfg : SampleConfig}

lemma breakStep_ok {st st' : List Text × ℕ} (h : ms.foldlM (breakStep text) st = .ok st') :
    (∀ m ∈ ms, m.stop ≠ m.start) ∧ st'.1 ++ [text.drop st'.2] =
      st.1 ++ pieces text st.2 ((ms.map Match.start).filter (· ≠ 0)) := by
  induction ms generalizing st with
  | nil =>
    cases h
    exact ⟨fun m hm => absurd hm not_mem_nil, rfl⟩
  | cons m ms ih =>
    obtain ⟨mid, hstep, hrest⟩ := foldlM_cons_ok h
    obtain ⟨hne, hpieces⟩ := ih hrest
    unfold breakStep at hstep
    split_ifs at hstep with hempty hstart
    · cases hstep
      refine ⟨forall_mem_cons.2 ⟨hempty, hne⟩, ?_⟩
      rw [hpieces, map_cons, filter_cons_of_pos (by simpa using hstart), pieces, slice,
        append_assoc]
      rfl
    · cases hstep
      refine ⟨forall_mem_cons.2 ⟨hempty, hne⟩, ?_⟩
      rw [hpieces, map_cons, filter_cons_of_neg (by simpa using hstart)]

lemma exists_breakStep (h : ∀ m ∈ ms, m.stop ≠ m.start) (st : List Text × ℕ) :
    ∃ st', ms.foldlM (breakStep text) st = .ok st' := by
  induction ms generalizing st with
  | nil => exact ⟨st, rfl⟩
  | cons m ms ih =>
    obtain ⟨hm, hms⟩ := forall_mem_cons.1 h
    obtain ⟨mid, hmid⟩ : ∃ mid, breakStep text st m = .ok mid := by
      unfold breakStep
      rw [if_neg hm]
      split_ifs
      · exact ⟨_, rfl⟩
      · exact ⟨_, rfl⟩
    obtain ⟨st', hst'⟩ := ih hms mid
    refine ⟨st', ?_⟩
    rw [foldlM_cons, hmid]
    exact hst'

variable {breaker : Text} {events : List Text}

/-- What a breaker splits a text into, if it matches no empty text there. -/
lemma breakEvents_ok_iff (hrx : checkBreaker S breaker = .ok rx) :
    breakEvents S text breaker = .ok events ↔
    (∀ m ∈ rx.finditer (unifyLineEnds text), m.start < m.stop) ∧
      S.layout.keep (pieces (unifyLineEnds text) 0 (rx.cuts (unifyLineEnds text))) = events := by
  have hlt : (∀ m ∈ rx.finditer (unifyLineEnds text), m.start < m.stop) ↔
      ∀ m ∈ rx.finditer (unifyLineEnds text), m.stop ≠ m.start :=
    forall₂_congr fun m hm => ⟨fun h => h.ne', fun h => (rx.forward _ m hm).lt_of_ne' h⟩
  rw [hlt, breakEvents, hrx]
  constructor
  · intro h
    obtain ⟨_, hok, h⟩ := bind_ok h
    cases hok
    obtain ⟨st, hst, h⟩ := bind_ok h
    obtain ⟨hne, hpieces⟩ := breakStep_ok hst
    cases h
    rw [hpieces]
    exact ⟨hne, rfl⟩
  · rintro ⟨hne, rfl⟩
    obtain ⟨st, hst⟩ := exists_breakStep hne ([], 0)
    obtain ⟨-, hpieces⟩ := breakStep_ok hst
    change ((rx.finditer (unifyLineEnds text)).foldlM (breakStep (unifyLineEnds text)) ([], 0) >>=
      _) = _
    rw [hst]
    change Except.ok _ = _
    rw [hpieces]
    rfl

lemma Breaker.pairwise_cuts (h : ∀ m ∈ rx.finditer text, m.start < m.stop) :
    (0 :: rx.cuts text).Pairwise (· < ·) ∧ ∀ c ∈ rx.cuts text, c < text.length := by
  refine ⟨pairwise_cons.2 ⟨fun c hc => ?_, List.Pairwise.filter _ (pairwise_map.2 ?_)⟩,
    fun c hc => ?_⟩
  · exact Nat.pos_of_ne_zero (by simpa using (mem_filter.1 hc).2)
  · exact (rx.apart text).imp_of_mem fun {m m'} hm _ hle => (h m hm).trans_le hle
  · obtain ⟨m, hm, rfl⟩ := mem_map.1 (mem_filter.1 hc).1
    exact (h m hm).trans_le (rx.bounded text m hm).1

lemma count_unifyLineEnds (t : Text) : (unifyLineEnds t).count '\r' ≤ t.count '\r' ∧
    ((unifyLineEnds t).count '\r' = t.count '\r' → unifyLineEnds t = t) := by
  fun_induction unifyLineEnds t with
  | case1 => exact ⟨le_rfl, fun _ => rfl⟩
  | case2 t ih =>
    have hlost : ('\n' :: unifyLineEnds t).count '\r' < ('\r' :: '\n' :: t).count '\r' := by
      simpa [Nat.lt_succ_iff] using ih.1
    exact ⟨hlost.le, fun h => absurd h hlost.ne⟩
  | case3 c t _ ih =>
    simp only [count_cons, add_le_add_iff_right, add_left_inj]
    exact ⟨ih.1, fun h => by rw [ih.2 h]⟩

/-- The breaker matches at the beginning of every event but the first, and nowhere else but at the
beginning of the first one and at the line ends between them, in a sample whose events it can give
back. -/
structure BreaksAtEvents (S : SplitLibs) (rx : Breaker) (events : List Text) : Prop where
  lineEnds : unifyLineEnds (sampleText events) = sampleText events
  stands : ∀ e ∈ events, S.layout.Stands e
  nonempty : ∀ m ∈ rx.finditer (sampleText events), m.start < m.stop
  each : ∀ s ∈ starts 0 events, s ≠ 0 → ∃ m ∈ rx.finditer (sampleText events), m.start = s
  only : ∀ m ∈ rx.finditer (sampleText events), m.start ∈ starts 0 events ∨ m.start ∈ stops 0 events

lemma cutsBetween_iff (hne : events ≠ []) : CutsBetween 0 events (rx.cuts text) ↔
    (∀ s ∈ starts 0 events, s ≠ 0 → ∃ m ∈ rx.finditer text, m.start = s) ∧
      ∀ m ∈ rx.finditer text, m.start ∈ starts 0 events ∨ m.start ∈ stops 0 events := by
  have hmem : ∀ c, c ∈ rx.cuts text ↔ (∃ m ∈ rx.finditer text, m.start = c) ∧ c ≠ 0 := by
    intro c
    rw [Breaker.cuts, mem_filter, mem_map, decide_eq_true_iff]
  constructor
  · rintro ⟨heach, honly⟩
    refine ⟨fun s hs hs₀ => ?_, fun m hm => ?_⟩
    · rcases mem_cons.1 (heach s hs) with h | h
      · exact absurd h hs₀
      · exact ((hmem s).1 h).1
    · by_cases h₀ : m.start = 0
      · obtain ⟨e, es, rfl⟩ := exists_cons_of_ne_nil hne
        rw [h₀]
        exact .inl mem_cons_self
      · exact honly _ ((hmem _).2 ⟨⟨m, hm, rfl⟩, h₀⟩)
  · rintro ⟨heach, honly⟩
    refine ⟨fun s hs => ?_, fun c hc => ?_⟩
    · by_cases hs₀ : s = 0
      · rw [hs₀]
        exact mem_cons_self
      · exact mem_cons_of_mem _ ((hmem s).2 ⟨heach s hs hs₀, hs₀⟩)
    · obtain ⟨⟨m, hm, rfl⟩, -⟩ := (hmem c).1 hc
      exact honly m hm

/-- What is split back has lost no carriage return. -/
lemma unifyLineEnds_of_splits_back (hrx : checkBreaker S breaker = .ok rx)
    (hne : events ≠ []) (h : breakEvents S (sampleText events) breaker = .ok events) :
    unifyLineEnds (sampleText events) = sampleText events := by
  obtain ⟨hlt, hkeep⟩ := (breakEvents_ok_iff hrx).1 h
  obtain ⟨hsorted, hbound⟩ := Breaker.pairwise_cuts hlt
  have hle := count_keep_le (L := S.layout) '\r'
    (pieces (unifyLineEnds (sampleText events)) 0 (rx.cuts (unifyLineEnds (sampleText events))))
  have hr : '\r' ≠ S.layout.lineEnd := by
    change '\r' ≠ '\n'
    decide
  rw [hkeep, flatten_pieces hsorted hbound, drop_zero, ← count_join hr,
    ← sampleText_eq S hne] at hle
  obtain ⟨hle', hsame⟩ := count_unifyLineEnds (sampleText events)
  exact hsame (le_antisymm hle' hle)

/-- The sample of some events splits into them exactly when the breaker matches where they begin. -/
theorem splits_back_iff (hrx : checkBreaker S breaker = .ok rx)
    (hne : events ≠ []) :
    breakEvents S (sampleText events) breaker = .ok events ↔ BreaksAtEvents S rx events := by
  have hcuts : (∀ m ∈ rx.finditer (sampleText events), m.start < m.stop) →
      (S.layout.keep (pieces (sampleText events) 0 (rx.cuts (sampleText events))) = events ↔
        (∀ e ∈ events, S.layout.Stands e) ∧
        CutsBetween 0 events (rx.cuts (sampleText events))) := by
    intro hlt
    obtain ⟨hsorted, hbound⟩ := Breaker.pairwise_cuts hlt
    refine keep_pieces_iff S.layout ?_ hne hsorted (forall_mem_cons.2 ⟨?_, hbound⟩)
    · rw [drop_zero, sampleText_eq S hne]
    · simp [sampleText]
  constructor
  · intro h
    have hsame := unifyLineEnds_of_splits_back hrx hne h
    obtain ⟨hlt, hkeep⟩ := (breakEvents_ok_iff hrx).1 h
    rw [hsame] at hlt hkeep
    obtain ⟨hstands, hbetween⟩ := (hcuts hlt).1 hkeep
    obtain ⟨heach, honly⟩ := (cutsBetween_iff hne).1 hbetween
    exact ⟨hsame, hstands, hlt, heach, honly⟩
  · rintro ⟨hsame, hstands, hlt, heach, honly⟩
    rw [breakEvents_ok_iff hrx, hsame]
    exact ⟨hlt, (hcuts hlt).2 ⟨hstands, (cutsBetween_iff hne).2 ⟨heach, honly⟩⟩⟩

/-! ### Validated configs -/

lemma unifyLineEnds_of_not_mem {t : Text} (h : '\r' ∉ t) : unifyLineEnds t = t := by
  have hnone : (unifyLineEnds t).count '\r' = t.count '\r' := by
    have hle := (count_unifyLineEnds t).1
    rw [count_eq_zero.2 h] at hle ⊢
    exact Nat.le_zero.1 hle
  exact (count_unifyLineEnds t).2 hnone

lemma not_mem_of_cleanEvent {breaker : Option Text} {index : ℕ} {raw event : Text}
    (h : cleanEvent S breaker index raw = .ok event) : '\r' ∉ event := by
  unfold cleanEvent at h
  dsimp only at h
  split_ifs at h with _ hlines
  cases h
  exact fun hr => hlines (.inl hr)

lemma not_mem_sampleText (S : SplitLibs) (hne : events ≠ []) (h : ∀ e ∈ events, '\r' ∉ e) :
    '\r' ∉ sampleText events := by
  rw [sampleText_eq S hne]
  intro hr
  obtain ⟨e, he, hr⟩ := mem_flatMap.1 hr
  rcases mem_append.1 hr with hr | hr
  · exact h e he hr
  · exact absurd (mem_singleton.1 hr) (show '\r' ≠ '\n' by decide)

/-- A validated config has events, none of them with a carriage return, and a breaker that compiles
and splits them where they are joined. -/
lemma validateConfig_ok (h : validateConfig S raw = .ok cfg) :
    cfg.events ≠ [] ∧ (∀ e ∈ cfg.events, '\r' ∉ e) ∧ ∀ breaker, cfg.breaker = some breaker →
      (∃ rx, checkBreaker S breaker = .ok rx) ∧
      breakEvents S (joinEvents cfg.events) breaker = .ok cfg.events := by
  obtain ⟨events, hevents, h⟩ := bind_ok h
  cases h
  unfold validateEvents at hevents
  split_ifs at hevents with hnil hmany
  obtain ⟨checked, hchecked, hevents⟩ := bind_ok hevents
  obtain ⟨clean, hclean, hevents⟩ := bind_ok hevents
  split_ifs at hevents
  obtain ⟨resplit, hresplit, hevents⟩ := bind_ok hevents
  cases hevents
  refine ⟨?_, fun e he => ?_, fun breaker hbreaker => ?_⟩
  · obtain ⟨e, es, hcons⟩ := exists_cons_of_ne_nil hnil
    rw [hcons, zipIdx_cons, mapM_cons] at hclean
    obtain ⟨_, _, hclean⟩ := bind_ok hclean
    obtain ⟨_, _, hclean⟩ := bind_ok hclean
    cases hclean
    exact cons_ne_nil _ _
  · obtain ⟨x, _, hx⟩ := exists_of_mem_mapM hclean e he
    exact not_mem_of_cleanEvent hx
  · dsimp only at hbreaker ⊢
    rw [hbreaker] at hchecked hresplit
    obtain ⟨rx, hrx, -⟩ := bind_ok hchecked
    obtain ⟨_, hresplit, -⟩ := bind_ok hresplit
    obtain ⟨events', hevents', hsame⟩ := bind_ok hresplit
    split_ifs at hsame with heq
    rw [heq] at hevents'
    exact ⟨⟨rx, hrx⟩, hevents'⟩

/-- Where the line end behind the last event makes no difference to the breaker, the events that
were validated are split back. -/
lemma splits_back_of_validated (hv : validateConfig S raw = .ok cfg)
    (hb : cfg.breaker = some breaker) (hrx : checkBreaker S breaker = .ok rx)
    (hsame : rx.finditer (sampleText cfg.events) = rx.finditer (joinEvents cfg.events)) :
    breakEvents S (sampleText cfg.events) breaker = .ok cfg.events := by
  obtain ⟨hne, hr, hbreaks⟩ := validateConfig_ok hv
  have hsample := not_mem_sampleText S hne hr
  have hjoin : '\r' ∉ joinEvents cfg.events := fun h => hsample (mem_append_left _ h)
  have hsplit := (breakEvents_ok_iff hrx).1 (hbreaks breaker hb).2
  rw [unifyLineEnds_of_not_mem hjoin] at hsplit
  obtain ⟨hlt, hkeep⟩ := hsplit
  obtain ⟨-, hbound⟩ := Breaker.pairwise_cuts hlt
  rw [breakEvents_ok_iff hrx, unifyLineEnds_of_not_mem hsample, Breaker.cuts, hsame, ← Breaker.cuts]
  exact ⟨hlt, (keep_pieces_concat S.layout (Nat.zero_le _) fun c hc =>
    (hbound c hc).le).trans hkeep⟩

/-- The events that are stored are as many as were given, and the given ones where there is no
pseudonym field. -/
lemma stored_events {libs : Libs} {cfg : Config} {subkey : Option (List UInt8)}
    {already : List Text}
    {out : BuildResult} (h : applyPseudonyms libs cfg subkey already = .ok out) :
    (cfg.events ≠ [] → out.events ≠ []) ∧ (pseudonymFields cfg = [] → out.events = cfg.events) := by
  refine ⟨fun hne hnil => ?_, fun hfields => ?_⟩
  · obtain ⟨_, _, -, -, hall⟩ := applyPseudonyms_ok h
    have hlen := hall.length_eq
    rw [hnil] at hlen
    exact hne (length_eq_zero_iff.1 hlen)
  · unfold applyPseudonyms at h
    rw [if_pos hfields] at h
    cases h
    rfl

end

/-- The sample that is written for a validated config with a breaker splits into the stored events
exactly when the breaker matches where the events begin once their stand-ins are in place. So it
does where there is no pseudonym field and the line end behind the last event makes no difference to
the breaker. -/
theorem built_pack_splits_back_iff (S : SplitLibs) (libs : Libs) {raw cfg : SampleConfig}
    (hv : validateConfig S raw = .ok cfg) {breaker : Text} (hb : cfg.breaker = some breaker)
    {subkey : Option (List UInt8)} {already : List Text} {out : BuildResult}
    (ha : applyPseudonyms libs cfg.toConfig subkey already = .ok out) :
    ∃ rx pack, checkBreaker S breaker = .ok rx ∧ writePack libs cfg subkey already = .ok pack ∧
      (breakEvents S pack.sample breaker = .ok pack.builder.events ↔
        BreaksAtEvents S rx out.events) ∧
      (pseudonymFields cfg.toConfig = [] →
        rx.finditer (sampleText cfg.events) = rx.finditer (joinEvents cfg.events) →
        breakEvents S pack.sample breaker = .ok pack.builder.events) := by
  obtain ⟨hne, -, hbreaks⟩ := validateConfig_ok hv
  obtain ⟨⟨rx, hrx⟩, -⟩ := hbreaks breaker hb
  obtain ⟨hstored, hfields⟩ := stored_events ha
  refine ⟨rx, { sample := sampleText out.events, builder := { cfg with events := out.events } },
    hrx, ?_, ?_, ?_⟩
  · rw [writePack, ha]
    rfl
  · exact splits_back_iff hrx (hstored hne)
  · intro hnone hsame
    rw [hfields hnone]
    exact splits_back_of_validated hv hb hrx hsame

/-! ### A breaker that matches an identifier -/

/-- What a pattern finds that is a fixed text at the beginning of a line. -/
def lineMatches (front : Text) : ℕ → Bool → ℕ → Text → List Match
  | _, _, _, [] => []
  | skip + 1, _, pos, c :: t => lineMatches front skip (c = '\n') (pos + 1) t
  | 0, first, pos, c :: t =>
    if first ∧ front.isPrefixOf (c :: t) then
      ⟨pos, pos + front.length, none⟩ :: lineMatches front (front.length - 1) (c = '\n') (pos + 1) t
    else lineMatches front 0 (c = '\n') (pos + 1) t

lemma lineMatches_spec (front : Text) (skip : ℕ) (first : Bool) (pos : ℕ) (t : Text) :
    (∀ m ∈ lineMatches front skip first pos t, pos + skip ≤ m.start ∧ m.start ≤ m.stop ∧
      m.stop ≤ pos + t.length ∧
      m.group = none) ∧ (lineMatches front skip first pos t).Pairwise fun m m' =>
        m.stop ≤ m'.start := by
  induction t generalizing skip first pos with
  | nil => exact ⟨fun m hm => absurd hm not_mem_nil, List.Pairwise.nil⟩
  | cons c t ih =>
    have hlater : ∀ skip', skip ≤ skip' + 1 → ∀ m ∈ lineMatches front skip' (c = '\n') (pos + 1) t,
        pos + skip ≤ m.start ∧ m.start ≤ m.stop ∧ m.stop ≤ pos + (c :: t).length ∧
        m.group = none := by
      intro skip' hskip m hm
      obtain ⟨hstart, hle, hstop, hgroup⟩ := (ih skip' _ _).1 m hm
      rw [length_cons]
      exact ⟨by omega, hle, by omega, hgroup⟩
    cases skip with
    | succ skip => exact ⟨hlater skip le_rfl, (ih skip _ _).2⟩
    | zero =>
      rw [lineMatches]
      split_ifs with hfront
      · have hlen := ( isPrefixOf_iff_prefix.1 hfront.2).length_le
        refine ⟨forall_mem_cons.2 ⟨⟨le_rfl, Nat.le_add_right _ _, Nat.add_le_add_left hlen _, rfl⟩,
          ?_⟩, ?_⟩
        · exact hlater _ (Nat.zero_le _)
        · refine pairwise_cons.2 ⟨fun m hm => ?_, (ih _ _ _).2⟩
          have hstart := ((ih _ _ _).1 m hm).1
          dsimp only
          omega
      · exact ⟨hlater 0 (Nat.zero_le _), (ih 0 _ _).2⟩

lemma lineMatches_bounded (front t : Text) : ∀ m ∈ lineMatches front 0 true 0 t,
    m.stop ≤ t.length ∧ ∀ g ∈ m.group, g.2 ≤ t.length := by
  intro m hm
  obtain ⟨-, -, hstop, hgroup⟩ := (lineMatches_spec front 0 true 0 t).1 m hm
  rw [hgroup]
  exact ⟨by omega, fun g hg => nomatch hg⟩

/-- The pattern of a caret and a fixed text. -/
def lineBreaker (front : Text) : Breaker where
  groups := 0
  finditer := lineMatches front 0 true 0
  bounded := lineMatches_bounded front
  forward t m hm := ((lineMatches_spec front 0 true 0 t).1 m hm).2.1
  apart t := (lineMatches_spec front 0 true 0 t).2

/-- ASCII, and patterns that are a caret and a fixed text. -/
def sampleSplit : SplitLibs where
  isSpace := Char.isWhitespace
  compile pattern :=
    match pattern with
    | '^' :: front => .ok (lineBreaker front)
    | _ => .error "unsupported"
  space_newline := rfl
  space_return := rfl

/-- Two events of one user, the first one with two lines, and a breaker that matches the user. -/
def usersSample (tokens : List Token) : SampleConfig where
  name := "users"
  events := ["user=123456 in\n at gate 1", "user=123456 out"]
  tokens := tokens
  breaker := some "^user=123456"

/-- Without a pseudonym field the pack splits back. -/
theorem built_pack_splits_back_plain :
    (validateConfig sampleSplit (usersSample [])).toOption = some (usersSample []) ∧
    ∃ pack, writePack sampleLibs (usersSample []) none [] = .ok pack ∧
      breakEvents sampleSplit pack.sample "^user=123456" = .ok pack.builder.events := by
  have hv : validateConfig sampleSplit (usersSample []) = .ok (usersSample []) := rfl
  have ha : applyPseudonyms sampleLibs (usersSample []).toConfig none [] =
      .ok { events := (usersSample []).events } := rfl
  obtain ⟨rx, pack, hrx, hw, -, hback⟩ :=
    built_pack_splits_back_iff sampleSplit sampleLibs hv rfl ha
  have hrx' : checkBreaker sampleSplit "^user=123456" = .ok (lineBreaker "user=123456") := rfl
  cases hrx.symm.trans hrx'
  exact ⟨by decide +kernel, pack, hw, hback rfl (by decide +kernel)⟩

/-- A pseudonym field rewrites what the breaker matches: two events are stored, and the sample is
split into one. -/
theorem built_pack_split_as_one :
    let cfg := usersSample [{ field := "user", pattern := "user=(\\S+)",
                              replacement := .pseudonym none false }]
    (validateConfig sampleSplit cfg).toOption = some cfg ∧
    ((writePack sampleLibs cfg (some [1]) []).toOption.map fun pack =>
      (pack.builder.events.map String.ofList,
        (breakEvents sampleSplit pack.sample "^user=123456").toOption.map fun es =>
          es.map String.ofList)) =
      some (["user=256789 in\n at gate 1", "user=256789 out"],
        some ["user=256789 in\n at gate 1\nuser=256789 out"]) := by
  decide +kernel

end Stoker
