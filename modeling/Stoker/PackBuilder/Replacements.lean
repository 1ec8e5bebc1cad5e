import Stoker.PackBuilder.Pseudonymise

/-!
# The replacements of a pass

A pass that succeeds made a list of replacements, event by event, field by field and match by match.
Its tables and its events can be read off that list: which stand-in is stored for a text is settled
by the last replacement of the text, which field it belongs to by the first, and no two replacements
with one stand-in are of different texts. An event comes out with its replacements made, in place.
-/

open List

namespace Stoker

open Rewriting Transition

/-- A text of an event that a field has replaced. -/
structure Replaced where
  row : PseudonymField
  policy : Option Format
  start : ℕ
  stop : ℕ
  normalised : Text
  standIn : Text
  deriving DecidableEq

def Replaced.format (r : Replaced) : Format := standInFormat r.policy r.normalised

/-- What is written for it. -/
def Replaced.edit (r : Replaced) : SpanEdit :=
  { start := r.start, stop := r.stop, new := r.standIn, label := r.row.label }

section

variable (libs : Libs) (key : List UInt8)

/-- The replacement that a match leads to. A match that is empty or has nothing to vary leads to
none. -/
def replacedBy (event : Text) (c : Compiled) (m : Match) : Option Replaced :=
  match c.rx.locate m with
  | none => none
  | some (s, e) =>
    if e ≤ s then none
    else (pseudonym libs key c.widen (slice event s e)).map fun standIn =>
      { row := c.row, policy := c.widen, start := s, stop := e
        normalised := libs.nfc (slice event s e), standIn := standIn }

def replacementsIn (compiled : List Compiled) (event : Text) : List Replaced :=
  compiled.flatMap fun c => (c.rx.finditer event).flatMap fun m =>
    (replacedBy libs key event c m).toList

def replacements (compiled : List Compiled) (events : List Text) : List Replaced :=
  events.flatMap (replacementsIn libs key compiled)

end

/-- The replacements of a value, in the order the pass makes them. -/
def replacementsOf (rs : List Replaced) (v : Text) : List Replaced := rs.filter (·.normalised = v)

lemma mem_replacementsOf {rs : List Replaced} {r : Replaced} (h : r ∈ rs) :
    r ∈ replacementsOf rs r.normalised :=
  mem_filter.2 ⟨h, decide_eq_true rfl⟩

/-! ### The tables -/

/-- The tables after some replacements: the last one of a text gives its stand-in, the first one its
field, and every stand-in is kept for the text it was first given to. -/
structure Entered (rs : List Replaced) (t t' : Tables) : Prop where
  mapping : ∀ v, t'.mapping.lookup v =
    ((rs.filter (·.normalised = v)).getLast?.map Replaced.standIn).or (t.mapping.lookup v)
  stored : ∀ p ∈ t'.mapping, p ∈ t.mapping ∨ ∃ r ∈ rs, p = (r.normalised, r.standIn)
  origin : ∀ v, t'.origin.lookup v =
    (t.origin.lookup v).or ((rs.filter (·.normalised = v)).head?.map fun r => r.row.field)
  kept : ∀ k v, t.byOutput.lookup k = some v → t'.byOutput.lookup k = some v
  found : ∀ r ∈ rs, t'.byOutput.lookup (r.format.shape, r.standIn) = some r.normalised

namespace Entered

variable {rs rs' : List Replaced} {t t' t'' : Tables}

lemma refl (t : Tables) : Entered [] t t :=
  ⟨fun _ => rfl, fun _ => .inl, fun _ => Option.or_none.symm, fun _ _ h => h,
    fun _ h => absurd h not_mem_nil⟩

lemma append (h : Entered rs t t') (h' : Entered rs' t' t'') : Entered (rs ++ rs') t t'' := by
  refine ⟨fun v => ?_, fun p hp => ?_, fun v => ?_, fun k v hk => h'.kept k v (h.kept k v hk),
    fun r hr => ?_⟩
  · rw [h'.mapping, h.mapping, filter_append, getLast?_append, ← Option.or_assoc]
    congr 1
    cases (rs'.filter (·.normalised = v)).getLast? <;> rfl
  · rcases h'.stored p hp with hp | ⟨r, hr, hp⟩
    · exact (h.stored p hp).imp_right fun ⟨r, hr, hp⟩ => ⟨r, mem_append_left _ hr, hp⟩
    · exact .inr ⟨r, mem_append_right _ hr, hp⟩
  · rw [h'.origin, h.origin, filter_append, head?_append, Option.or_assoc]
    congr 1
    cases (rs.filter (·.normalised = v)).head? <;> rfl
  · rcases mem_append.1 hr with hr | hr
    · exact h'.kept _ _ (h.found r hr)
    · exact h'.found r hr

end Entered

section

variable {libs : Libs} {key : List UInt8} {report : Report} {r : Replaced} {tables : Tables}

lemma entered_enter {t : Tables}
    (h : ∀ v, t.byOutput.lookup (r.format.shape, r.standIn) = some v → v = r.normalised) :
    Entered [r] t (t.enter r.row r.format.shape r.normalised r.standIn) := by
  refine ⟨fun v => ?_, fun p hp => ?_, fun v => ?_, fun k v hk => ?_, fun r' hr' => ?_⟩
  · change (Dict.set r.normalised r.standIn t.mapping).lookup v = _
    rw [Dict.lookup_set]
    by_cases hv : v = r.normalised
    · simp [hv]
    · simp [hv, Ne.symm hv]
  · rcases Dict.mem_set hp with rfl | hp
    · exact .inr ⟨r, mem_singleton_self r, rfl⟩
    · exact .inl hp
  · change (Dict.setDefault r.normalised r.row.field t.origin).lookup v = _
    rw [Dict.lookup_setDefault]
    congr 1
    by_cases hv : v = r.normalised
    · simp [hv]
    · simp [hv, Ne.symm hv]
  · change (Dict.set (r.format.shape, r.standIn) r.normalised t.byOutput).lookup k = _
    rw [Dict.lookup_set]
    split_ifs with hsame
    · rw [← hsame, hk] at h
      rw [← h v rfl]
    · exact hk
  · rw [mem_singleton.1 hr']
    change (Dict.set (r.format.shape, r.standIn) r.normalised t.byOutput).lookup _ = _
    rw [Dict.lookup_set, if_pos rfl]

variable {st st' : Tables × List SpanEdit} {event : Text} {compiled : List Compiled}

variable {index : ℕ}

/-- A match that the pass gets over enters its replacement, if it has one. -/
lemma applyMatch_entered {c : Compiled} {m : Match}
    (h : applyMatch libs key index event c st m = .ok st') :
    Entered (replacedBy libs key event c m).toList st.1 st'.1 ∧
      st'.2 = st.2 ++ (replacedBy libs key event c m).toList.map Replaced.edit := by
  unfold applyMatch at h
  unfold replacedBy
  cases hl : c.rx.locate m with
  | none =>
    rw [hl] at h
    cases h
  | some place =>
    obtain ⟨s, e⟩ := place
    rw [hl] at h
    dsimp only at h ⊢
    by_cases hse : e ≤ s
    · rw [if_pos hse] at h ⊢
      cases h
      exact ⟨Entered.refl _, (append_nil _).symm⟩
    rw [if_neg hse] at h ⊢
    cases hp : pseudonym libs key c.widen (slice event s e) with
    | none =>
      rw [hp] at h
      split_ifs at h
      · cases h
        exact ⟨Entered.refl _, (append_nil _).symm⟩
      · cases h
        refine ⟨⟨fun _ => rfl, fun _ => .inl, fun _ => Option.or_none.symm, fun _ _ h => h, ?_⟩,
          (append_nil _).symm⟩
        exact fun _ h => absurd h not_mem_nil
    | some standIn =>
      rw [hp] at h
      dsimp only at h
      split_ifs at h with hclash
      cases h
      push Not at hclash
      refine ⟨entered_enter fun v hv => ?_, rfl⟩
      exact Option.some_inj.1 (hv.symm.trans (hclash fun hnone => nomatch hv.symm.trans hnone))

/-- Rounds that enter replacements and collect their edits. -/
def Collected (rs : List Replaced) (st st' : Tables × List SpanEdit) : Prop :=
  Entered rs st.1 st'.1 ∧ st'.2 = st.2 ++ rs.map Replaced.edit

lemma Collected.refl (st : Tables × List SpanEdit) : Collected [] st st :=
  ⟨Entered.refl _, (append_nil _).symm⟩

lemma Collected.append {rs rs' : List Replaced} {st'' : Tables × List SpanEdit}
    (h : Collected rs st st') (h' : Collected rs' st' st'') : Collected (rs ++ rs') st st'' := by
  refine ⟨h.1.append h'.1, ?_⟩
  rw [h'.2, h.2, append_assoc, map_append]

lemma applyFields_collected (h : compiled.foldlM (applyField libs key index event) st = .ok st') :
    Collected (replacementsIn libs key compiled event) st st' := by
  refine foldlM_trace Collected.refl Collected.append (fun s c t _ hfield => ?_) h
  exact foldlM_trace Collected.refl Collected.append
    (fun s m t _ hmatch => applyMatch_entered hmatch) hfield

lemma applyFields_located (h : compiled.foldlM (applyField libs key index event) st = .ok st') :
    ∀ c ∈ compiled, ∀ m ∈ c.rx.finditer event, c.rx.locate m ≠ none := by
  intro c hc m hm hnone
  obtain ⟨_, _, hfield⟩ := foldlM_round_ok h c hc
  obtain ⟨_, _, hmatch⟩ := foldlM_round_ok hfield m hm
  unfold applyMatch at hmatch
  rw [hnone] at hmatch
  cases hmatch

/-- An event of which every match was located, with its replacements made, in the order of their
places, where no two neighbours overlap. -/
def Made (libs : Libs) (key : List UInt8) (compiled : List Compiled) (event : Text) (out : Masked) :
    Prop :=
  (∀ c ∈ compiled, ∀ m ∈ c.rx.finditer event, c.rx.locate m ≠ none) ∧
  ∃ sorted, sorted.Perm ((replacementsIn libs key compiled event).map Replaced.edit) ∧
    overlapping sorted = none ∧ out.text = splice event 0 (sorted.map SpanEdit.toEdit) ∧
    out.ranges = spansOut 0 0 (sorted.map SpanEdit.toEdit)

lemma rewriteEvent_replaced {tables' : Tables} {out : Masked}
    (h : rewriteEvent libs key compiled tables index event = .ok (tables', out)) :
    Entered (replacementsIn libs key compiled event) tables tables' ∧
    Made libs key compiled event out := by
  obtain ⟨st, hfields, h⟩ := bind_ok h
  obtain ⟨hentered, hedits⟩ := applyFields_collected hfields
  have hlocated := applyFields_located hfields
  rw [nil_append] at hedits
  dsimp only at h
  generalize hsorted : st.2.insertionSort (fun a b =>
    a.start < b.start ∨ (a.start = b.start ∧ a.stop ≤ b.stop)) = sorted at h
  have hperm : sorted.Perm ((replacementsIn libs key compiled event).map Replaced.edit) := by
    rw [← hedits, ← hsorted]
    exact perm_insertionSort _ _
  cases hover : overlapping sorted with
  | some pair =>
    rw [hover] at h
    cases h
  | none =>
    rw [hover] at h
    split_ifs at h with hnil hjson
    · cases h
      refine ⟨hentered, hlocated, sorted, hperm, hover, ?_, ?_⟩
      · rw [hnil]
        rfl
      · rw [hnil]
        rfl
    · cases h
      exact ⟨hentered, hlocated, sorted, hperm, hover, rfl, rfl⟩

variable {events : List Text}

lemma rewriteEvents_replaced
    (h : rewriteEvents libs key compiled tables index events = .ok report) :
    Entered (replacements libs key compiled events) tables report.tables ∧
      List.Forall₂ (Made libs key compiled) events report.events := by
  induction events generalizing tables index report with
  | nil =>
    cases h
    exact ⟨Entered.refl _, .nil⟩
  | cons event events ih =>
    obtain ⟨⟨tables', out⟩, hevent, h⟩ := bind_ok h
    obtain ⟨report', hrest, h⟩ := bind_ok h
    cases h
    obtain ⟨hentered, hmade⟩ := rewriteEvent_replaced hevent
    obtain ⟨hlater, hall⟩ := ih hrest
    exact ⟨hentered.append hlater, .cons hmade hall⟩

variable {fields : List PseudonymField}

theorem pseudonymiseEvents_replaced
    (hc : fields.mapM (PseudonymField.compile libs) = .ok compiled)
    (h : pseudonymiseEvents libs key fields events = .ok report) :
    Entered (replacements libs key compiled events) {} report.tables ∧
      List.Forall₂ (Made libs key compiled) events report.events := by
  unfold pseudonymiseEvents at h
  rw [hc] at h
  simp only [bind, Except.bind] at h
  split_ifs at h with hnil
  · cases h
    subst hnil
    have hnone : replacements libs key [] events = [] := flatMap_eq_nil_iff.2 fun _ _ => rfl
    rw [hnone]
    refine ⟨Entered.refl _, forall₂_map_right_iff.2 (forall₂_same.2 fun event _ => ?_)⟩
    exact ⟨fun _ hc => absurd hc not_mem_nil, [], Perm.nil, rfl, rfl, rfl⟩
  · exact rewriteEvents_replaced h

lemma mem_replacementsIn (h : r ∈ replacementsIn libs key compiled event) :
    ∃ c ∈ compiled, r.row = c.row ∧ r.policy = c.widen ∧ r.start < r.stop ∧ r.stop ≤ event.length ∧
      r.normalised = libs.nfc (slice event r.start r.stop) ∧
      pseudonym libs key r.policy (slice event r.start r.stop) = some r.standIn := by
  obtain ⟨c, hc, h⟩ := mem_flatMap.1 h
  obtain ⟨m, hm, h⟩ := mem_flatMap.1 h
  rw [Option.mem_toList] at h
  unfold replacedBy at h
  refine ⟨c, hc, ?_⟩
  cases hl : c.rx.locate m with
  | none =>
    rw [hl] at h
    cases h
  | some place =>
    rw [hl] at h
    dsimp only at h
    split_ifs at h with hse
    obtain ⟨standIn, hp, rfl⟩ := Option.map_eq_some_iff.1 h
    exact ⟨rfl, rfl, not_le.1 hse, Regex.locate_le hm hl, rfl, hp⟩

/-! ### What comes of an event -/

/-- A text is the stand-in that one of the fields gives to another text, or to one that normalises
to it. -/
def StandIn (libs : Libs) (key : List UInt8) (compiled : List Compiled) (old new : Text) : Prop :=
  ∃ c ∈ compiled, ∃ span, (span = old ∨ libs.nfc span = old) ∧
    pseudonym libs key c.widen span = some new

def MapsStandIns (libs : Libs) (key : List UInt8) (compiled : List Compiled)
    (mapping : List (Text × Text)) : Prop :=
  ∀ p ∈ mapping, StandIn libs key compiled p.1 p.2

/-- A text made of an event: some stretches were patched, each with a stand-in of what stood
there. -/
structure Patchwork (libs : Libs) (key : List UInt8) (compiled : List Compiled) (event : Text)
    (p : Patched Char) : Prop where
  source : p.source = event
  standIns : ∀ x ∈ p.patches 0, StandIn libs key compiled x.2.1 x.2.2

/-- In addition, every match of every field was patched with its own stand-in, unless it has nothing
to vary. -/
structure Rewrote (libs : Libs) (key : List UInt8) (compiled : List Compiled) (event : Text)
    (p : Patched Char) : Prop extends Patchwork libs key compiled event p where
  replaced : ∀ c ∈ compiled, ∀ m ∈ c.rx.finditer event, ∃ s e, c.rx.locate m = some (s, e) ∧
    (s < e → pseudonym libs key c.widen (slice event s e) = none ∨
      ∃ new, pseudonym libs key c.widen (slice event s e) = some new ∧
        (s, slice event s e, new) ∈ p.patches 0)

variable {out : Masked}

/-- The event and what came of it are two readings of one patched text. -/
lemma Made.patched (h : Made libs key compiled event out) : ∃ edits : List (Edit Char),
    edits.Perm ((replacementsIn libs key compiled event).map fun r => r.edit.toEdit) ∧
    Ordered event.length 0 edits ∧ (Patched.ofEdits event 0 edits).text = out.text ∧
    (Patched.ofEdits event 0 edits).ranges 0 = out.ranges := by
  obtain ⟨-, sorted, hperm, hover, htext, hranges⟩ := h
  have hord : Ordered event.length 0 (sorted.map SpanEdit.toEdit) := by
    refine ordered_of_overlapping hover (fun e he => ?_) fun _ _ => Nat.zero_le _
    obtain ⟨r, hr, rfl⟩ := mem_map.1 (hperm.mem_iff.1 he)
    obtain ⟨_, _, _, _, hlt, hle, _⟩ := mem_replacementsIn hr
    exact ⟨hlt, hle⟩
  have hmap := hperm.map SpanEdit.toEdit
  rw [map_map] at hmap
  exact ⟨_, hmap, hord, (Patched.ofEdits_text _ _ _).trans htext.symm,
    (ofEdits_ranges hord 0).trans hranges.symm⟩

lemma Made.rewrote (h : Made libs key compiled event out) :
    ∃ p, Rewrote libs key compiled event p ∧ p.text = out.text ∧ p.ranges 0 = out.ranges := by
  obtain ⟨edits, hperm, hord, htext, hranges⟩ := h.patched
  refine ⟨_, ⟨⟨Patched.ofEdits_source hord, fun x hx => ?_⟩, fun c hc m hm => ?_⟩, htext, hranges⟩
  · obtain ⟨e, he, rfl⟩ := (Patched.mem_ofEdits_patches hord).1 hx
    obtain ⟨r, hr, rfl⟩ := mem_map.1 (hperm.mem_iff.1 he)
    obtain ⟨c, hc, -, hpolicy, -, -, -, hp⟩ := mem_replacementsIn hr
    exact ⟨c, hc, _, .inl rfl, hpolicy ▸ hp⟩
  · obtain ⟨⟨s, e⟩, hl⟩ := Option.ne_none_iff_exists'.1 (h.1 c hc m hm)
    refine ⟨s, e, hl, fun hse => ?_⟩
    cases hp : pseudonym libs key c.widen (slice event s e) with
    | none => exact .inl rfl
    | some new =>
      -- the match is one of those that were replaced
      have hby : replacedBy libs key event c m =
          some ⟨c.row, c.widen, s, e, libs.nfc (slice event s e), new⟩ := by
        simp [replacedBy, hl, hse.not_ge, hp]
      have hr : _ ∈ replacementsIn libs key compiled event :=
        mem_flatMap.2 ⟨c, hc, mem_flatMap.2 ⟨m, hm, Option.mem_toList.2 hby⟩⟩
      have he := hperm.mem_iff.2 (mem_map_of_mem hr)
      exact .inr ⟨new, rfl, (Patched.mem_ofEdits_patches hord).2 ⟨_, he, rfl⟩⟩

theorem pseudonymiseEvents_ok {fields : List PseudonymField}
    (h : pseudonymiseEvents libs key fields events = .ok report) :
    ∃ compiled, fields.mapM (PseudonymField.compile libs) = .ok compiled ∧
      MapsStandIns libs key compiled report.tables.mapping ∧
      List.Forall₂ (fun event out => ∃ p, Rewrote libs key compiled event p ∧ p.text = out.text ∧
        p.ranges 0 = out.ranges) events report.events := by
  obtain ⟨compiled, hc, -⟩ := bind_ok h
  obtain ⟨hentered, hmade⟩ := pseudonymiseEvents_replaced hc h
  refine ⟨compiled, hc, fun p hp => ?_, hmade.imp fun _ _ hm => hm.rewrote⟩
  rcases hentered.stored p hp with hp | ⟨r, hr, rfl⟩
  · cases hp
  · obtain ⟨event, -, hr⟩ := mem_flatMap.1 hr
    obtain ⟨c, hc, -, hpolicy, -, -, hnorm, hp⟩ := mem_replacementsIn hr
    exact ⟨c, hc, _, .inr hnorm.symm, hpolicy ▸ hp⟩

end

end Stoker
