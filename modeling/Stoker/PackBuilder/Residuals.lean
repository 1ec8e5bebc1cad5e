import Stoker.PackBuilder.Pseudonymise

/-!
# Residuals

What the pass replaced may also stand where no field matched it. `find_residuals` looks for the
originals again, as whole tokens and outside the ranges that were written; `scan_residuals` rewrites
those of the fields that ask for it, event by event and scan by scan, and reports the others;
`residual_problems` says which of these refuse a save.
-/

open List

namespace Stoker

open Rewriting Transition

/-! ### Finding them -/

/-- An occurrence of an original. -/
structure Hit where
  start : ℕ
  stop : ℕ
  value : Text
  deriving DecidableEq

/-- No letter or digit follows. -/
def endsToken : Text → Bool
  | [] => true
  | c :: _ => !c.isAlphanum

/-- The longest of some values that a text begins with as a whole token. -/
def residualAt (values : List Text) (t : Text) : Option Text :=
  (values.filter fun v => v ≠ [] && v.isPrefixOf t && endsToken (t.drop v.length)).argmax length

/-- What the pattern of `residual_regex` finds, from left to right: no letter or digit stands in
front of a match, and the search goes on behind it. -/
def residualScan (values : List Text) : ℕ → Bool → ℕ → Text → List Hit
  | _, _, _, [] => []
  | skip + 1, _, pos, c :: t => residualScan values skip c.isAlphanum (pos + 1) t
  | 0, inWord, pos, c :: t =>
    match if inWord then none else residualAt values (c :: t) with
    | none => residualScan values 0 c.isAlphanum (pos + 1) t
    | some v =>
      ⟨pos, pos + v.length, v⟩ :: residualScan values (v.length - 1) c.isAlphanum (pos + 1) t

/-- Merge ranges that touch, given in order, into the one before them. -/
def mergeInto (cur : ℕ × ℕ) : List (ℕ × ℕ) → List (ℕ × ℕ)
  | [] => [cur]
  | r :: rs => if r.1 ≤ cur.2 then mergeInto (cur.1, max cur.2 r.2) rs else cur :: mergeInto r rs

/-- Ranges are ordered by their start, then by their end. -/
def RangeLe (a b : ℕ × ℕ) : Prop := a.1 < b.1 ∨ (a.1 = b.1 ∧ a.2 ≤ b.2)

instance : DecidableRel RangeLe := fun a b =>
  inferInstanceAs (Decidable (a.1 < b.1 ∨ (a.1 = b.1 ∧ a.2 ≤ b.2)))

/-- The ranges in order, merged. -/
def sortRanges (masked : List (ℕ × ℕ)) : List (ℕ × ℕ) :=
  match masked.insertionSort RangeLe with
  | [] => []
  | r :: rs => mergeInto r rs

/-- A hit meets the first range that ends behind its start. -/
def Hit.isMasked (merged : List (ℕ × ℕ)) (h : Hit) : Bool :=
  match merged.find? fun r => decide (h.start < r.2) with
  | none => false
  | some r => decide (r.1 < h.stop)

def findResiduals (values : List Text) (text : Text) (masked : List (ℕ × ℕ)) : List Hit :=
  (residualScan values 0 false 0 text).filter fun h => !h.isMasked (sortRanges masked)

/-! ### Rewriting them -/

/-- The hits of a scan that a field wants rewritten, with what is written. -/
def targets (t : Tables) (wanted : List Text) (e : Masked) : List (Edit Char) :=
  (findResiduals (t.mapping.map (·.1)) e.text e.ranges).filterMap fun h =>
    match t.mapping.lookup h.value, t.origin.lookup h.value with
    | some standIn, some field => if field ∈ wanted then some ⟨h.start, h.stop, standIn⟩ else none
    | _, _ => none

/-- One scan's rewriting: the ranges move with the text, and those written join them. -/
def rewriteHits (e : Masked) (edits : List (Edit Char)) : Masked where
  text := splice e.text 0 edits
  ranges := e.ranges.map (fun r => (moved edits r.1, moved edits r.2)) ++ added 0 0 edits

/-- The loop of `scan_residuals` over one event; `none` when it has not ended after so many
scans. -/
def rewriteEverywhere (t : Tables) (wanted : List Text) : ℕ → Masked → Option Masked
  | 0, _ => none
  | fuel + 1, e =>
    let edits := targets t wanted e
    if wanted = [] ∨ edits = [] then some e
    else rewriteEverywhere t wanted fuel (rewriteHits e edits)

/-! ### Reporting them -/

structure Finding where
  place : Text
  value : Text
  field : Option Text
  inConfig : Bool
  deriving DecidableEq

/-- What is left of the originals in a text. -/
def findings (t : Tables) (place : Text) (inConfig : Bool) (text : Text) (masked : List (ℕ × ℕ)) :
    List Finding :=
  (findResiduals (t.mapping.map (·.1)) text masked).filterMap fun h =>
    if (t.mapping.lookup h.value).isSome then
      some ⟨place, h.value, t.origin.lookup h.value, inConfig⟩
    else none

def scanResiduals (report : Report) (texts : List (Text × Text)) (wanted : List Text) :
    Option (Report × List Finding) :=
  if report.tables.mapping = [] then some (report, [])
  else do
    let events ← report.events.mapM fun e =>
      rewriteEverywhere report.tables wanted (e.text.length + 1) e
    let inEvents := events.zipIdx.flatMap fun (e, i) =>
      findings report.tables ("event " ++ decimal (i + 1)) false e.text e.ranges
    let inTexts := texts.flatMap fun (place, text) => findings report.tables place true text []
    return ({ report with events := events }, inEvents ++ inTexts)

def residualMinRefuse : ℕ := 5

/-- Where the values of one field were found, in the events and in the settings. -/
structure Places where
  inEvents : List Text := []
  inConfig : List Text := []
  deriving DecidableEq

def Places.note (f : Finding) (p : Places) : Places :=
  if f.inConfig then
    { p with inConfig := if f.place ∈ p.inConfig then p.inConfig else p.inConfig ++ [f.place] }
  else { p with inEvents := if f.place ∈ p.inEvents then p.inEvents else p.inEvents ++ [f.place] }

def listPlaces (places : List Text) : Text :=
  (", ".toList).intercalate (places.take 3) ++
    if 3 < places.length then " and " ++ decimal (places.length - 3) ++ " more" else []

/-- The findings by field, the short values apart from the long ones. -/
def byField (fs : List Finding) : List ((Text × Bool) × Places) :=
  fs.foldl (fun d f =>
    let k := (f.field.getD [], decide (residualMinRefuse ≤ f.value.length))
    Dict.set k (((d.lookup k).getD {}).note f) d) []

def shortValue (label : Text) (p : Places) : Text :=
  label ++ ": a value of this field also appears outside the field (" ++
    listPlaces (p.inEvents ++ p.inConfig) ++
    ("). It is short enough that this may be a coincidence, such as a digit run inside an " ++
      "address or a size, so it is not treated as a leak.").toList

def leftInEvents (label : Text) (p : Places) : Text :=
  label ++ ": a value of this field still appears outside the field itself (" ++
    listPlaces p.inEvents ++
    ("), so the pack would carry the identifier you asked to hide. Turn on 'replace it " ++
      "everywhere' for this field, widen the pattern to cover those occurrences, or remove them " ++
      "from the sample.").toList

def leftInConfig (label : Text) (p : Places) : Text :=
  label ++ ": a value of this field still appears in the pack's settings (" ++
    listPlaces p.inConfig ++
    ("), so the pack would carry the identifier you asked to hide. 'Replace it everywhere' " ++
      "does not reach these: change those fields so they no longer hold the value (a different " ++
      "replacement, or the value removed from the list), disable them, or rename what holds it."
      ).toList

/-- `residual_problems`: what refuses a save, and what is only warned about. -/
def residualProblems (fs : List Finding) : List Text × List Text :=
  let sorted := (byField fs).insertionSort fun a b => a.1.1 < b.1.1 ∨
    (a.1.1 = b.1.1 ∧ (a.1.2 = false ∨ b.1.2 = true))
  let label (field : Text) := if field = [] then "a pseudonym field".toList else field
  (sorted.flatMap fun ((field, long), p) =>
      if long then
        (if p.inEvents = [] then [] else [leftInEvents (label field) p]) ++
          (if p.inConfig = [] then [] else [leftInConfig (label field) p])
      else [],
    sorted.flatMap fun ((field, long), p) => if long then [] else [shortValue (label field) p])

/-! ### Where residuals are found -/

lemma residualAt_some {values : List Text} {t v : Text} (h : residualAt values t = some v) :
    v ∈ values ∧ v ≠ [] ∧ v <+: t := by
  have hmem := argmax_mem h
  simp only [mem_filter, Bool.and_eq_true, decide_eq_true_eq] at hmem
  exact ⟨hmem.1, hmem.2.1.1, isPrefixOf_iff_prefix.1 hmem.2.1.2⟩

/-- The hits of a scan stand in order behind what is skipped, and each is one of the values. -/
lemma residualScan_spec (values : List Text) (skip : ℕ) (inWord : Bool) (pos : ℕ) (t : Text)
    (hskip : skip ≤ t.length) :
    Ordered (pos + t.length) (pos + skip)
        ((residualScan values skip inWord pos t).map fun h =>
          (⟨h.start, h.stop, h.value⟩ : Edit Char)) ∧
      ∀ h ∈ residualScan values skip inWord pos t, h.value ∈ values ∧ pos ≤ h.start ∧
        h.stop = h.start + h.value.length ∧ h.value <+: t.drop (h.start - pos) := by
  induction t generalizing skip inWord pos with
  | nil => exact ⟨trivial, fun h hh => absurd hh not_mem_nil⟩
  | cons c t ih =>
    have hlen : pos + (c :: t).length = pos + 1 + t.length := by
      rw [length_cons]
      omega
    have hdrop : ∀ {k : ℕ}, pos + 1 ≤ k → (c :: t).drop (k - pos) = t.drop (k - (pos + 1)) := by
      intro k hk
      have heq : k - pos = (k - (pos + 1)) + 1 := by omega
      rw [heq, drop_succ_cons]
    have hlater : ∀ {hs : List Hit}, (∀ h ∈ hs, h.value ∈ values ∧ pos + 1 ≤ h.start ∧
        h.stop = h.start + h.value.length ∧ h.value <+: t.drop (h.start - (pos + 1))) →
        ∀ h ∈ hs, h.value ∈ values ∧ pos ≤ h.start ∧ h.stop = h.start + h.value.length ∧
          h.value <+: (c :: t).drop (h.start - pos) := by
      intro hs hall h hh
      obtain ⟨h₁, h₂, h₃, h₄⟩ := hall h hh
      exact ⟨h₁, by omega, h₃, by rw [hdrop h₂]; exact h₄⟩
    rw [hlen]
    cases skip with
    | succ skip =>
      obtain ⟨hord, hall⟩ := ih skip c.isAlphanum (pos + 1) (by simpa using hskip)
      exact ⟨hord.mono (by omega), hlater hall⟩
    | zero =>
      rw [residualScan]
      cases hv : if inWord then none else residualAt values (c :: t) with
      | none =>
        obtain ⟨hord, hall⟩ := ih 0 c.isAlphanum (pos + 1) (Nat.zero_le _)
        exact ⟨hord.mono (by omega), hlater hall⟩
      | some v =>
        have hat : residualAt values (c :: t) = some v := by
          split_ifs at hv
          exact hv
        obtain ⟨hmem, hne, hpre⟩ := residualAt_some hat
        have hpos : 0 < v.length := length_pos_of_ne_nil hne
        have hle : v.length ≤ t.length + 1 := by simpa using hpre.length_le
        obtain ⟨hord, hall⟩ := ih (v.length - 1) c.isAlphanum (pos + 1) (by omega)
        refine ⟨⟨by dsimp only; omega, by dsimp only; omega, by dsimp only; omega, ?_⟩, ?_⟩
        · exact hord.mono (by dsimp only; omega)
        · intro h hh
          rcases mem_cons.1 hh with rfl | hh
          · exact ⟨hmem, le_rfl, rfl, by simpa using hpre⟩
          · exact hlater hall h hh

/-- Merged ranges stand in order, and cover those they were made of. -/
lemma mergeInto_spec {cur : ℕ × ℕ} {rs : List (ℕ × ℕ)} (hs : rs.Pairwise fun a b => a.1 ≤ b.1)
    (hcur : ∀ r ∈ rs, cur.1 ≤ r.1) :
    (mergeInto cur rs).Pairwise (fun a b => a.1 ≤ b.1) ∧ (∀ r ∈ mergeInto cur rs, cur.1 ≤ r.1) ∧
      ∀ r ∈ cur :: rs, ∃ m ∈ mergeInto cur rs, m.1 ≤ r.1 ∧ r.2 ≤ m.2 := by
  induction rs generalizing cur with
  | nil =>
    refine ⟨pairwise_singleton _ _, ?_, ?_⟩
    · intro r hr
      rw [mem_singleton.1 hr]
    · intro r hr
      rw [mem_singleton.1 hr]
      exact ⟨cur, mem_singleton.2 rfl, le_rfl, le_rfl⟩
  | cons r rs ih =>
    obtain ⟨hr, hs'⟩ := pairwise_cons.1 hs
    have hcr := hcur r mem_cons_self
    rw [mergeInto]
    split_ifs with htouch
    · obtain ⟨h₁, h₂, h₃⟩ := @ih (cur.1, max cur.2 r.2) hs'
        fun q hq => hcur q (mem_cons_of_mem _ hq)
      refine ⟨h₁, h₂, ?_⟩
      -- what covers the merged range covers both parts of it
      obtain ⟨m, hm, hm₁, hm₂⟩ := h₃ _ mem_cons_self
      have hmax := max_le_iff.1 hm₂
      intro q hq
      rcases mem_cons.1 hq with rfl | hq
      · exact ⟨m, hm, hm₁, hmax.1⟩
      · rcases mem_cons.1 hq with rfl | hq
        · exact ⟨m, hm, hm₁.trans hcr, hmax.2⟩
        · exact h₃ q (mem_cons_of_mem _ hq)
    · obtain ⟨h₁, h₂, h₃⟩ := ih hs' hr
      refine ⟨pairwise_cons.2 ⟨fun q hq => hcr.trans (h₂ q hq), h₁⟩, ?_, ?_⟩
      · intro q hq
        rcases mem_cons.1 hq with rfl | hq
        · exact le_rfl
        · exact hcr.trans (h₂ q hq)
      · intro q hq
        rcases mem_cons.1 hq with rfl | hq
        · exact ⟨q, mem_cons_self, le_rfl, le_rfl⟩
        · obtain ⟨m, hm, hrest⟩ := h₃ q hq
          exact ⟨m, mem_cons_of_mem _ hm, hrest⟩

lemma sortRanges_spec (masked : List (ℕ × ℕ)) :
    (sortRanges masked).Pairwise (fun a b => a.1 ≤ b.1) ∧
      ∀ r ∈ masked, ∃ m ∈ sortRanges masked, m.1 ≤ r.1 ∧ r.2 ≤ m.2 := by
  have hsorted : (masked.insertionSort RangeLe).Pairwise fun a b => a.1 ≤ b.1 := by
    have : Std.Total RangeLe := ⟨fun a b => by unfold RangeLe; omega⟩
    have : IsTrans (ℕ × ℕ) RangeLe := ⟨fun a b c => by unfold RangeLe; omega⟩
    refine (pairwise_insertionSort RangeLe masked).imp fun hab => ?_
    unfold RangeLe at hab
    omega
  have hmem : ∀ r ∈ masked, r ∈ masked.insertionSort RangeLe := fun r =>
    (mem_insertionSort RangeLe).2
  unfold sortRanges
  cases hl : masked.insertionSort RangeLe with
  | nil =>
    refine ⟨List.Pairwise.nil, fun r hr => ?_⟩
    have := hmem r hr
    rw [hl] at this
    cases this
  | cons q rs =>
    rw [hl] at hsorted
    obtain ⟨hq, hrs⟩ := pairwise_cons.1 hsorted
    obtain ⟨h₁, _, h₃⟩ := mergeInto_spec hrs hq
    exact ⟨h₁, fun r hr => h₃ r (hl ▸ hmem r hr)⟩

lemma Hit.clear_of_not_masked {masked : List (ℕ × ℕ)} {h : Hit}
    (hm : h.isMasked (sortRanges masked) = false) {r : ℕ × ℕ} (hr : r ∈ masked) :
    r.2 ≤ h.start ∨ h.stop ≤ r.1 := by
  obtain ⟨hsorted, hcover⟩ := sortRanges_spec masked
  obtain ⟨m, hmem, hm₁, hm₂⟩ := hcover r hr
  unfold Hit.isMasked at hm
  cases hf : (sortRanges masked).find? fun r => decide (h.start < r.2) with
  | none =>
    have := find?_eq_none.1 hf m hmem
    simp only [decide_eq_true_eq, not_lt] at this
    exact .inl (hm₂.trans this)
  | some q =>
    rw [hf] at hm
    have hq : h.stop ≤ q.1 := by simpa using hm
    obtain ⟨_, front, back, heq, hfront⟩ := find?_eq_some_iff_append.1 hf
    -- the ranges in front of the first one that ends behind the hit's start do not reach the hit
    rw [heq] at hmem hsorted
    rcases mem_append.1 hmem with hmem | hmem
    · have := hfront m hmem
      simp only [Bool.not_eq_true', decide_eq_false_iff_not, not_lt] at this
      exact .inl (hm₂.trans this)
    · right
      have hqm : q.1 ≤ m.1 := by
        rcases mem_cons.1 hmem with rfl | hmem
        · exact le_rfl
        · exact (pairwise_cons.1 (pairwise_append.1 hsorted).2.1).1 m hmem
      exact hq.trans (hqm.trans hm₁)

/-! ### The loop -/

/-- What one scan rewrites: in order, clear of what was written before, and each value by what the
mapping has for it, since the field it belongs to wants it. -/
lemma targets_spec (t : Tables) (wanted : List Text) (e : Masked) :
    Ordered e.text.length 0 (targets t wanted e) ∧ ∀ d ∈ targets t wanted e,
      (∀ r ∈ e.ranges, r.2 ≤ d.start ∨ d.stop ≤ r.1) ∧
        t.mapping.lookup (slice e.text d.start d.stop) = some d.new ∧
        ∃ field ∈ wanted, t.origin.lookup (slice e.text d.start d.stop) = some field := by
  obtain ⟨hord, hall⟩ := residualScan_spec (t.mapping.map (·.1)) 0 false 0 e.text (Nat.zero_le _)
  rw [zero_add, zero_add] at hord
  refine ⟨?_, ?_⟩
  · refine Ordered.filterMap (hord.sublist (Sublist.map _ filter_sublist)) ?_
    intro h d hd
    split at hd
    · split_ifs at hd
      cases hd
      exact ⟨rfl, rfl⟩
    · cases hd
  · intro d hd
    obtain ⟨h, hh, hd⟩ := mem_filterMap.1 hd
    obtain ⟨hscan, hm⟩ := mem_filter.1 hh
    obtain ⟨_, _, hstop, hpre⟩ := hall h hscan
    split at hd
    · rename_i standIn field hmap horigin
      split_ifs at hd with hwanted
      cases hd
      refine ⟨fun r hr => Hit.clear_of_not_masked (by simpa using hm) hr, ?_⟩
      have hslice : slice e.text h.start h.stop = h.value := by
        rw [slice, drop_take, hstop, Nat.add_sub_cancel_left]
        exact (prefix_iff_eq_take.1 hpre).symm
      rw [hslice]
      exact ⟨hmap, field, hwanted, horigin⟩
    · cases hd

/-- A masked event is what a patched text reads now, and its masks hold all that was written. -/
def Shows (p : Patched Char) (e : Masked) : Prop := p.text = e.text ∧ ∀ r ∈ p.ranges 0, r ∈ e.ranges

/-- The mapping's own patches: what it has a stand-in for, and the stand-in. -/
def Tables.Maps (t : Tables) (old new : Text) : Prop := t.mapping.lookup old = some new

variable {p : Patched Char} {e : Masked}

lemma Shows.rewriteHits (t : Tables) (wanted : List Text) (h : Shows p e) :
    ∃ q, p.Extends t.Maps q ∧ Shows q (rewriteHits e (targets t wanted e)) ∧
      q.untouched + ((targets t wanted e).map fun d => d.stop - d.start).sum = p.untouched := by
  obtain ⟨hord, hall⟩ := targets_spec t wanted e
  obtain ⟨htext, hranges⟩ := h
  rw [← htext] at hord
  have hw := Patched.writeAll_wrote hord fun d hd r hr => (hall d hd).1 r (hranges r hr)
  refine ⟨_, ⟨hw.source, hw.kept, fun x hx => ?_⟩, ⟨?_, ?_⟩, hw.untouched⟩
  · rcases hw.patches x hx with hx | ⟨d, hd, hx⟩
    · exact .inl hx
    · right
      rw [hx, htext]
      exact (hall d hd).2.1
  · rw [hw.text, take_zero, nil_append, htext]
    rfl
  · intro r hr
    rcases hw.ranges r hr with hr | ⟨q, hq, rfl⟩
    · exact mem_append_right _ hr
    · exact mem_append_left _ (mem_map.2 ⟨q, hranges q hq, rfl⟩)

/-- The loop ends: every scan that rewrites something leaves less of the event untouched. -/
theorem rewriteEverywhere_ends {t : Tables} {wanted : List Text} {fuel : ℕ} (h : Shows p e)
    (hfuel : p.untouched < fuel) :
    ∃ out q, rewriteEverywhere t wanted fuel e = some out ∧ p.Extends t.Maps q ∧ Shows q out := by
  induction fuel generalizing p e with
  | zero => exact absurd hfuel (Nat.not_lt_zero _)
  | succ fuel ih =>
    rw [rewriteEverywhere]
    split_ifs with hdone
    · exact ⟨e, p, rfl, Patched.Extends.refl _ p, h⟩
    · obtain ⟨q, hq, hshows, huntouched⟩ := h.rewriteHits t wanted
      have hpos : 0 < ((targets t wanted e).map fun d => d.stop - d.start).sum := by
        obtain ⟨hord, _⟩ := targets_spec t wanted e
        cases hes : targets t wanted e with
        | nil => exact absurd (.inr hes) hdone
        | cons d ds =>
          rw [hes] at hord
          obtain ⟨_, hlt, _⟩ := hord
          rw [map_cons, sum_cons]
          omega
      obtain ⟨out, r, hout, hr, hshows'⟩ := ih hshows (by omega)
      exact ⟨out, r, hout, hq.trans hr, hshows'⟩

/-- The scan ends, and all it does to the events is to replace more of the originals. -/
theorem scanResiduals_ends (report : Report) (texts : List (Text × Text)) (wanted : List Text)
    (h : ∀ e ∈ report.events, ∃ p, Shows p e) :
    ∃ report' fs, scanResiduals report texts wanted = some (report', fs) ∧
      List.Forall₂ (fun e e' => ∀ p, Shows p e → ∃ q, p.Extends report.tables.Maps q ∧ Shows q e')
        report.events report'.events := by
  unfold scanResiduals
  split_ifs with hm
  · refine ⟨report, [], rfl, forall₂_same.2 fun e _ p hp => ?_⟩
    exact ⟨p, Patched.Extends.refl _ p, hp⟩
  have hall : ∀ es : List Masked, (∀ e ∈ es, ∃ p, Shows p e) → ∃ es',
      es.mapM (fun e => rewriteEverywhere report.tables wanted (e.text.length + 1) e) = some es' ∧
      List.Forall₂ (fun e e' => ∀ p, Shows p e → ∃ q, p.Extends report.tables.Maps q ∧ Shows q e')
        es es' := by
    intro es hes
    induction es with
    | nil => exact ⟨[], rfl, .nil⟩
    | cons e es ih =>
      have hone : ∀ p, Shows p e → ∃ out q,
          rewriteEverywhere report.tables wanted (e.text.length + 1) e = some out ∧
          p.Extends report.tables.Maps q ∧ Shows q out := by
        intro p hp
        refine rewriteEverywhere_ends hp ?_
        rw [← hp.1]
        exact Nat.lt_succ_of_le p.untouched_le
      obtain ⟨p, hp⟩ := hes e mem_cons_self
      obtain ⟨out, _, hout, _⟩ := hone p hp
      obtain ⟨es', hes', hrest⟩ := ih fun d hd => hes d (mem_cons_of_mem _ hd)
      refine ⟨out :: es', ?_, .cons (fun p' hp' => ?_) hrest⟩
      · simp [mapM_cons, hout, hes']
      · obtain ⟨out', q, hout', hq⟩ := hone p' hp'
        cases hout.symm.trans hout'
        exact ⟨q, hq⟩
  obtain ⟨es', hes', hrest⟩ := hall report.events h
  rw [hes']
  exact ⟨_, _, rfl, hrest⟩

end Stoker
