import Stoker.PackBuilder.Faithful
import Stoker.Rewriting.Moved

/-!
# Scanning an event again and again

The loop of `scan_residuals` rewrites all hits of a scan at once and scans again. Through all of its
scans the masked ranges stay apart and hold what they held; it ends; and what is then reported is of
no field that asked for rewriting.
-/

open List

namespace Stoker

open Rewriting Transition

/-- The masked ranges do not overlap and lie within the text. -/
structure Masked.WellMasked (e : Masked) : Prop where
  separate : e.ranges.Pairwise Separate
  within : ∀ r ∈ e.ranges, r.1 ≤ r.2 ∧ r.2 ≤ e.text.length

/-- What the masked ranges hold. -/
def Masked.held (e : Masked) : List Text := e.ranges.map fun r => slice e.text r.1 r.2

/-- One scan of the loop. -/
def rescan (t : Tables) (wanted : List Text) (e : Masked) : Masked :=
  rewriteHits e (targets t wanted e)

section

variable {t : Tables} {wanted : List Text} {e : Masked}

/-- After a scan there is a range for each one before it and for each hit. -/
lemma rescan_ranges (t : Tables) (wanted : List Text) (e : Masked) : (rescan t wanted e).ranges =
    (e.ranges ++ (targets t wanted e).map Edit.span).map (movedRange (targets t wanted e)) := by
  change e.ranges.map (movedRange (targets t wanted e)) ++ added 0 0 (targets t wanted e) = _
  rw [added_eq_map (targets_spec t wanted e).1, map_append, map_map]
  rfl

lemma rescan_text (t : Tables) (wanted : List Text) (e : Masked) :
    (rescan t wanted e).text = edited e.text 0 (targets t wanted e) := (edited_zero _ _).symm

lemma pairwise_ranges_targets (h : e.WellMasked) :
    (e.ranges ++ (targets t wanted e).map Edit.span).Pairwise Separate := by
  obtain ⟨hord, hall⟩ := targets_spec t wanted e
  refine pairwise_append.2 ⟨h.separate, pairwise_map.2 (hord.pairwise.1.imp .inl), ?_⟩
  intro r hr s hs
  obtain ⟨d, hd, rfl⟩ := mem_map.1 hs
  exact (hall d hd).1 r hr

lemma whole_of_mem (h : e.WellMasked) {r : ℕ × ℕ}
    (hr : r ∈ e.ranges ++ (targets t wanted e).map Edit.span) :
    Whole (targets t wanted e) r ∧ r.2 ≤ e.text.length := by
  obtain ⟨hord, hall⟩ := targets_spec t wanted e
  rcases mem_append.1 hr with hr | hr
  · obtain ⟨hle, hbound⟩ := h.within r hr
    exact ⟨⟨hle, fun d hd => .inr ((hall d hd).1 r hr)⟩, hbound⟩
  · obtain ⟨d, hd, rfl⟩ := mem_map.1 hr
    exact ⟨hord.whole hd, (hord.pairwise.2 d hd).2.2⟩

lemma Masked.WellMasked.rescan (h : e.WellMasked) : (rescan t wanted e).WellMasked := by
  obtain ⟨hord, -⟩ := targets_spec t wanted e
  constructor
  · rw [rescan_ranges, pairwise_map]
    refine (pairwise_ranges_targets h).imp_of_mem fun {r s} hr hs hrs => ?_
    rcases hrs with hrs | hrs
    · exact .inl (((whole_of_mem h hr).1.moved_le hord).2 _ hrs)
    · exact .inr (((whole_of_mem h hs).1.moved_le hord).2 _ hrs)
  · rw [rescan_ranges, rescan_text, moved_length hord]
    intro r hr
    obtain ⟨s, hs, rfl⟩ := mem_map.1 hr
    obtain ⟨hwhole, hbound⟩ := whole_of_mem h hs
    exact ⟨(hwhole.moved_le hord).1 _ hwhole.1, (hwhole.moved_le hord).2 _ hbound⟩

/-- After a scan the old ranges hold what they held, and the new ones what was written. -/
lemma Masked.WellMasked.held_rescan (h : e.WellMasked) :
    (Stoker.rescan t wanted e).held = e.held ++ (targets t wanted e).map Edit.new := by
  obtain ⟨hord, hall⟩ := targets_spec t wanted e
  unfold Masked.held
  rw [rescan_ranges, rescan_text, map_append, map_append, map_map, map_map, map_map]
  congr 1
  · refine map_congr_left fun r hr => ?_
    exact slice_moved_of_clear hord (h.within r hr).1 fun d hd => (hall d hd).1 r hr
  · exact map_congr_left fun d hd => slice_moved_of_mem hord hd

/-- Through any number of scans the ranges stay apart, the first ones hold what they held, and every
further one holds a stand-in. -/
lemma Masked.WellMasked.iterate (h : e.WellMasked) (n : ℕ) :
    ((Stoker.rescan t wanted)^[n] e).WellMasked ∧
    ∃ later, ((Stoker.rescan t wanted)^[n] e).held = e.held ++ later ∧
      ∀ x ∈ later, ∃ v, t.mapping.lookup v = some x := by
  induction n with
  | zero => exact ⟨h, [], (append_nil _).symm, fun _ hx => absurd hx not_mem_nil⟩
  | succ n ih =>
    obtain ⟨hwell, later, hheld, hlater⟩ := ih
    rw [Function.iterate_succ_apply']
    generalize (Stoker.rescan t wanted)^[n] e = e' at hwell hheld ⊢
    refine ⟨hwell.rescan, later ++ (targets t wanted e').map Edit.new, ?_, fun x hx => ?_⟩
    · rw [hwell.held_rescan, hheld, append_assoc]
    · rcases mem_append.1 hx with hx | hx
      · exact hlater x hx
      · obtain ⟨d, hd, rfl⟩ := mem_map.1 hx
        exact ⟨_, ((targets_spec t wanted e').2 d hd).2.1⟩

/-- The loop ends after some number of scans, where nothing is left to rewrite. -/
lemma rewriteEverywhere_iterate {fuel : ℕ} {out : Masked}
    (h : rewriteEverywhere t wanted fuel e = some out) :
    (∃ n, out = (rescan t wanted)^[n] e) ∧ (wanted = [] ∨ targets t wanted out = []) := by
  induction fuel generalizing e with
  | zero => cases h
  | succ fuel ih =>
    rw [rewriteEverywhere] at h
    split_ifs at h with hdone
    · cases h
      exact ⟨⟨0, rfl⟩, hdone⟩
    · obtain ⟨⟨n, hn⟩, hdone'⟩ := ih h
      exact ⟨⟨n + 1, hn⟩, hdone'⟩

/-- Where a scan has nothing to rewrite, what is found there is of no field that asked for it. -/
lemma field_not_wanted (h : wanted = [] ∨ targets t wanted e = []) {place : Text} {inConfig : Bool}
    {f : Finding}
    (hf : f ∈ findings t place inConfig e.text e.ranges) {field : Text} (hfield : field ∈ wanted) :
    f.field ≠ some field := by
  intro horigin
  obtain ⟨hit, hhit, hf⟩ := mem_filterMap.1 hf
  split_ifs at hf with hsome
  obtain ⟨standIn, hstandIn⟩ := Option.isSome_iff_exists.1 hsome
  cases hf
  rcases h with rfl | h
  · cases hfield
  · have hnone := filterMap_eq_nil_iff.1 h hit hhit
    dsimp only at horigin
    rw [hstandIn, horigin] at hnone
    dsimp only at hnone
    rw [if_pos hfield] at hnone
    cases hnone

end

/-- The loop over the events of any report ends. Through its scans the masked ranges stay apart and
hold what they held, as those of a pass do at first. What is reported of an event is of no field
that asked for rewriting. -/
theorem replace_everywhere_loop (report : Report) (texts : List (Text × Text))
    (wanted : List Text) :
    (∃ report' found, scanResiduals report texts wanted = some (report', found) ∧
      List.Forall₂ (fun e out => ∃ n, out = (rescan report.tables wanted)^[n] e) report.events
        report'.events ∧
      ∀ f ∈ found, f.inConfig = false → ∀ field ∈ wanted, f.field ≠ some field) ∧
    (∀ e : Masked, e.WellMasked → ∀ n, ((rescan report.tables wanted)^[n] e).WellMasked ∧
      ∃ later, ((rescan report.tables wanted)^[n] e).held = e.held ++ later ∧
        ∀ x ∈ later, ∃ v, report.tables.mapping.lookup v = some x) ∧
    ∀ libs key fields events, pseudonymiseEvents libs key fields events = .ok report →
      ∀ e ∈ report.events, e.WellMasked := by
  refine ⟨?_, fun e he n => he.iterate n, ?_⟩
  · obtain ⟨report', found, hscan, -⟩ := scanResiduals_ends report texts wanted
      fun e _ => ⟨.plain e.text, rfl, fun r hr => absurd hr not_mem_nil⟩
    refine ⟨report', found, hscan, ?_⟩
    unfold scanResiduals at hscan
    split_ifs at hscan with hm
    · cases hscan
      exact ⟨forall₂_same.2 fun e _ => ⟨0, rfl⟩, fun f hf => absurd hf not_mem_nil⟩
    obtain ⟨events, hevents, hscan⟩ := Option.bind_eq_some_iff.1 hscan
    cases hscan
    have hends := (forall₂_of_mapM hevents).imp fun _ _ h => rewriteEverywhere_iterate h
    refine ⟨hends.imp fun _ _ h => h.1, fun f hf hplace field hfield => ?_⟩
    rcases mem_append.1 hf with hf | hf
    · obtain ⟨⟨e, i⟩, he, hf⟩ := mem_flatMap.1 hf
      obtain ⟨_, _, hend⟩ := forall₂_exists_of_mem hends (fst_mem_of_mem_zipIdx he)
      exact field_not_wanted hend.2 hf hfield
    · -- what is found in a setting is marked as such
      obtain ⟨⟨place, text⟩, _, hf⟩ := mem_flatMap.1 hf
      obtain ⟨hit, -, hf⟩ := mem_filterMap.1 hf
      split_ifs at hf
      cases hf
      cases hplace
  · intro libs key fields events h e he
    obtain ⟨compiled, hc, -⟩ := bind_ok h
    obtain ⟨-, hmade⟩ := pseudonymiseEvents_replaced hc h
    obtain ⟨event, -, hevent⟩ := forall₂_exists_of_mem hmade he
    obtain ⟨-, -, -, hpair, hwithin, -⟩ := hevent.faithfulTo
    exact ⟨hpair.imp .inl, hwithin⟩

end Stoker
