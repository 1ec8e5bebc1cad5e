import Stoker.PackBuilder.ReadBack
import Stoker.PackBuilder.Survivors
import Stoker.Rewriting.Stretches

/-!
# What a pass changes

A pass that succeeds changes nothing but the texts it replaces: the ranges it records hold the
stand-ins, and between them stands what stood between the replaced texts. Texts that are the same
once normalised have one stand-in, and others never share one.
-/

open List

namespace Stoker

open Rewriting Transition

section

variable {libs : Libs} {key : List UInt8} {compiled : List Compiled} {event : Text} {out : Masked}

/-- The replaced texts stand in order in the event, the recorded ranges in what came of it; these
hold the stand-ins, and what lies between them is what lay between the replaced texts. -/
def FaithfulTo (libs : Libs) (key : List UInt8) (compiled : List Compiled) (event : Text)
    (out : Masked) : Prop :=
  ∃ edits : List (Edit Char),
    edits.Perm ((replacementsIn libs key compiled event).map fun r => r.edit.toEdit) ∧
    edits.Pairwise (fun a b => a.stop ≤ b.start) ∧
    out.ranges.Pairwise (fun a b => a.2 ≤ b.1) ∧
    (∀ r ∈ out.ranges, r.1 ≤ r.2 ∧ r.2 ≤ out.text.length) ∧
    (out.ranges.map fun r => slice out.text r.1 r.2) = edits.map Edit.new ∧
    gaps out.text 0 out.ranges = gaps event 0 (edits.map Edit.span)

lemma Made.faithfulTo (h : Made libs key compiled event out) :
    FaithfulTo libs key compiled event out := by
  obtain ⟨edits, hperm, hord, htext, hranges⟩ := h.patched
  set p := Patched.ofEdits event 0 edits with hp
  obtain ⟨hpair, hall⟩ := p.pairwise_ranges 0
  have hslices := p.map_slice_ranges [] 0
  have hgaps := p.gaps_ranges []
  rw [length_nil, nil_append, htext, hranges] at hslices hgaps
  rw [hranges] at hpair hall
  refine ⟨edits, hperm, hord.pairwise.1, hpair, fun r hr => ?_, ?_, ?_⟩
  · obtain ⟨_, hle, hbound⟩ := hall r hr
    exact ⟨hle, by rwa [Nat.zero_add, htext] at hbound⟩
  · rw [hslices, hp, Patched.map_ofEdits_patches]
  · rw [hgaps, hp, Patched.ofEdits_stretches]

lemma FaithfulTo.apart (h : FaithfulTo libs key compiled event out) :
    (replacementsIn libs key compiled event).Pairwise fun r r' => r.stop ≤ r'.start ∨
    r'.stop ≤ r.start := by
  obtain ⟨edits, hperm, hpair, -⟩ := h
  have hapart : edits.Pairwise fun a b => a.stop ≤ b.start ∨
      b.stop ≤ a.start := hpair.imp fun h => .inl h
  have hall := (hperm.pairwise_iff fun {a b} hab => hab.symm).1 hapart
  exact pairwise_map.1 hall

lemma pseudonym_congr {widen widen' : Option Format} {span span' standIn standIn' : Text}
    (h : pseudonym libs key widen span = some standIn)
    (h' : pseudonym libs key widen' span' = some standIn') (hnfc : libs.nfc span = libs.nfc span')
    (hformat : standInFormat widen (libs.nfc span) = standInFormat widen' (libs.nfc span')) :
    standIn = standIn' := by
  unfold pseudonym at h h'
  dsimp only at h h'
  rw [hformat, hnfc] at h
  split_ifs at h h'
  exact Option.some_inj.1 (h.symm.trans h')

variable {events : List Text} {r r' : Replaced}

lemma produced_of_compile {fields : List PseudonymField}
    (hc : fields.mapM (PseudonymField.compile libs) = .ok compiled) :
    ∀ c ∈ compiled, ∀ fmt ∈ c.widen, Produced fmt := by
  intro c hmem fmt hfmt
  obtain ⟨f, _, hf⟩ := exists_of_mem_mapM hc c hmem
  unfold PseudonymField.compile at hf
  cases hw : f.widen with
  | none =>
    rw [hw] at hf
    cases hf
    cases hfmt
  | some w =>
    rw [hw] at hf
    obtain ⟨fmt', hwiden, hf⟩ := bind_ok hf
    cases hf
    cases hfmt
    exact .widen hwiden

lemma mem_replacements (h : r ∈ replacements libs key compiled events) :
    ∃ c ∈ compiled, r.row = c.row ∧ r.policy = c.widen ∧ ∃ span, r.normalised = libs.nfc span ∧
      pseudonym libs key r.policy span = some r.standIn := by
  obtain ⟨event, -, h⟩ := mem_flatMap.1 h
  obtain ⟨c, hc, hrow, hpolicy, -, -, hnorm, hp⟩ := mem_replacementsIn h
  exact ⟨c, hc, hrow, hpolicy, _, hnorm, hp⟩

lemma standIn_eq_of_format_eq (h : r ∈ replacements libs key compiled events)
    (h' : r' ∈ replacements libs key compiled events) (hnorm : r.normalised = r'.normalised)
    (hformat : r.format = r'.format) : r.standIn = r'.standIn := by
  obtain ⟨_, _, _, _, span, hspan, hp⟩ := mem_replacements h
  obtain ⟨_, _, _, _, span', hspan', hp'⟩ := mem_replacements h'
  rw [Replaced.format, Replaced.format, hspan, hspan'] at hformat
  rw [hspan, hspan'] at hnorm
  exact pseudonym_congr hp hp' hnorm hformat

lemma infer_standIn (hw : ∀ c ∈ compiled, ∀ fmt ∈ c.widen, Produced fmt)
    (h : r ∈ replacements libs key compiled events) : infer r.standIn = r.format := by
  obtain ⟨c, hc, _, hpolicy, span, hspan, hp⟩ := mem_replacements h
  have hproduced : ∀ fmt ∈ r.policy, Produced fmt := by
    rw [hpolicy]
    exact hw c hc
  rw [Replaced.format, hspan]
  exact infer_pseudonym hproduced hp

/-- Two texts with one stand-in have one format, so the pass would have found the second one
taken. -/
lemma normalised_eq_of_standIn_eq (hw : ∀ c ∈ compiled, ∀ fmt ∈ c.widen, Produced fmt)
    {t t' : Tables} (hentered : Entered (replacements libs key compiled events) t t')
    (h : r ∈ replacements libs key compiled events)
    (h' : r' ∈ replacements libs key compiled events)
    (hsame : r.standIn = r'.standIn) : r.normalised = r'.normalised := by
  have hformat : r.format = r'.format := by
    rw [← infer_standIn hw h, ← infer_standIn hw h', hsame]
  have hfound := hentered.found r h
  rw [hformat, hsame, hentered.found r' h'] at hfound
  exact (Option.some_inj.1 hfound).symm

end

/-- A pass that succeeds is faithful: in every event the ranges hold the stand-ins and what is
between them is as it was; over the whole sample texts with one normal form and one policy have one
stand-in, and texts with different normal forms have different ones. Two replaced texts that overlap
make it fail. -/
theorem pseudonymising_is_faithful (libs : Libs) (key : List UInt8) (fields : List PseudonymField)
    (events : List Text) :
    (∀ report, pseudonymiseEvents libs key fields events = .ok report →
      ∃ compiled, fields.mapM (PseudonymField.compile libs) = .ok compiled ∧
        List.Forall₂ (FaithfulTo libs key compiled) events report.events ∧
        ∀ r ∈ replacements libs key compiled events, ∀ r' ∈ replacements libs key compiled events,
          (r.policy = r'.policy → r.normalised = r'.normalised → r.standIn = r'.standIn) ∧
          (r.normalised ≠ r'.normalised → r.standIn ≠ r'.standIn)) ∧
    ∀ compiled, fields.mapM (PseudonymField.compile libs) = .ok compiled →
      ∀ event ∈ events, ¬(replacementsIn libs key compiled event).Pairwise
          (fun r r' => r.stop ≤ r'.start ∨ r'.stop ≤ r.start) →
        ∃ e, pseudonymiseEvents libs key fields events = .error e := by
  constructor
  · intro report h
    obtain ⟨compiled, hc, -⟩ := bind_ok h
    obtain ⟨hentered, hmade⟩ := pseudonymiseEvents_replaced hc h
    refine ⟨compiled, hc, hmade.imp fun _ _ hm => hm.faithfulTo, fun r hr r' hr' => ⟨?_, ?_⟩⟩
    · intro hpolicy hnorm
      refine standIn_eq_of_format_eq hr hr' hnorm ?_
      rw [Replaced.format, Replaced.format, hpolicy, hnorm]
    · exact mt (normalised_eq_of_standIn_eq (produced_of_compile hc) hentered hr hr')
  · intro compiled hc event hevent hover
    cases h : pseudonymiseEvents libs key fields events with
    | error e => exact ⟨e, rfl⟩
    | ok report =>
      obtain ⟨-, hmade⟩ := pseudonymiseEvents_replaced hc h
      obtain ⟨out, -, hout⟩ := forall₂_exists_of_mem hmade.flip hevent
      exact absurd (Made.faithfulTo hout).apart hover

/-- Two fields that match the text behind `user=`. -/
def twiceMatched : List PseudonymField :=
  [{ field := "user", pattern := "user=(\\S+)" },
    { field := "account", pattern := "user=(\\S+)" }]

/-- Both fields match the dashes of the event, which have nothing to vary: the matches overlap, and
the pass succeeds with the event as it was. -/
theorem overlapping_dashes_pass :
    (∀ f ∈ twiceMatched, ((sampleLibs.regex f.pattern).finditer "user=--- in").map Match.group =
      [some (5, 8)]) ∧
    (pseudonymiseEvents sampleLibs [1] twiceMatched ["user=--- in"]).toOption.map Report.events =
      some [{ text := "user=--- in" }] := by
  decide +kernel

end Stoker
