import Stoker.PackBuilder.Rescans

/-!
# Whose stand-in a residual gets

`scan_residuals` rewrites a value for the field that replaced it first, but with the stand-in that
was stored for it last. When fields with different policies replace one value, the two need not
belong together.
-/

open List

namespace Stoker

open Rewriting Transition

/-- Whatever event the scan looks at, what it writes for a field is what the field itself has
written for that value. -/
def Joins (rs : List Replaced) (t : Tables) (wanted : List Text) : Prop :=
  ∀ (e : Masked), ∀ d ∈ targets t wanted e, ∀ r ∈ rs, r.normalised = slice e.text d.start d.stop →
    t.origin.lookup r.normalised = some r.row.field → d.new = r.standIn

/-- A value that a field replaced first, where the field wants it rewritten everywhere, is given the
format of that field the last time it is replaced. -/
def OwnFormatLast (rs : List Replaced) (wanted : List Text) : Prop :=
  ∀ r ∈ rs, r.normalised ≠ [] → (∀ first ∈ (replacementsOf rs r.normalised).head?,
    first.row.field = r.row.field) →
    r.row.field ∈ wanted → ∀ last ∈ (replacementsOf rs r.normalised).getLast?,
      last.format = r.format

instance (rs : List Replaced) (wanted : List Text) : Decidable (OwnFormatLast rs wanted) :=
  inferInstanceAs (Decidable (∀ r ∈ rs, _ → _ → _ → _))

section

variable {rs : List Replaced} {t : Tables} {wanted : List Text} {r : Replaced}

/-- What the tables of a pass have for a value that was replaced. -/
lemma Entered.tables (h : Entered rs {} t) (hr : r ∈ rs) :
    ∃ first last, (replacementsOf rs r.normalised).head? = some first ∧
      (replacementsOf rs r.normalised).getLast? = some last ∧ last ∈ rs ∧
      last.normalised = r.normalised ∧
      t.origin.lookup r.normalised = some first.row.field ∧
      t.mapping.lookup r.normalised = some last.standIn := by
  have hne : replacementsOf rs r.normalised ≠ [] := ne_nil_of_mem (mem_replacementsOf hr)
  have hfirst := head?_eq_some_head hne
  have hlast := getLast?_eq_some_getLast hne
  obtain ⟨hmem, hnorm⟩ := mem_filter.1 (mem_of_getLast? hlast)
  refine ⟨_, _, hfirst, hlast, hmem, of_decide_eq_true hnorm, ?_, ?_⟩
  · rw [h.origin, ← replacementsOf, hfirst]
    rfl
  · rw [h.mapping, ← replacementsOf, hlast]
    rfl

variable {v : Text}

lemma residualAt_self {values : List Text} (h : v ∈ values) (hv : v ≠ []) :
    residualAt values v = some v := by
  have hmem : v ∈ values.filter fun w => w ≠ [] && w.isPrefixOf v &&
      endsToken (v.drop w.length) := by
    simp [h, hv, endsToken]
  cases hw : residualAt values v with
  | none =>
    rw [argmax_eq_none.1 hw] at hmem
    cases hmem
  | some w =>
    obtain ⟨-, -, hfront⟩ := residualAt_some hw
    have hlong : v.length ≤ w.length := le_of_mem_argmax hmem hw
    rw [hfront.eq_of_length (le_antisymm hfront.length_le hlong)]

lemma mem_targets_self {standIn field : Text} (hv : v ≠ [])
    (hmapping : t.mapping.lookup v = some standIn) (horigin : t.origin.lookup v = some field)
    (hwanted : field ∈ wanted) : ⟨0, v.length, standIn⟩ ∈ targets t wanted { text := v } := by
  have hkey : v ∈ t.mapping.map (·.1) := by
    obtain ⟨front, back, heq, -⟩ := lookup_eq_some_iff.1 hmapping
    rw [heq]
    simp
  have hhit : ⟨0, v.length, v⟩ ∈ findResiduals (t.mapping.map (·.1)) v [] := by
    refine mem_filter.2 ⟨?_, rfl⟩
    obtain ⟨c, rest, rfl⟩ := exists_cons_of_ne_nil hv
    rw [residualScan, if_neg Bool.false_ne_true, residualAt_self hkey hv]
    dsimp only
    rw [Nat.zero_add]
    exact mem_cons_self
  refine mem_filterMap.2 ⟨_, hhit, ?_⟩
  rw [hmapping, horigin]
  exact if_pos hwanted

/-- What a scan writes for a value is what one of its replacements wrote exactly when that one was
made in the format that was asked for last. -/
lemma new_eq_standIn_iff {libs : Libs} {key : List UInt8} {compiled : List Compiled}
    {events : List Text} (hw : ∀ c ∈ compiled, ∀ fmt ∈ c.widen, Produced fmt)
    (hentered : Entered (replacements libs key compiled events) {} t) {e : Masked} {d : Edit Char}
    (hd : d ∈ targets t wanted e) (hr : r ∈ replacements libs key compiled events)
    (hval : r.normalised = slice e.text d.start d.stop) :
    ∃ last, (replacementsOf (replacements libs key compiled events) r.normalised).getLast? =
      some last ∧
      (d.new = r.standIn ↔ last.format = r.format) := by
  obtain ⟨-, last, -, hlast, hmem, hnorm, -, hmapping⟩ := hentered.tables hr
  obtain ⟨-, hnew, -⟩ := (targets_spec t wanted e).2 d hd
  rw [← hval, hmapping] at hnew
  rw [← Option.some_inj.1 hnew]
  refine ⟨last, hlast, fun hsame => ?_, standIn_eq_of_format_eq hmem hr hnorm⟩
  rw [← infer_standIn hw hmem, hsame, infer_standIn hw hr]

end

/-- After a pass, what is written for a residual is its own field's stand-in exactly when that field
gives it the format that was asked for last; and the scan goes wrong in no event exactly when this
is so for every value that it may rewrite. -/
theorem residuals_join_iff {libs : Libs} {key : List UInt8} {fields : List PseudonymField}
    {compiled : List Compiled} {events : List Text} {report : Report}
    (hc : fields.mapM (PseudonymField.compile libs) = .ok compiled)
    (h : pseudonymiseEvents libs key fields events = .ok report) (wanted : List Text) :
    (∀ (e : Masked), ∀ d ∈ targets report.tables wanted e,
      ∀ r ∈ replacements libs key compiled events,
      r.normalised = slice e.text d.start d.stop → ∃ last,
        (replacementsOf (replacements libs key compiled events) r.normalised).getLast? = some last ∧
        (d.new = r.standIn ↔ last.format = r.format)) ∧
    (Joins (replacements libs key compiled events) report.tables wanted ↔
      OwnFormatLast (replacements libs key compiled events) wanted) := by
  obtain ⟨hentered, -⟩ := pseudonymiseEvents_replaced hc h
  have hw := produced_of_compile hc
  refine ⟨fun e d hd r hr hval => new_eq_standIn_iff hw hentered hd hr hval, fun hjoins => ?_,
    fun hown => ?_⟩
  · intro r hr hne hfirst hwanted last hlast
    obtain ⟨first, _, hfirst', -, -, -, horigin, hmapping⟩ := hentered.tables hr
    rw [hfirst first hfirst'] at horigin
    -- an event that is nothing but the value
    have hd := mem_targets_self hne hmapping horigin hwanted
    have hval : r.normalised = slice r.normalised 0 r.normalised.length := by
      rw [slice, take_length, drop_zero]
    obtain ⟨last', hlast', hiff⟩ := new_eq_standIn_iff hw hentered hd hr hval
    rw [Option.some_inj.1 (hlast.symm.trans hlast')]
    exact hiff.1 (hjoins _ _ hd r hr hval horigin)
  · intro e d hd r hr hval horigin
    obtain ⟨-, -, field, hwanted, hfield⟩ := (targets_spec report.tables wanted e).2 d hd
    rw [← hval, horigin] at hfield
    obtain ⟨first, _, hfirst, -, -, -, horigin', -⟩ := hentered.tables hr
    have howner : first.row.field = r.row.field := Option.some_inj.1 (horigin'.symm.trans horigin)
    obtain ⟨last, hlast, hiff⟩ := new_eq_standIn_iff hw hentered hd hr hval
    refine hiff.2 (hown r hr ?_ (fun f hf => ?_) ?_ last hlast)
    · obtain ⟨-, hlt, hstop⟩ := (targets_spec report.tables wanted e).1.pairwise.2 d hd
      rw [hval, ← length_pos_iff, slice_length hstop]
      omega
    · rw [Option.some_inj.1 (hf.symm.trans hfirst)]
      exact howner
    · rw [Option.some_inj.1 hfield]
      exact hwanted

/-! ### Two fields with one value -/

/-- Patterns for what stands behind `user=` and behind `id=`. -/
def joinLibs : Libs :=
  { sampleLibs with
    regex := fun pattern =>
      keyedRegex (if pattern = "user=(\\S+)" then "user=" else "id=")
        fun t => t.takeWhile fun c => c ≠ ' ' }

/-- The first field is to be replaced everywhere; the second one may be widened. -/
def joinFields (widen : Option Widen) : List PseudonymField :=
  [{ field := "user", pattern := "user=(\\S+)", rewriteResiduals := true },
    { field := "account", pattern := "id=(\\S+)", widen := widen }]

def joinSample : List Text := ["user=123456 in", "id=123456 out", "path /123456/ end"]

/-- The fields compiled, without widening. -/
def joinCompiled : List Compiled :=
  (joinFields none).map fun f => { row := f, rx := joinLibs.regex f.pattern, widen := none }

/-- Without widening the two fields have one format for the value. -/
theorem residuals_join_unwidened : ∃ report,
    pseudonymiseEvents joinLibs [1] (joinFields none) joinSample = .ok report ∧
    replacements joinLibs [1] joinCompiled joinSample ≠ [] ∧
    Joins (replacements joinLibs [1] joinCompiled joinSample) report.tables ["user"] := by
  have hpasses : (pseudonymiseEvents joinLibs [1] (joinFields none) joinSample).toOption.isSome =
      true := by
    decide +kernel
  cases h : pseudonymiseEvents joinLibs [1] (joinFields none) joinSample with
  | error e =>
    rw [h] at hpasses
    cases hpasses
  | ok report =>
    have hc : (joinFields none).mapM (PseudonymField.compile joinLibs) = .ok joinCompiled := rfl
    refine ⟨report, rfl, by decide +kernel, (residuals_join_iff hc h ["user"]).2.2 ?_⟩
    decide +kernel

/-- The second field is widened and replaces the value after the first one: the path, rewritten for
the first field, gets the stand-in of the second. -/
theorem residual_joins_another_field :
    (((pseudonymiseEvents joinLibs [1]
      (joinFields (some { shape := .digits })) joinSample).toOption.bind
      fun report => scanResiduals report [] ["user"]).map
        fun scanned => scanned.1.events.map fun e => String.ofList e.text) =
    some ["user=256789 in", "id=100000123456789 out", "path /100000123456789/ end"] := by
  decide +kernel

end Stoker
