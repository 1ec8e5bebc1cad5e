import Stoker.Configuration.ConfigIO

/-!
# Importing a document twice

An import says that "re-running changes nothing". Each of its loops is a session over one table,
with the rows of the document as they are looked up, so the second import of an export finds a row
for everything and adds nothing. What it writes is what is there already, except where the export
names a repo or a spec twice that the instance did not have: the first import made a row of each,
and the second writes them all over the first of these.
-/

open List

namespace Stoker

open Sessions

variable {φ : Type} {libs : ConfigLibs}

/-! ### Rows of an export overwrite each other -/

/-- A row carries whatever another one does. -/
def DocRow.Covers (d e : DocRow φ) : Prop := ∀ f, d.fields f = none → e.fields f = none

lemma written_written (c : Columns φ) (foreign : Bool) {d e : DocRow φ} (h : d.Covers e)
    (columns : φ → Value) :
    c.written foreign d.fields (c.written foreign e.fields columns) =
      c.written foreign d.fields columns := by
  funext f
  by_cases hmask : (foreign && c.secret f) = true
  · simp [Columns.written, hmask]
  · cases hd : d.fields f with
    | none => simp [Columns.written, hmask, hd, h f hd]
    | some v => simp [Columns.written, hmask, hd]

/-- Two rows of a document agree in all that is set on a row that was there. -/
def DocRow.Agrees (c : Columns φ) (foreign : Bool) (first last : DocRow φ) : Prop :=
  ∀ f, (foreign && c.secret f) = false → last.fields f = first.fields f

lemma written_initial_iff (c : Columns φ) (foreign : Bool) {first last : DocRow φ}
    (h : first.Covers last) (h' : last.Covers first) :
    c.written foreign last.fields (c.initial first.fields) = c.initial first.fields ↔
      first.Agrees c foreign last := by
  rw [funext_iff]
  refine forall_congr' fun f => ?_
  cases hmask : foreign && c.secret f with
  | true => simp [Columns.written, hmask]
  | false =>
    cases hlast : last.fields f with
    | none => simp [Columns.written, Columns.initial, hmask, hlast, h' f hlast]
    | some v =>
      cases hfirst : first.fields f with
      | none => simp [h f hfirst] at hlast
      | some w => simp [Columns.written, Columns.initial, hmask, hlast, hfirst]

lemma filled_written {c : Columns φ} {foreign : Bool} {fields : φ → Option Value}
    {columns : φ → Value} (hinitial : c.Filled (c.initial fields)) (hcolumns : c.Filled columns) :
    c.Filled (c.written foreign fields columns) := by
  intro f hf
  have hnew := hinitial f hf
  cases hfield : fields f with
  | none => simpa [Columns.written, hfield] using hcolumns f hf
  | some v =>
    have hv : v ≠ .null := by simpa [Columns.initial, hfield] using hnew
    unfold Columns.written
    split_ifs
    · exact hcolumns f hf
    · simpa [hfield] using hv

lemma exportRow_covers (c : Columns φ) (includeSecrets : Bool) (r r' : ConfigRow φ) :
    (exportRow c includeSecrets r).Covers (exportRow c includeSecrets r') := by
  intro f hf
  simpa [exportRow, Columns.exported] using hf

/-! ### Targets and repos -/

section Sites

variable {c : Columns φ} {foreign : Bool} {docs : List (DocRow φ)} {t : Table (ConfigRow φ)}

/-- The rows of an export, as the import of them goes through them. -/
def exportedRows (libs : ConfigLibs) (c : Columns φ) (includeSecrets : Bool)
    (rows : List (ConfigRow φ)) : List (DocRow φ) :=
  namedRows libs ((orderedBy libs (·.name) rows).map (exportRow c includeSecrets))

lemma exportedRows_covers {includeSecrets : Bool} {rows : List (ConfigRow φ)} :
    ∀ d ∈ exportedRows libs c includeSecrets rows, ∀ e ∈ exportedRows libs c includeSecrets rows,
      d.Covers e := by
  intro d hd e he
  obtain ⟨r, -, rfl⟩ := mem_map.1 (mem_of_mem_filter hd)
  obtain ⟨r', -, rfl⟩ := mem_map.1 (mem_of_mem_filter he)
  exact exportRow_covers c includeSecrets r r'

lemma upsertRows_overwrites (hcovers : ∀ d ∈ docs, ∀ e ∈ docs, d.Covers e) :
    ∀ d ∈ docs, ∀ e ∈ docs, ∀ r,
      (upsertRows libs c foreign).update d ((upsertRows libs c foreign).update e r) =
        (upsertRows libs c foreign).update d r := by
  intro d hd e he r
  simp only [upsertRows, written_written c foreign (hcovers d hd e he) r.columns]

/-- Of the rows with a name or url that an instance does not have, the first and the last agree. -/
def RowsAgree (libs : ConfigLibs) (c : Columns φ) (foreign : Bool) (docs : List (DocRow φ))
    (rows : List (ConfigRow φ)) : Prop :=
  ∀ k, (∀ r ∈ rows, r.name ≠ k) → ∀ first ∈ (docs.filter fun d => d.key libs = k).head?,
    ∀ last ∈ (docs.filter fun d => d.key libs = k).getLast?, first.Agrees c foreign last

lemma upsertRows_reload_iff (hcovers : ∀ d ∈ docs, ∀ e ∈ docs, d.Covers e) :
    (upsertRows libs c foreign).load docs ((upsertRows libs c foreign).load docs t) =
      (upsertRows libs c foreign).load docs t ↔ RowsAgree libs c foreign docs t.rows := by
  rw [Upsert.load_load_iff_last (upsertRows_overwrites hcovers)
    (P := fun first last => first.Agrees c foreign last)]
  · refine forall_congr' fun k => ?_
    rw [Upsert.find_eq_none]
    rfl
  · intro first hfirst last hlast id
    rw [← written_initial_iff c foreign (hcovers _ hfirst _ hlast) (hcovers _ hlast _ hfirst)]
    simp [upsertRows]

lemma upsertRows_reload_filled (hcovers : ∀ d ∈ docs, ∀ e ∈ docs, d.Covers e)
    (h : ∀ r ∈ ((upsertRows libs c foreign).load docs t).rows, c.Filled r.columns) :
    ∀ r ∈ ((upsertRows libs c foreign).load docs ((upsertRows libs c foreign).load docs t)).rows,
      c.Filled r.columns := by
  intro r hr
  obtain hmem | ⟨d, -, ⟨id, hcreated⟩, r₀, hr₀, rfl⟩ :=
    Upsert.mem_load_load (upsertRows_overwrites hcovers) hr
  · exact h r hmem
  · exact filled_written (h _ hcreated) (h r₀ hr₀)

/-- Where names are unique, every row of the document has become a row of its own name. -/
lemma rowsAgree_of_nodup (h : (((upsertRows libs c foreign).load docs t).rows.map (·.name)).Nodup) :
    RowsAgree libs c foreign docs t.rows := by
  intro k hk first hfirst last hlast
  have hone := Upsert.ofKey_of_nodup_load (u := upsertRows libs c foreign) h
    (Upsert.find_eq_none.2 hk) hfirst
  obtain rfl := Upsert.last_of_ofKey_eq hone hlast
  exact fun f _ => rfl

end Sites

/-! ### Specs -/

section Specs

variable {targets : List (ConfigRow TargetField)} {packs : List PackEntry} {docs : List SpecDoc}
  {t : Table SpecRow}

def exportedSpecs (libs : ConfigLibs) (targets : List (ConfigRow TargetField))
    (packs : List PackEntry) (db : InstanceDb) : List SpecDoc :=
  appliedSpecs libs targets packs ((orderedBy libs (·.name) db.specs.rows).map (exportSpec db))

lemma exportedSpecs_covers {db : InstanceDb} :
    ∀ d ∈ exportedSpecs libs targets packs db, ∀ e ∈ exportedSpecs libs targets packs db,
      d.toDocRow.Covers e.toDocRow := by
  intro d hd e he
  obtain ⟨s, -, rfl⟩ := mem_map.1 (mem_of_mem_filter hd)
  obtain ⟨s', -, rfl⟩ := mem_map.1 (mem_of_mem_filter he)
  exact exportRow_covers specColumns true s.toConfigRow s'.toConfigRow

lemma upsertSpecs_overwrites (hcovers : ∀ d ∈ docs, ∀ e ∈ docs, d.toDocRow.Covers e.toDocRow) :
    ∀ d ∈ docs, ∀ e ∈ docs, ∀ r,
      (upsertSpecs libs targets packs).update d ((upsertSpecs libs targets packs).update e r) =
        (upsertSpecs libs targets packs).update d r := by
  intro d hd e he r
  simp only [upsertSpecs, written_written specColumns false (hcovers d hd e he) r.columns]

/-- Two specs of a document agree in their fields, their target and their pack. -/
def SpecDoc.Agrees (targets : List (ConfigRow TargetField)) (packs : List PackEntry)
    (first last : SpecDoc) : Prop :=
  first.toDocRow.Agrees specColumns false last.toDocRow ∧
    last.targetId targets = first.targetId targets ∧ last.packId packs = first.packId packs

/-- Of the specs with a name that an instance does not have, the first and the last agree. -/
def SpecsAgree (libs : ConfigLibs) (targets : List (ConfigRow TargetField)) (packs : List PackEntry)
    (docs : List SpecDoc) (rows : List SpecRow) : Prop :=
  ∀ k, (∀ r ∈ rows, r.name ≠ k) → ∀ first ∈ (docs.filter fun d => d.key libs = k).head?,
    ∀ last ∈ (docs.filter fun d => d.key libs = k).getLast?, first.Agrees targets packs last

lemma specsAgree_of_nodup {rows : List SpecRow} (h : (docs.map fun d => d.key libs).Nodup) :
    SpecsAgree libs targets packs docs rows := by
  intro k _ first hfirst last hlast
  have hone := Upsert.ofKey_head_of_nodup (u := upsertSpecs libs targets packs) h hfirst
  obtain rfl := Upsert.last_of_ofKey_eq hone hlast
  exact ⟨fun f _ => rfl, rfl, rfl⟩

lemma upsertSpecs_reload_iff (hcovers : ∀ d ∈ docs, ∀ e ∈ docs, d.toDocRow.Covers e.toDocRow) :
    (upsertSpecs libs targets packs).load docs ((upsertSpecs libs targets packs).load docs t) =
      (upsertSpecs libs targets packs).load docs t ↔ SpecsAgree libs targets packs docs t.rows := by
  rw [Upsert.load_load_iff_last (upsertSpecs_overwrites hcovers)
    (P := fun first last => first.Agrees targets packs last)]
  · refine forall_congr' fun k => ?_
    rw [Upsert.find_eq_none]
    rfl
  · intro first hfirst last hlast id
    rw [SpecDoc.Agrees, ← written_initial_iff specColumns false (hcovers _ hfirst _ hlast)
      (hcovers _ hlast _ hfirst)]
    simp [upsertSpecs]

lemma upsertSpecs_reload_valid (hcovers : ∀ d ∈ docs, ∀ e ∈ docs, d.toDocRow.Covers e.toDocRow)
    (h : InstanceDb.SpecsValid ((upsertSpecs libs targets packs).load docs t)) :
    InstanceDb.SpecsValid ((upsertSpecs libs targets packs).load docs
      ((upsertSpecs libs targets packs).load docs t)) := by
  intro r hr
  obtain hmem | ⟨d, -, ⟨id, hcreated⟩, r₀, hr₀, rfl⟩ :=
    Upsert.mem_load_load (upsertSpecs_overwrites hcovers) hr
  · exact h r hmem
  · obtain ⟨hfilled, htarget, hpack⟩ := h _ hcreated
    have hwritten : specColumns.Filled (specColumns.written false d.fields r₀.columns) :=
      filled_written hfilled (h r₀ hr₀).1
    exact ⟨hwritten, htarget, hpack⟩

end Specs

/-! ### The second import -/

section Reimport

variable {own : Option Text} {key : Text} {includeSecrets : Bool} {db source : InstanceDb}
  {doc : ConfigDoc}
  (hdoc : doc = exportConfig libs key includeSecrets source)
  (h : InstanceDb.SitesValid (importedTargets libs own doc db) (importedRepos libs own doc db))

include hdoc h

lemma importedTargets_again :
    importedTargets libs own doc (importedDb libs own doc db) =
      importedTargets libs own doc db := by
  subst hdoc
  exact (upsertRows_reload_iff exportedRows_covers).2 (rowsAgree_of_nodup h.1)

lemma importedSpecs_again :
    importedSpecs libs own doc (importedDb libs own doc db) =
      (upsertSpecs libs (importedTargets libs own doc db).rows db.packs).load
        (exportedSpecs libs (importedTargets libs own doc db).rows db.packs source)
        (importedSpecs libs own doc db) := by
  rw [importedSpecs, importableSpecs, importedTargets_again hdoc h, hdoc]
  rfl

lemma importedDb_again_iff :
    importedDb libs own doc (importedDb libs own doc db) = importedDb libs own doc db ↔
      importedRepos libs own doc (importedDb libs own doc db) = importedRepos libs own doc db ∧
      importedSpecs libs own doc (importedDb libs own doc db) = importedSpecs libs own doc db := by
  constructor
  · exact fun heq => ⟨congrArg InstanceDb.repos heq, congrArg InstanceDb.specs heq⟩
  · rintro ⟨hrepos, hspecs⟩
    rw [importedDb, importedTargets_again hdoc h, hrepos, hspecs]
    rfl

end Reimport

/-- A session in which every document has a row does not move the counter of ids. -/
lemma next_load_again {κ ρ δ : Type} [DecidableEq κ] (u : Upsert κ ρ δ) (docs : List δ)
    (t : Table ρ) : (u.load docs (u.load docs t)).next = (u.load docs t).next := by
  rw [Upsert.load_of_known fun d hd => Upsert.known_load docs t hd]

/-- Importing an export again creates nothing, and it changes nothing if, and only if, the export
agrees with itself: where it has several rows for the url of a repo or the name of a spec that the
instance did not have, the first and the last of them (of specs, of those that are not skipped) say
the same of every field that is set on a row that was there. -/
theorem reimport_changes_nothing_iff (libs : ConfigLibs) (own : Option Text) (key : Text)
    (includeSecrets : Bool) (source db db₁ : InstanceDb) (report₁ : ImportReport)
    (h : importConfig libs own (exportConfig libs key includeSecrets source) db =
      some (db₁, report₁)) :
    ∃ db₂ report₂,
      importConfig libs own (exportConfig libs key includeSecrets source) db₁ =
        some (db₂, report₂) ∧
      report₂.targets = 0 ∧ report₂.repos = 0 ∧ report₂.specs = 0 ∧
      (db₂ = db₁ ↔
        RowsAgree libs repoColumns (foreignKey (masterKeyFingerprint libs key) own)
          (exportedRows libs repoColumns includeSecrets source.repos.rows) db.repos.rows ∧
        SpecsAgree libs db₁.targets.rows db.packs
          (exportedSpecs libs db₁.targets.rows db.packs source) db.specs.rows) := by
  obtain ⟨rfl, -, hsites, hspecs⟩ := importConfig_eq_some.1 h
  have htargets := importedTargets_again rfl hsites
  have hspecsAgain := importedSpecs_again rfl hsites
  refine ⟨_, _, importConfig_eq_some.2 ⟨rfl, rfl, ?_, ?_⟩, ?_, ?_, ?_, ?_⟩
  · rw [htargets]
    exact ⟨hsites.1, hsites.2.1, upsertRows_reload_filled exportedRows_covers hsites.2.2⟩
  · rw [hspecsAgain]
    exact upsertSpecs_reload_valid exportedSpecs_covers hspecs
  · rw [importReport, htargets]
    exact Nat.sub_self _
  · exact Nat.sub_eq_zero_of_le (next_load_again _ _ _).le
  · rw [importReport, hspecsAgain]
    exact Nat.sub_eq_zero_of_le (next_load_again _ _ _).le
  · rw [importedDb_again_iff rfl hsites, hspecsAgain]
    exact and_congr (upsertRows_reload_iff exportedRows_covers)
      (upsertSpecs_reload_iff exportedSpecs_covers)

/-! ### A spec named twice -/

/-- Two specs of one name, of different packs. -/
def twiceNamedDb : InstanceDb where
  targets := { rows := [labTarget], next := 2 }
  repos := { rows := [], next := 1 }
  specs := { rows := [specOf 1 "soak" 1 1 [], specOf 2 "soak" 1 2 []], next := 3 }
  packs := [⟨1, "web"⟩, ⟨2, "auth"⟩]

theorem reimport_changes_nothing_iff_merged :
    ∃ db₁ report₁ report₂,
      importConfig plainLibs none (exportConfig plainLibs "key" true mergedDb)
        (emptyDb mergedDb.packs) = some (db₁, report₁) ∧
      importConfig plainLibs none (exportConfig plainLibs "key" true mergedDb) db₁ =
        some (db₁, report₂) ∧ report₂.specs = 0 := by
  have himport : importConfig plainLibs none (exportConfig plainLibs "key" true mergedDb)
      (emptyDb mergedDb.packs) = some (_, _) :=
    importConfig_eq_some.2 ⟨rfl, rfl, by decide, by decide⟩
  obtain ⟨db₂, report₂, hagain, -, -, hspecs, hsame⟩ := reimport_changes_nothing_iff plainLibs none
    "key" true mergedDb (emptyDb mergedDb.packs) _ _ himport
  have hagree := hsame.2 ⟨fun k _ first hfirst => absurd hfirst (Option.not_mem_none first),
    specsAgree_of_nodup (by decide)⟩
  exact ⟨_, _, report₂, himport, hagree ▸ hagain, hspecs⟩

/-- The second import of an export with two specs of one name gives the first of them the pack of
the second. -/
theorem reimport_merges_specs :
    let doc := exportConfig plainLibs "key" true twiceNamedDb
    let once := importConfig plainLibs none doc (emptyDb twiceNamedDb.packs)
    let twice := once.bind fun r => importConfig plainLibs none doc r.1
    once.map (fun r => r.1.specs.rows.map fun s => (s.id, s.name, s.pack)) =
      some [(1, "soak".toList, some 1), (2, "soak".toList, some 2)] ∧
    twice.map (fun r => r.1.specs.rows.map fun s => (s.id, s.name, s.pack)) =
      some [(1, "soak".toList, some 2), (2, "soak".toList, some 2)] := by
  constructor <;> decide

end Stoker
