import Stoker.Configuration.ConfigIO

/-!
# What a restored configuration means

A configuration is exported from one instance and imported into an empty one, whose rows get ids of
their own. Targets and repos are then the same but for their ids. A spec refers to its target and
its pack by name in the document; its extra packs stay the list of ids they were, so that they are
the same packs only where the two instances happen to agree on those ids.
-/

open List

namespace Stoker

open Sessions

variable {φ : Type}

/-- A row apart from its id. -/
def ConfigRow.content (r : ConfigRow φ) : Text × (φ → Value) := (r.name, r.columns)

def SpecRow.extraPackIds (spec : SpecRow) : List ℕ :=
  match spec.columns .extraPackIdsJson with
  | .ids ids => ids
  | _ => []

/-- What a spec says and, by name, what it refers to. -/
structure SpecMeaning where
  content : Text × (SpecField → Value)
  target : Option Text
  pack : Option Text
  extraPacks : List (Option Text)

def InstanceDb.meaning (db : InstanceDb) (spec : SpecRow) : SpecMeaning :=
  { content := spec.content
    target := db.targetName spec.target
    pack := db.packName spec.pack
    extraPacks := spec.extraPackIds.map fun id => db.packName (some id) }

lemma InstanceDb.meaning_eq_iff {db db' : InstanceDb} {row s : SpecRow} :
    db'.meaning row = db.meaning s ↔ row.content = s.content ∧
      db'.targetName row.target = db.targetName s.target ∧
      db'.packName row.pack = db.packName s.pack ∧
      ∀ id ∈ s.extraPackIds, db'.packName (some id) = db.packName (some id) := by
  simp only [meaning, SpecMeaning.mk.injEq]
  refine and_congr_right fun hcontent => ?_
  have hcolumns : row.columns = s.columns := congrArg Prod.snd hcontent
  have hids : row.extraPackIds = s.extraPackIds := by rw [SpecRow.extraPackIds, hcolumns]; rfl
  rw [hids, map_inj_left]

/-- A name that an import looks up as it is. -/
def ConfigLibs.Plain (libs : ConfigLibs) (name : Text) : Prop := libs.strip name = name ∧ name ≠ []

variable {libs : ConfigLibs}

/-! ### Rows of a document -/

variable {rows : List (ConfigRow φ)} {α : Type} {t : Table (ConfigRow φ)}

lemma perm_orderedBy (name : α → Text) (rows : List α) :
    (orderedBy libs name rows).Perm rows :=
  perm_insertionSort _ _

lemma initial_exported (c : Columns φ) (columns : φ → Value) :
    c.initial (c.exported true columns) = columns := by
  funext f
  simp [Columns.initial, Columns.exported]

lemma key_exportRow (c : Columns φ) (includeSecrets : Bool) {r : ConfigRow φ}
    (h : libs.Plain r.name) : (exportRow c includeSecrets r).key libs = r.name :=
  h.1

/-- In an empty table, the rows of an export become the rows they came from. -/
lemma restored_rows (c : Columns φ) (foreign : Bool) (ht : t.rows = [])
    (hnames : ∀ r ∈ rows, libs.Plain r.name) :
    (((upsertRows libs c foreign).load (namedRows libs
      ((orderedBy libs (·.name) rows).map (exportRow c true))) t).rows.map ConfigRow.content).Perm
      (rows.map ConfigRow.content) := by
  have hplain : ∀ r ∈ orderedBy libs (·.name) rows, libs.Plain r.name :=
    fun r hr => hnames r ((perm_orderedBy _ rows).mem_iff.1 hr)
  have hnamed : namedRows libs ((orderedBy libs (·.name) rows).map (exportRow c true)) =
      (orderedBy libs (·.name) rows).map (exportRow c true) := by
    refine filter_eq_self.2 fun d hd => ?_
    obtain ⟨r, hr, rfl⟩ := mem_map.1 hd
    simpa [key_exportRow c true (hplain r hr)] using (hplain r hr).2
  have hcontent : ∀ id d, ((upsertRows libs c foreign).create id d).content =
      (d.key libs, c.initial d.fields) := fun _ _ => rfl
  rw [hnamed, Upsert.load_of_empty ht, Upsert.map_created hcontent, map_map]
  have hsame : (orderedBy libs (·.name) rows).map
      ((fun d => (d.key libs, c.initial d.fields)) ∘ exportRow c true) =
      (orderedBy libs (·.name) rows).map ConfigRow.content := by
    refine map_congr_left fun r hr => ?_
    have hfields : c.initial (exportRow c true r).fields = r.columns := initial_exported c r.columns
    rw [Function.comp_apply, key_exportRow c true (hplain r hr), hfields]
    rfl
  rw [hsame]
  exact (perm_orderedBy _ rows).map _

/-! ### Names and ids -/

variable {n : Text}

/-- Where ids are unique, the id of a name leads back to the name. -/
lemma name_of_idOf {id : α → ℕ} {name : α → Text} {rows : List α} (hids : (rows.map id).Nodup)
    (h : ∃ r ∈ rows, name r = n) :
    ∃ i, idOf id name rows (some n) = some i ∧
      (rows.find? fun r => some (id r) = some i).map name = some n := by
  obtain ⟨r, hr, hn⟩ := h
  cases hfind : rows.find? (fun r => some (name r) = some n) with
  | none =>
    have hnone := find?_eq_none.1 hfind r hr
    exact absurd (decide_eq_true (congrArg some hn)) hnone
  | some r' =>
    have hr' := mem_of_find?_eq_some hfind
    have hn' : name r' = n := by simpa using find?_some hfind
    refine ⟨id r', by rw [idOf, hfind]; rfl, ?_⟩
    cases hback : rows.find? (fun r => some (id r) = some (id r')) with
    | none =>
      have hnone := find?_eq_none.1 hback r' hr'
      exact absurd (decide_eq_true rfl) hnone
    | some r'' =>
      have hid : id r'' = id r' := by simpa using find?_some hback
      have heq := inj_on_of_nodup_map hids (mem_of_find?_eq_some hback) hr' hid
      rw [heq, Option.map_some, hn']

lemma exists_of_nameOf {ρ : Type*} {refers : ρ → Bool} {name : ρ → Text} {rows : List ρ}
    (h : (rows.find? refers).map name = some n) : ∃ r ∈ rows, name r = n := by
  obtain ⟨r, hr, hn⟩ := Option.map_eq_some_iff.1 h
  exact ⟨r, mem_of_find?_eq_some hr, hn⟩

variable {s : SpecRow}

lemma targetId_exportSpec {db : InstanceDb} {targets : List (ConfigRow TargetField)}
    (hn : db.targetName s.target = some n) (hne : n ≠ [])
    (hids : (targets.map (·.id)).Nodup) (hmem : ∃ t ∈ targets, t.name = n) :
    ∃ i, (exportSpec db s).targetId targets = some i ∧
      (targets.find? fun t => some t.id = some i).map (·.name) = some n := by
  have hwanted : (exportSpec db s).target = some n := hn
  rw [SpecDoc.targetId, hwanted, Option.getD_some, if_neg hne]
  exact name_of_idOf hids hmem

lemma packId_exportSpec {db : InstanceDb} {packs : List PackEntry}
    (hn : db.packName s.pack = some n) (hne : n ≠ []) (hids : (packs.map (·.id)).Nodup)
    (hmem : ∃ p ∈ packs, p.name = n) :
    ∃ i, (exportSpec db s).packId packs = some i ∧
      (packs.find? fun p => some p.id = some i).map (·.name) = some n := by
  have hwanted : (exportSpec db s).pack = some n := hn
  rw [SpecDoc.packId, hwanted, Option.getD_some, if_neg hne]
  exact name_of_idOf hids hmem

/-! ### An instance restored -/

/-- An instance as the database keeps it, and an empty one that has packs of the same names. -/
structure Restorable (db empty : InstanceDb) : Prop where
  sites : InstanceDb.SitesValid db.targets db.repos
  specs : InstanceDb.SpecsValid db.specs
  refers : ∀ s ∈ db.specs.rows, (db.targetName s.target).isSome ∧ (db.packName s.pack).isSome
  packs : ∀ p ∈ db.packs, ∃ q ∈ empty.packs, q.name = p.name
  packIds : (empty.packs.map (·.id)).Nodup
  noTargets : empty.targets.rows = []
  noRepos : empty.repos.rows = []
  noSpecs : empty.specs.rows = []

/-- The names of a configuration that an import looks up as they are. -/
structure PlainNames (libs : ConfigLibs) (db : InstanceDb) : Prop where
  targets : ∀ t ∈ db.targets.rows, libs.Plain t.name
  repos : ∀ r ∈ db.repos.rows, libs.Plain r.name
  specs : ∀ s ∈ db.specs.rows, libs.Plain s.name
  packs : ∀ s ∈ db.specs.rows, db.packName s.pack ≠ some []

/-- An instance, once the export of another has been imported into it. -/
def restored (libs : ConfigLibs) (own : Option Text) (key : Text) (db empty : InstanceDb) :
    InstanceDb :=
  importedDb libs own (exportConfig libs key true db) empty

/-- What is true of the contents of rows stays true of them in another order, with other ids. -/
lemma filled_of_perm {c : Columns φ} {rows' : List (ConfigRow φ)}
    (hperm : (rows'.map ConfigRow.content).Perm (rows.map ConfigRow.content))
    (h : ∀ r ∈ rows, c.Filled r.columns) : ∀ r ∈ rows', c.Filled r.columns := by
  intro r hr
  obtain ⟨r₀, hr₀, heq⟩ := mem_map.1 (hperm.mem_iff.1 (mem_map_of_mem hr))
  have hcolumns : r₀.columns = r.columns := congrArg Prod.snd heq
  exact hcolumns ▸ h r₀ hr₀

section Restoring

variable {own : Option Text} {key : Text} {db empty db' : InstanceDb} (h : Restorable db empty)
  (hdb' : db' = restored libs own key db empty)

include h hdb'

lemma restored_target_ids : (db'.targets.rows.map (·.id)).Nodup := by
  rw [hdb', restored, importedDb, importedTargets, Upsert.load_of_empty h.noTargets,
    Upsert.map_id_created fun _ _ => rfl]
  exact nodup_range'

variable (hplain : PlainNames libs db)

include hplain

lemma restored_targets :
    (db'.targets.rows.map ConfigRow.content).Perm (db.targets.rows.map ConfigRow.content) :=
  hdb' ▸ restored_rows targetColumns _ h.noTargets hplain.targets

lemma restored_repos :
    (db'.repos.rows.map ConfigRow.content).Perm (db.repos.rows.map ConfigRow.content) :=
  hdb' ▸ restored_rows repoColumns _ h.noRepos hplain.repos

lemma restored_sites : InstanceDb.SitesValid db'.targets db'.repos := by
  obtain ⟨hnodup, htargets, hrepos⟩ := h.sites
  have hperm := restored_targets h hdb' hplain
  refine ⟨?_, filled_of_perm hperm htargets, filled_of_perm (restored_repos h hdb' hplain) hrepos⟩
  have hnames := hperm.map Prod.fst
  rw [map_map, map_map] at hnames
  exact hnames.nodup_iff.2 hnodup

/-- What the document says of a spec leads to its target and its pack on the restored instance. -/
lemma restored_refers (hs : s ∈ db.specs.rows) :
    (∃ i, (exportSpec db s).targetId db'.targets.rows = some i ∧
      db'.targetName (some i) = db.targetName s.target) ∧
    ∃ i, (exportSpec db s).packId empty.packs = some i ∧
      db'.packName (some i) = db.packName s.pack := by
  obtain ⟨htarget, hpack⟩ := h.refers s hs
  obtain ⟨n, hn⟩ := Option.isSome_iff_exists.1 htarget
  obtain ⟨m, hm⟩ := Option.isSome_iff_exists.1 hpack
  constructor
  · obtain ⟨t, ht, rfl⟩ := exists_of_nameOf hn
    have hperm := restored_targets h hdb' hplain
    obtain ⟨t', ht', heq⟩ := mem_map.1 (hperm.mem_iff.2 (mem_map_of_mem ht))
    rw [hn]
    exact targetId_exportSpec hn (hplain.targets t ht).2 (restored_target_ids h hdb')
      ⟨t', ht', congrArg Prod.fst heq⟩
  · obtain ⟨p, hp, rfl⟩ := exists_of_nameOf hm
    have hne : p.name ≠ [] := fun hempty => hplain.packs s hs (hempty ▸ hm)
    rw [hm, hdb']
    exact packId_exportSpec hm hne h.packIds (h.packs p hp)

lemma restored_specs_rows :
    db'.specs.rows = (upsertSpecs libs db'.targets.rows empty.packs).created empty.specs.next
      ((orderedBy libs (·.name) db.specs.rows).map (exportSpec db)) := by
  have hall : importableSpecs libs own (exportConfig libs key true db) empty =
      (orderedBy libs (·.name) db.specs.rows).map (exportSpec db) := by
    refine filter_eq_self.2 fun d hd => ?_
    obtain ⟨s, hs, rfl⟩ := mem_map.1 hd
    have hs' := (perm_orderedBy _ _).mem_iff.1 hs
    obtain ⟨⟨i, htarget, -⟩, j, hpack, -⟩ := restored_refers h hdb' hplain hs'
    have hkey : (exportSpec db s).key libs ≠ [] := by
      rw [exportSpec, key_exportRow specColumns true (hplain.specs s hs')]
      exact (hplain.specs s hs').2
    have htarget' : (exportSpec db s).targetId
        (importedTargets libs own (exportConfig libs key true db) empty).rows = some i := by
      rwa [hdb'] at htarget
    simp [specSkip, hkey, htarget', hpack]
  rw [hdb', restored, importedDb, importedSpecs, Upsert.load_of_empty h.noSpecs, hall]

variable {row : SpecRow}

lemma restored_spec (hs : s ∈ db.specs.rows) (id : ℕ)
    (hrow : row = (upsertSpecs libs db'.targets.rows empty.packs).create id (exportSpec db s)) :
    row.content = s.content ∧ row.target.isSome ∧ row.pack.isSome ∧
      db'.targetName row.target = db.targetName s.target ∧
      db'.packName row.pack = db.packName s.pack := by
  obtain ⟨⟨i, hi, htarget⟩, j, hj, hpack⟩ := restored_refers h hdb' hplain hs
  have hname : row.name = s.name := by
    rw [hrow]
    exact key_exportRow specColumns true (hplain.specs s hs)
  have hcolumns : row.columns = s.columns := by
    rw [hrow]
    exact initial_exported specColumns s.columns
  have hrowTarget : row.target = some i := by
    rw [hrow]
    exact hi
  have hrowPack : row.pack = some j := by
    rw [hrow]
    exact hj
  refine ⟨Prod.ext hname hcolumns, ?_, ?_, ?_, ?_⟩
  · rw [hrowTarget]; rfl
  · rw [hrowPack]; rfl
  · rw [hrowTarget]; exact htarget
  · rw [hrowPack]; exact hpack

lemma restored_meaning (hs : s ∈ db.specs.rows)
    (hextra : ∀ id ∈ s.extraPackIds, empty.packName (some id) = db.packName (some id)) (id : ℕ)
    (hrow : row = (upsertSpecs libs db'.targets.rows empty.packs).create id (exportSpec db s)) :
    db'.meaning row = db.meaning s := by
  obtain ⟨hcontent, -, -, htarget, hpack⟩ := restored_spec h hdb' hplain hs id hrow
  subst hdb'
  exact InstanceDb.meaning_eq_iff.2 ⟨hcontent, htarget, hpack, hextra⟩

lemma restored_specs_valid : InstanceDb.SpecsValid db'.specs := by
  intro row hrow
  rw [restored_specs_rows h hdb' hplain] at hrow
  obtain ⟨d, hd, id, heq⟩ := Upsert.mem_created hrow
  obtain ⟨s, hs, rfl⟩ := mem_map.1 hd
  have hs' := (perm_orderedBy _ _).mem_iff.1 hs
  obtain ⟨hcontent, htarget, hpack, -, -⟩ := restored_spec h hdb' hplain hs' id heq
  have hcolumns : row.columns = s.columns := congrArg Prod.snd hcontent
  exact ⟨hcolumns ▸ (h.specs s hs').1, htarget, hpack⟩

end Restoring

/-! ### What a restored configuration had -/

/-- Rows that come back as they were have names that an import looks up as they are. -/
lemma plain_of_restored (hstrip : ∀ t, libs.strip (libs.strip t) = libs.strip t) (c : Columns φ)
    (foreign : Bool) {docs : List (DocRow φ)} (ht : t.rows = [])
    (hperm : (((upsertRows libs c foreign).load (namedRows libs docs) t).rows.map
      ConfigRow.content).Perm (rows.map ConfigRow.content)) :
    ∀ r ∈ rows, libs.Plain r.name := by
  intro r hr
  obtain ⟨r', hr', heq⟩ := mem_map.1 (hperm.mem_iff.2 (mem_map_of_mem hr))
  rw [Upsert.load_of_empty ht] at hr'
  obtain ⟨d, hd, id, rfl⟩ := Upsert.mem_created hr'
  have hname : d.key libs = r.name := congrArg Prod.fst heq
  rw [← hname]
  exact ⟨hstrip _, by simpa using (mem_filter.1 hd).2⟩

lemma packName_of_packId {db : InstanceDb} (hids : (db.packs.map (·.id)).Nodup)
    {d : SpecDoc} {i : ℕ} (h : d.packId db.packs = some i) : db.packName (some i) ≠ some [] := by
  unfold SpecDoc.packId at h
  split_ifs at h with hne
  obtain ⟨n, hn⟩ : ∃ n, d.pack = some n := by
    cases hpack : d.pack with
    | none => simp [hpack] at hne
    | some n => exact ⟨n, rfl⟩
  rw [hn] at h hne
  obtain ⟨p, hp, -⟩ := Option.map_eq_some_iff.1 h
  have hmem : ∃ p ∈ db.packs, p.name = n :=
    ⟨p, mem_of_find?_eq_some hp, by simpa using find?_some hp⟩
  obtain ⟨j, hj, hname⟩ := name_of_idOf hids hmem
  cases h.symm.trans hj
  rw [InstanceDb.packName, hname]
  simpa using hne

/-- A configuration exported from one instance and imported into an empty one of the same packs is
the same there, that is, the import goes through, targets and repos have the fields they had, and so
do specs, each with the target, the pack and the extra packs of the same names, if and only if its
names are ones that stripping leaves alone and the ids of extra packs mean packs of the same names
on both. -/
theorem restored_config_means_same_iff (libs : ConfigLibs)
    (hstrip : ∀ t, libs.strip (libs.strip t) = libs.strip t) (own : Option Text) (key : Text)
    (db empty : InstanceDb) (h : Restorable db empty) :
    (∃ db' report, importConfig libs own (exportConfig libs key true db) empty =
      some (db', report) ∧
      (db'.targets.rows.map ConfigRow.content).Perm (db.targets.rows.map ConfigRow.content) ∧
      (db'.repos.rows.map ConfigRow.content).Perm (db.repos.rows.map ConfigRow.content) ∧
      (db'.specs.rows.map db'.meaning).Perm (db.specs.rows.map db.meaning)) ↔
    PlainNames libs db ∧ ∀ s ∈ db.specs.rows, ∀ id ∈ s.extraPackIds,
      empty.packName (some id) = db.packName (some id) := by
  constructor
  · rintro ⟨db', report, himport, htargets, hrepos, hspecs⟩
    obtain ⟨rfl, -, -, hvalid⟩ := importConfig_eq_some.1 himport
    -- every spec is the meaning of a row that was made of a document
    have hspec : ∀ s ∈ db.specs.rows, libs.Plain s.name ∧ db.packName s.pack ≠ some [] ∧
        ∀ id ∈ s.extraPackIds, empty.packName (some id) = db.packName (some id) := by
      intro s hs
      obtain ⟨row, hrow, heq⟩ := mem_map.1 (hspecs.mem_iff.2 (mem_map_of_mem hs))
      obtain ⟨hcontent, -, hpack, hextra⟩ := InstanceDb.meaning_eq_iff.1 heq
      obtain ⟨i, hi⟩ := Option.isSome_iff_exists.1 (hvalid row hrow).2.2
      rw [importedDb, importedSpecs, Upsert.load_of_empty h.noSpecs] at hrow
      obtain ⟨d, hd, id, rfl⟩ := Upsert.mem_created hrow
      have hname : d.key libs = s.name := congrArg Prod.fst hcontent
      have hkey : d.key libs ≠ [] := by
        intro hempty
        have hskip := (mem_filter.1 hd).2
        simp [specSkip, hempty] at hskip
      rw [← hname, ← hpack, hi]
      exact ⟨⟨hstrip _, hkey⟩, packName_of_packId h.packIds hi, hextra⟩
    exact ⟨⟨plain_of_restored hstrip _ _ h.noTargets htargets,
      plain_of_restored hstrip _ _ h.noRepos hrepos, fun s hs => (hspec s hs).1,
      fun s hs => (hspec s hs).2.1⟩, fun s hs => (hspec s hs).2.2⟩
  · rintro ⟨hplain, hextra⟩
    obtain ⟨db', hdb'⟩ : ∃ db', db' = restored libs own key db empty := ⟨_, rfl⟩
    refine ⟨db', importReport libs own (exportConfig libs key true db) empty, ?_,
      restored_targets h hdb' hplain, restored_repos h hdb' hplain, ?_⟩
    · rw [hdb']
      exact if_pos ⟨restored_sites h rfl hplain, restored_specs_valid h rfl hplain⟩
    have hid : ∀ id d, db'.meaning ((upsertSpecs libs db'.targets.rows empty.packs).create id d) =
        db'.meaning ((upsertSpecs libs db'.targets.rows empty.packs).create 0 d) := fun _ _ => rfl
    have hsame : ∀ s ∈ orderedBy libs (·.name) db.specs.rows,
        db'.meaning ((upsertSpecs libs db'.targets.rows empty.packs).create 0 (exportSpec db s)) =
          db.meaning s := by
      intro s hs
      have hs' := (perm_orderedBy _ _).mem_iff.1 hs
      exact restored_meaning h hdb' hplain hs' (hextra s hs') 0 rfl
    rw [restored_specs_rows h hdb' hplain, Upsert.map_created hid, map_map]
    exact (Perm.of_eq (map_congr_left hsame)).trans ((perm_orderedBy _ _).map _)

/-! ### A spec of two packs -/

theorem restored_config_means_same_renumbered :
    ∃ db' report, importConfig plainLibs none (exportConfig plainLibs "key" true mergedDb)
      (emptyDb [⟨2, "auth"⟩, ⟨5, "web"⟩]) = some (db', report) ∧
      (db'.specs.rows.map db'.meaning).Perm (mergedDb.specs.rows.map mergedDb.meaning) := by
  have hrestorable : Restorable mergedDb (emptyDb [⟨2, "auth"⟩, ⟨5, "web"⟩]) := by
    constructor <;> decide
  have hplain : PlainNames plainLibs mergedDb := by
    constructor
    · intro t ht
      exact ⟨rfl, by revert t; decide⟩
    · exact fun r hr => absurd hr not_mem_nil
    · intro s hs
      exact ⟨rfl, by revert s; decide⟩
    · decide
  obtain ⟨db', report, himport, -, -, hspecs⟩ := (restored_config_means_same_iff plainLibs
    (fun _ => rfl) none "key" mergedDb _ hrestorable).2 ⟨hplain, by decide⟩
  exact ⟨db', report, himport, hspecs⟩

/-- Where the packs are numbered the other way round, the spec that merged `auth` into `web` merges
`web` into `web`. -/
theorem restored_extra_packs_differ :
    mergedDb.specs.rows.map (fun s =>
      ((mergedDb.meaning s).pack, (mergedDb.meaning s).extraPacks)) =
      [(some "web".toList, [some "auth".toList])] ∧
    (importConfig plainLibs none (exportConfig plainLibs "key" true mergedDb)
      (emptyDb [⟨1, "auth"⟩, ⟨2, "web"⟩])).map (fun r =>
        r.1.specs.rows.map fun s => ((r.1.meaning s).pack, (r.1.meaning s).extraPacks)) =
      some [(some "web".toList, [some "web".toList])] := by
  constructor <;> decide

end Stoker
