import Mathlib.Data.Rat.Defs
import Mathlib.Data.List.Sort
import Stoker.PackBuilder.Format
import Stoker.Sessions.Upsert

/-!
# Exporting and importing the configuration

`server/configio.py`: `export_config` writes the targets, repos and specs of an instance as a
document that addresses nothing by id, and `import_config` applies such a document, row by row, by
natural key. The session does not flush on its own, so a lookup does not see a row that has been
added by the same import. Targets and repos are flushed before specs are looked at; what the
database refuses then (a target name twice, a missing value in a column that needs one) undoes all
of it.

How a text is stripped, quoted and ordered, and the fingerprint of a key, are taken from outside.
-/

namespace Stoker

open Sessions

/-- What stands in a column. A secret is what was encrypted and the key it was encrypted under. -/
inductive Value where
  | null
  | bool (b : Bool)
  | number (q : ℚ)
  | text (t : Text)
  | json (t : Text)
  | ids (ids : List ℕ)
  | secret (key plain : Text)
  deriving DecidableEq

/-- `TARGET_FIELDS` and `TARGET_SECRETS`, without the name. -/
inductive TargetField where
  | hecUrl
  | defaultIndex
  | verifyTls
  | envTag
  | maxConcurrentGbDay
  | tokenEncrypted
  deriving DecidableEq

/-- `REPO_FIELDS` and `REPO_SECRETS`, without the url. -/
inductive RepoField where
  | authKind
  | defaultRef
  | trustedCode
  | secretEncrypted
  | webhookSecret
  deriving DecidableEq

/-- `SPEC_FIELDS`, without the name. -/
inductive SpecField where
  | ref
  | engine
  | overridesJson
  | rateMode
  | rateValue
  | intervalS
  | workers
  | durationS
  | fleet
  | strictRelease
  | driverOptsJson
  | eventgenImpl
  | fastEnvelope
  | rateShape
  | extraPackIdsJson
  deriving DecidableEq

/-- What the columns of a table are: which are secrets, which may not be null, and what a new row
has in a column that nothing sets. -/
structure Columns (φ : Type) where
  secret : φ → Bool
  required : List φ
  default : φ → Value

def targetColumns : Columns TargetField where
  secret f := f = .tokenEncrypted
  required := [.hecUrl, .verifyTls, .envTag]
  default
    | .hecUrl => .text []
    | .verifyTls => .bool true
    | .envTag => .text "lab"
    | _ => .null

def repoColumns : Columns RepoField where
  secret f := f ∈ [.secretEncrypted, .webhookSecret]
  required := [.authKind, .defaultRef, .trustedCode]
  default
    | .authKind => .text "none"
    | .defaultRef => .text "main"
    | .trustedCode => .bool false
    | _ => .null

def specColumns : Columns SpecField where
  secret _ := false
  required := [.ref, .engine, .rateMode, .workers, .fleet, .strictRelease]
  default
    | .ref => .text "local"
    | .engine => .text "eventgen"
    | .rateMode => .text "eps"
    | .workers => .number 1
    | .fleet => .text "swarm-local"
    | .strictRelease => .bool false
    | _ => .null

/-! ### Rows and documents -/

/-- A target by its name, or a repo by its url. -/
structure ConfigRow (φ : Type) where
  id : ℕ
  name : Text
  columns : φ → Value

structure SpecRow extends ConfigRow SpecField where
  target : Option ℕ
  pack : Option ℕ

/-- What an import sees of a pack. -/
structure PackEntry where
  id : ℕ
  name : Text
  deriving DecidableEq

structure InstanceDb where
  targets : Table (ConfigRow TargetField)
  repos : Table (ConfigRow RepoField)
  specs : Table SpecRow
  packs : List PackEntry

/-- A row of a document; a field need not be there. -/
structure DocRow (φ : Type) where
  name : Option Text
  fields : φ → Option Value

structure SpecDoc extends DocRow SpecField where
  target : Option Text
  pack : Option Text

structure ConfigDoc where
  includesSecrets : Bool
  fingerprint : Option Text
  targets : List (DocRow TargetField)
  repos : List (DocRow RepoField)
  specs : List SpecDoc

/-- What `configio` takes from outside: `str.strip`, `repr`, the order of the database on names and
the first characters of a key's hash. -/
structure ConfigLibs where
  strip : Text → Text
  repr : Text → Text
  collate : Text → Text → Bool
  sha256 : Text → Text

def masterKeyFingerprint (libs : ConfigLibs) (key : Text) : Option Text :=
  if key = [] then none else some (libs.sha256 key)

/-! ### Export -/

section Export

variable {φ : Type} (libs : ConfigLibs)

def orderedBy {α : Type} (name : α → Text) (rows : List α) : List α :=
  rows.insertionSort fun a b => libs.collate (name a) (name b) = true

def Columns.exported (c : Columns φ) (includeSecrets : Bool) (columns : φ → Value) (f : φ) :
    Option Value :=
  if c.secret f && !includeSecrets then none else some (columns f)

def exportRow (c : Columns φ) (includeSecrets : Bool) (row : ConfigRow φ) : DocRow φ :=
  { name := some row.name, fields := c.exported includeSecrets row.columns }

/-- The name of a target, by its id. -/
def InstanceDb.targetName (db : InstanceDb) (id : Option ℕ) : Option Text :=
  (db.targets.rows.find? fun t => some t.id = id).map (·.name)

def InstanceDb.packName (db : InstanceDb) (id : Option ℕ) : Option Text :=
  (db.packs.find? fun p => some p.id = id).map (·.name)

def exportSpec (db : InstanceDb) (spec : SpecRow) : SpecDoc :=
  { toDocRow := exportRow specColumns true spec.toConfigRow
    target := db.targetName spec.target
    pack := db.packName spec.pack }

def exportConfig (key : Text) (includeSecrets : Bool) (db : InstanceDb) : ConfigDoc :=
  { includesSecrets := includeSecrets
    fingerprint := masterKeyFingerprint libs key
    targets := (orderedBy libs (·.name) db.targets.rows).map
      (exportRow targetColumns includeSecrets)
    repos := (orderedBy libs (·.name) db.repos.rows).map (exportRow repoColumns includeSecrets)
    specs := (orderedBy libs (·.name) db.specs.rows).map (exportSpec db) }

end Export

/-! ### Import -/

structure ImportReport where
  targets : ℕ
  repos : ℕ
  specs : ℕ
  skipped : List Text
  warnings : List Text
  deriving DecidableEq

section Import

variable {φ : Type} (libs : ConfigLibs)

/-- `foreign_key`: both keys are known and differ. -/
def foreignKey (want own : Option Text) : Bool :=
  want.getD [] ≠ [] && own.getD [] ≠ [] && want ≠ own

def foreignWarning (want own : Option Text) : Text :=
  ("this config was exported under master key ").toList ++ want.getD [] ++
  " but this instance uses " ++ own.getD [] ++
  (": HEC tokens and repo credentials in it cannot be decrypted and must be re-entered; ones " ++
    "already set here are kept").toList

/-- The name of a row of a document, as it is looked up. -/
def DocRow.key (row : DocRow φ) : Text := libs.strip (row.name.getD [])

/-- The fields that are set on a new row. -/
def Columns.initial (c : Columns φ) (fields : φ → Option Value) (f : φ) : Value :=
  (fields f).getD (c.default f)

/-- The fields that are set on a row that was there: under a foreign key not its secrets. -/
def Columns.written (c : Columns φ) (foreign : Bool) (fields : φ → Option Value)
    (columns : φ → Value) (f : φ) : Value :=
  if foreign && c.secret f then columns f else (fields f).getD (columns f)

/-- One round of the loops over targets and repos. -/
def upsertRows (c : Columns φ) (foreign : Bool) : Upsert Text (ConfigRow φ) (DocRow φ) where
  rowKey := ConfigRow.name
  docKey := DocRow.key libs
  create id d := { id, name := d.key libs, columns := c.initial d.fields }
  update d r := { r with columns := c.written foreign d.fields r.columns }
  rowKey_create _ _ := rfl
  rowKey_update _ _ _ := rfl

def idOf {α : Type} (id : α → ℕ) (name : α → Text) (rows : List α) (wanted : Option Text) :
    Option ℕ :=
  (rows.find? fun r => some (name r) = wanted).map id

section Specs

variable (targets : List (ConfigRow TargetField)) (packs : List PackEntry)

/-- `target.id if target else None`; an empty name is no name. -/
def SpecDoc.targetId (row : SpecDoc) : Option ℕ :=
  if row.target.getD [] = [] then none else idOf ConfigRow.id ConfigRow.name targets row.target

def SpecDoc.packId (row : SpecDoc) : Option ℕ :=
  if row.pack.getD [] = [] then none else idOf PackEntry.id PackEntry.name packs row.pack

def specSkip (row : SpecDoc) : Option Text :=
  if row.key libs = [] then some "a spec with no name"
  else if row.target.getD [] ≠ [] ∧ row.targetId targets = none then
    some ("spec " ++ libs.repr (row.key libs) ++ ": target " ++
      libs.repr (row.target.getD []) ++ " is not registered")
  else if row.pack.getD [] ≠ [] ∧ row.packId packs = none then
    some ("spec " ++ libs.repr (row.key libs) ++ ": pack " ++
      libs.repr (row.pack.getD []) ++
      " is not indexed yet (re-run the import after the repo has synced)")
  else none

/-- One round of the loop over specs, for a spec that is not skipped. -/
def upsertSpecs : Upsert Text SpecRow SpecDoc where
  rowKey r := r.name
  docKey d := d.key libs
  create id d :=
    { id
      name := d.key libs
      columns := specColumns.initial d.fields
      target := d.targetId targets
      pack := d.packId packs }
  update d r :=
    { r with
      columns := specColumns.written false d.fields r.columns
      target := d.targetId targets
      pack := d.packId packs }
  rowKey_create _ _ := rfl
  rowKey_update _ _ _ := rfl

def appliedSpecs (rows : List SpecDoc) : List SpecDoc :=
  rows.filter fun row => specSkip libs targets packs row = none

end Specs

def namedRows (rows : List (DocRow φ)) : List (DocRow φ) := rows.filter fun row => row.key libs ≠ []

def Columns.Filled (c : Columns φ) (columns : φ → Value) : Prop :=
  ∀ f ∈ c.required, columns f ≠ .null

instance (c : Columns φ) (columns : φ → Value) : Decidable (c.Filled columns) :=
  inferInstanceAs (Decidable (∀ f ∈ c.required, columns f ≠ .null))

/-- What the database asks of targets and repos. -/
def InstanceDb.SitesValid (targets : Table (ConfigRow TargetField))
    (repos : Table (ConfigRow RepoField)) : Prop :=
  (targets.rows.map (·.name)).Nodup ∧ (∀ t ∈ targets.rows, targetColumns.Filled t.columns) ∧
    ∀ r ∈ repos.rows, repoColumns.Filled r.columns

def InstanceDb.SpecsValid (specs : Table SpecRow) : Prop :=
  ∀ s ∈ specs.rows, specColumns.Filled s.columns ∧ s.target.isSome ∧ s.pack.isSome

instance (targets : Table (ConfigRow TargetField)) (repos : Table (ConfigRow RepoField)) :
    Decidable (InstanceDb.SitesValid targets repos) :=
  inferInstanceAs (Decidable (_ ∧ _ ∧ _))

instance (specs : Table SpecRow) : Decidable (InstanceDb.SpecsValid specs) :=
  inferInstanceAs (Decidable (∀ s ∈ specs.rows, _))

variable (own : Option Text) (doc : ConfigDoc) (db : InstanceDb)

def importedTargets : Table (ConfigRow TargetField) :=
  (upsertRows libs targetColumns (foreignKey doc.fingerprint own)).load (namedRows libs doc.targets)
    db.targets

def importedRepos : Table (ConfigRow RepoField) :=
  (upsertRows libs repoColumns (foreignKey doc.fingerprint own)).load (namedRows libs doc.repos)
    db.repos

/-- The specs of a document that are not skipped, once its targets are in place. -/
def importableSpecs : List SpecDoc :=
  appliedSpecs libs (importedTargets libs own doc db).rows db.packs doc.specs

def importedSpecs : Table SpecRow :=
  (upsertSpecs libs (importedTargets libs own doc db).rows db.packs).load
    (importableSpecs libs own doc db) db.specs

def importedDb : InstanceDb :=
  { targets := importedTargets libs own doc db
    repos := importedRepos libs own doc db
    specs := importedSpecs libs own doc db
    packs := db.packs }

def importReport : ImportReport :=
  { targets := (importedTargets libs own doc db).next - db.targets.next
    repos := (importedRepos libs own doc db).next - db.repos.next
    specs := (importedSpecs libs own doc db).next - db.specs.next
    skipped :=
      (doc.targets.filter fun row => row.key libs = []).map
        (fun _ => "a target with no name".toList) ++
      (doc.repos.filter fun row => row.key libs = []).map (fun _ => "a repo with no url".toList) ++
      doc.specs.filterMap (specSkip libs (importedTargets libs own doc db).rows db.packs)
    warnings :=
      if foreignKey doc.fingerprint own then [foreignWarning doc.fingerprint own] else [] }

/-- `import_config`, committed. There is no report when the database refuses a row, and then nothing
has changed. -/
def importConfig : Option (InstanceDb × ImportReport) :=
  if InstanceDb.SitesValid (importedTargets libs own doc db) (importedRepos libs own doc db) ∧
      InstanceDb.SpecsValid (importedSpecs libs own doc db) then
    some (importedDb libs own doc db, importReport libs own doc db)
  else none

variable {libs own doc db}

lemma importConfig_eq_some {db' : InstanceDb} {report : ImportReport} :
    importConfig libs own doc db = some (db', report) ↔
      db' = importedDb libs own doc db ∧ report = importReport libs own doc db ∧
      InstanceDb.SitesValid (importedTargets libs own doc db) (importedRepos libs own doc db) ∧
      InstanceDb.SpecsValid (importedSpecs libs own doc db) := by
  rw [importConfig]
  split_ifs with h
  · rw [Option.some.injEq, Prod.mk.injEq]
    exact ⟨fun heq => ⟨heq.1.symm, heq.2.symm, h⟩, fun heq => ⟨heq.1.symm, heq.2.1.symm⟩⟩
  · exact ⟨fun heq => absurd heq (by simp), fun heq => absurd heq.2.2 h⟩

end Import

/-! ### A small instance -/

/-- Names that need no stripping, and keys told apart by themselves. -/
def plainLibs : ConfigLibs where
  strip := id
  repr := id
  collate := textLe
  sha256 := id

def specOf (id : ℕ) (name : Text) (target pack : ℕ) (extra : List ℕ) : SpecRow where
  id := id
  name := name
  columns f := if f = .extraPackIdsJson then .ids extra else specColumns.default f
  target := some target
  pack := some pack

def labTarget : ConfigRow TargetField where
  id := 1
  name := "lab"
  columns := targetColumns.default

/-- One spec of the pack `web`, with the pack `auth` merged in. -/
def mergedDb : InstanceDb where
  targets := { rows := [labTarget], next := 2 }
  repos := { rows := [], next := 1 }
  specs := { rows := [specOf 1 "soak" 1 1 [2]], next := 2 }
  packs := [⟨1, "web"⟩, ⟨2, "auth"⟩]

def emptyDb (packs : List PackEntry) : InstanceDb where
  targets := { rows := [], next := 1 }
  repos := { rows := [], next := 1 }
  specs := { rows := [], next := 1 }
  packs := packs

end Stoker
