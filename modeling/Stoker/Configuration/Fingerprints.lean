import Stoker.Transition.Runs
import Stoker.Configuration.ConfigIO

/-!
# The key an export was made under

Instances with master keys of their own set secrets, export their configurations and import exports
of each other. HEC tokens and repo credentials travel as they are stored, encrypted, and an export
records the fingerprint of its instance's key. An import that finds another fingerprint does not let
a foreign secret replace one that is there, but it takes it over into a row that it creates; the
next export then records this instance's fingerprint beside a secret of another key.

Encryption is ideal: a secret is what was encrypted together with the key, and it decrypts under
that key only.
-/

open List

namespace Stoker

open Sessions Transition

def Value.isEmpty : Value → Bool
  | .null => true
  | .text [] => true
  | _ => false

def encrypt (key plain : Text) : Value := .secret key plain

def decrypt (key : Text) : Value → Option Text
  | .secret key' plain => if key' = key then some plain else none
  | _ => none

/-- A value that is empty or decrypts under a key. -/
def Value.ReadableBy (key : Text) (v : Value) : Prop := v.isEmpty = false → (decrypt key v).isSome

instance (key : Text) (v : Value) : Decidable (v.ReadableBy key) :=
  inferInstanceAs (Decidable (_ → _))

/-! ### Instances and their exports -/

section Setting

variable {φ : Type} [DecidableEq φ]

def setColumn (t : Table (ConfigRow φ)) (name : Text) (f : φ) (v : Value) : Table (ConfigRow φ) :=
  { t with rows := t.rows.map fun r =>
      if r.name = name then { r with columns := Function.update r.columns f v } else r }

end Setting

/-- The instances, and all exports made so far. -/
structure KeyedInstances (ι : Type) where
  dbs : ι → InstanceDb
  exports : List ConfigDoc

/-- What happens to the configurations. An edit is any change that encrypts nothing. -/
inductive KeyAction (ι : Type) where
  | setToken (i : ι) (target plain : Text)
  | setCredential (i : ι) (repo plain : Text)
  | edit (i : ι) (db : InstanceDb)
  | takeExport (i : ι) (includeSecrets : Bool)
  | importExport (i : ι) (n : ℕ)

section Histories

variable {ι : Type} [DecidableEq ι] (libs : ConfigLibs) (keys : ι → Text)

def KeyedInstances.setDb (e : KeyedInstances ι) (i : ι) (db : InstanceDb) : KeyedInstances ι :=
  { e with dbs := Function.update e.dbs i db }

def KeyedInstances.step : KeyAction ι → KeyedInstances ι → KeyedInstances ι
  | .setToken i target plain, e =>
    let db := e.dbs i
    e.setDb i
      { db with targets := setColumn db.targets target .tokenEncrypted (encrypt (keys i) plain) }
  | .setCredential i repo plain, e =>
    let db := e.dbs i
    e.setDb i { db with repos := setColumn db.repos repo .secretEncrypted (encrypt (keys i) plain) }
  | .edit i db, e => e.setDb i db
  | .takeExport i includeSecrets, e =>
    { e with exports := e.exports ++ [exportConfig libs (keys i) includeSecrets (e.dbs i)] }
  | .importExport i n, e =>
    match e.exports[n]? with
    | none => e
    | some doc =>
      match importConfig libs (masterKeyFingerprint libs (keys i)) doc (e.dbs i) with
      | none => e
      | some (db, _) => e.setDb i db

/-- An edit leaves no secret that was not there. -/
def KeepsSecrets (before after : InstanceDb) : Prop :=
  (∀ t ∈ after.targets.rows, (t.columns .tokenEncrypted).isEmpty = true ∨
    ∃ t' ∈ before.targets.rows, t'.columns .tokenEncrypted = t.columns .tokenEncrypted) ∧
  ∀ r ∈ after.repos.rows, (r.columns .secretEncrypted).isEmpty = true ∨
    ∃ r' ∈ before.repos.rows, r'.columns .secretEncrypted = r.columns .secretEncrypted

/-- The rows of a document that an instance does not have come without a secret. -/
def NewRowsBlank {φ : Type} (f : φ) (docs : List (DocRow φ)) (rows : List (ConfigRow φ)) : Prop :=
  ∀ d ∈ docs, (∀ r ∈ rows, r.name ≠ d.key libs) → ∀ v ∈ d.fields f, v.isEmpty = true

/-- Edits keep secrets, and no import of an export under a foreign key creates a row with one. -/
def KeepsToKeys : KeyAction ι → KeyedInstances ι → Prop
  | .edit i db, e => KeepsSecrets (e.dbs i) db
  | .importExport i n, e =>
    ∀ doc ∈ e.exports[n]?, foreignKey doc.fingerprint (masterKeyFingerprint libs (keys i)) = true →
      NewRowsBlank libs .tokenEncrypted doc.targets (e.dbs i).targets.rows ∧
      NewRowsBlank libs .secretEncrypted doc.repos (e.dbs i).repos.rows
  | _, _ => True

end Histories

/-! ### Secrets stay under their keys -/

/-- The tokens and credentials of an instance are readable under its key. -/
structure InstanceDb.OwnSecrets (db : InstanceDb) (key : Text) : Prop where
  tokens : ∀ t ∈ db.targets.rows, (t.columns .tokenEncrypted).ReadableBy key
  credentials : ∀ r ∈ db.repos.rows, (r.columns .secretEncrypted).ReadableBy key

/-- The tokens and credentials of a document are readable under a key. -/
structure ConfigDoc.ReadableBy (doc : ConfigDoc) (key : Text) : Prop where
  tokens : ∀ row ∈ doc.targets, ∀ v ∈ row.fields .tokenEncrypted, v.ReadableBy key
  credentials : ∀ row ∈ doc.repos, ∀ v ∈ row.fields .secretEncrypted, v.ReadableBy key

lemma readableBy_encrypt (key plain : Text) : (encrypt key plain).ReadableBy key := by
  simp [Value.ReadableBy, encrypt, decrypt]

variable {key : Text} {φ : Type} {f : φ} {v : Value} {t : Table (ConfigRow φ)} {c : Columns φ}

lemma readableBy_of_isEmpty (h : v.isEmpty = true) : v.ReadableBy key := by
  simp [Value.ReadableBy, h]

lemma setColumn_readable [DecidableEq φ] {name : Text} (hv : v.ReadableBy key)
    (h : ∀ r ∈ t.rows, (r.columns f).ReadableBy key) :
    ∀ r ∈ (setColumn t name f v).rows, (r.columns f).ReadableBy key := by
  intro r hr
  obtain ⟨r₀, hr₀, rfl⟩ := mem_map.1 hr
  split_ifs
  · simpa using hv
  · exact h r₀ hr₀

lemma exportRow_readable {libs : ConfigLibs} {includeSecrets : Bool} {rows : List (ConfigRow φ)}
    (h : ∀ r ∈ rows, (r.columns f).ReadableBy key) :
    ∀ d ∈ (orderedBy libs (·.name) rows).map (exportRow c includeSecrets), ∀ v ∈ d.fields f,
      v.ReadableBy key := by
  intro d hd v hv
  obtain ⟨r, hr, rfl⟩ := mem_map.1 hd
  have hr' : r ∈ rows := (perm_insertionSort _ _).mem_iff.1 hr
  have hfield : v = r.columns f := by
    simp only [exportRow, Columns.exported] at hv
    split_ifs at hv
    · cases hv
    · exact (Option.some.inj hv).symm
  exact hfield ▸ h r hr'

/-- An import keeps the secrets of a table readable: under a foreign key it writes none over a row
that is there, and under the own key it writes readable ones. -/
lemma load_readable {libs : ConfigLibs} {foreign : Bool} {docs : List (DocRow φ)}
    (hsecret : c.secret f = true) (hdefault : c.default f = .null)
    (hrows : ∀ r ∈ t.rows, (r.columns f).ReadableBy key)
    (hown : foreign = false → ∀ d ∈ docs, ∀ v ∈ d.fields f, v.ReadableBy key)
    (hforeign : foreign = true → NewRowsBlank libs f docs t.rows) :
    ∀ r ∈ ((upsertRows libs c foreign).load docs t).rows, (r.columns f).ReadableBy key := by
  refine Upsert.forall_mem_load hrows ?_ ?_
  · intro d hd r _ hr
    cases hkey : foreign with
    | true => simpa [upsertRows, Columns.written, hsecret] using hr
    | false =>
      cases hfield : d.fields f with
      | none => simpa [upsertRows, Columns.written, hfield] using hr
      | some v => simpa [upsertRows, Columns.written, hfield] using hown hkey d hd v hfield
  · intro d hd hnew id
    cases hfield : d.fields f with
    | none => simp [upsertRows, Columns.initial, hfield, hdefault, Value.ReadableBy, Value.isEmpty]
    | some v =>
      have hv : v.ReadableBy key := by
        cases hkey : foreign with
        | true => exact readableBy_of_isEmpty (hforeign hkey d hd hnew v hfield)
        | false => exact hown hkey d hd v hfield
      simpa [upsertRows, Columns.initial, hfield] using hv

/-! ### Whole histories -/

section Honesty

variable {ι : Type} [DecidableEq ι] {libs : ConfigLibs} {keys : ι → Text}

/-- Secrets are readable where they are stored, and under the key an export was made under. -/
structure KeyedInstances.Honest (libs : ConfigLibs) (keys : ι → Text) (e : KeyedInstances ι) :
    Prop where
  own : ∀ i, (e.dbs i).OwnSecrets (keys i)
  exports : ∀ doc ∈ e.exports, ∃ i, masterKeyFingerprint libs (keys i) = doc.fingerprint ∧
    doc.ReadableBy (keys i)

variable {db : InstanceDb} {e : KeyedInstances ι}

lemma KeyedInstances.Honest.setDb (h : e.Honest libs keys) {i : ι}
    (hdb : db.OwnSecrets (keys i)) : (e.setDb i db).Honest libs keys := by
  refine ⟨fun j => ?_, h.exports⟩
  by_cases hj : j = i
  · subst hj
    simpa [KeyedInstances.setDb] using hdb
  · simpa [KeyedInstances.setDb, hj] using h.own j

lemma exportConfig_readable (h : db.OwnSecrets key)
    (includeSecrets : Bool) : (exportConfig libs key includeSecrets db).ReadableBy key :=
  ⟨exportRow_readable h.tokens, exportRow_readable h.credentials⟩

lemma KeepsSecrets.own {before after : InstanceDb} (h : KeepsSecrets before after)
    (hown : before.OwnSecrets key) : after.OwnSecrets key := by
  constructor
  · intro t ht
    obtain hempty | ⟨t', ht', heq⟩ := h.1 t ht
    · exact readableBy_of_isEmpty hempty
    · exact heq ▸ hown.tokens t' ht'
  · intro r hr
    obtain hempty | ⟨r', hr', heq⟩ := h.2 r hr
    · exact readableBy_of_isEmpty hempty
    · exact heq ▸ hown.credentials r' hr'

/-- Keys that are not told apart are the same. -/
lemma key_eq_of_not_foreign {key' : Text} (hinj : Function.Injective libs.sha256)
    (hsome : ∀ key, libs.sha256 key ≠ []) (hkey : key ≠ []) (hkey' : key' ≠ [])
    (h : foreignKey (masterKeyFingerprint libs key) (masterKeyFingerprint libs key') = false) :
    key = key' := by
  have hsame : libs.sha256 key = libs.sha256 key' := by
    simpa [foreignKey, masterKeyFingerprint, hkey, hkey', hsome] using h
  exact hinj hsame

lemma NewRowsBlank.named {φ : Type} {f : φ} {docs : List (DocRow φ)} {rows : List (ConfigRow φ)}
    (h : NewRowsBlank libs f docs rows) : NewRowsBlank libs f (namedRows libs docs) rows :=
  fun d hd => h d (mem_of_mem_filter hd)

lemma importConfig_own {doc : ConfigDoc} {db' : InstanceDb} {report : ImportReport}
    (h : importConfig libs (masterKeyFingerprint libs key) doc db = some (db', report))
    (hdb : db.OwnSecrets key)
    (hown : foreignKey doc.fingerprint (masterKeyFingerprint libs key) = false → doc.ReadableBy key)
    (hforeign : foreignKey doc.fingerprint (masterKeyFingerprint libs key) = true →
      NewRowsBlank libs .tokenEncrypted doc.targets db.targets.rows ∧
      NewRowsBlank libs .secretEncrypted doc.repos db.repos.rows) : db'.OwnSecrets key := by
  obtain ⟨rfl, -, -, -⟩ := importConfig_eq_some.1 h
  constructor
  · exact load_readable rfl rfl hdb.tokens
      (fun hkey d hd => (hown hkey).tokens d (mem_of_mem_filter hd))
      (fun hkey => (hforeign hkey).1.named)
  · exact load_readable rfl rfl hdb.credentials
      (fun hkey d hd => (hown hkey).credentials d (mem_of_mem_filter hd))
      (fun hkey => (hforeign hkey).2.named)

lemma KeyedInstances.Honest.step (hinj : Function.Injective libs.sha256)
    (hsome : ∀ key, libs.sha256 key ≠ []) (hkeys : ∀ i, keys i ≠ [])
    (h : e.Honest libs keys) (a : KeyAction ι) (ha : KeepsToKeys libs keys a e) :
    (e.step libs keys a).Honest libs keys := by
  cases a with
  | setToken i target plain =>
    exact h.setDb ⟨setColumn_readable (readableBy_encrypt _ _) (h.own i).tokens,
      (h.own i).credentials⟩
  | setCredential i repo plain =>
    exact h.setDb ⟨(h.own i).tokens,
      setColumn_readable (readableBy_encrypt _ _) (h.own i).credentials⟩
  | edit i db => exact h.setDb (KeepsSecrets.own ha (h.own i))
  | takeExport i includeSecrets =>
    refine ⟨h.own, fun doc hdoc => ?_⟩
    obtain hdoc | hdoc := mem_append.1 hdoc
    · exact h.exports doc hdoc
    · obtain rfl := mem_singleton.1 hdoc
      exact ⟨i, rfl, exportConfig_readable (h.own i) includeSecrets⟩
  | importExport i n =>
    cases hdoc : e.exports[n]? with
    | none => simpa [KeyedInstances.step, hdoc] using h
    | some doc =>
      cases himport : importConfig libs (masterKeyFingerprint libs (keys i)) doc (e.dbs i) with
      | none => simpa [KeyedInstances.step, hdoc, himport] using h
      | some r =>
        obtain ⟨db, report⟩ := r
        obtain ⟨j, hfingerprint, hreadable⟩ := h.exports doc (mem_of_getElem? hdoc)
        have hdb : db.OwnSecrets (keys i) := by
          refine importConfig_own himport (h.own i) (fun hkey => ?_) (ha doc hdoc)
          rw [← hfingerprint] at hkey
          rw [← key_eq_of_not_foreign hinj hsome (hkeys j) (hkeys i) hkey]
          exact hreadable
        simpa [KeyedInstances.step, hdoc, himport] using h.setDb hdb

/-- An export's fingerprint is honest: through every history of setting secrets, exporting and
importing in which no import of an export under a foreign key creates a row with a secret, each HEC
token and repo credential of an export decrypts under the key whose fingerprint the export
records. -/
theorem export_fingerprint_honest (libs : ConfigLibs) (keys : ι → Text)
    (hinj : Function.Injective libs.sha256) (hsome : ∀ key, libs.sha256 key ≠ [])
    (hkeys : ∀ i, keys i ≠ []) (s t : KeyedInstances ι) (as : List (KeyAction ι))
    (hexports : s.exports = []) (hown : ∀ i, (s.dbs i).OwnSecrets (keys i))
    (hruns : Runs (KeyedInstances.step libs keys) (KeepsToKeys libs keys) s as t) :
    ∀ doc ∈ t.exports, ∃ key, masterKeyFingerprint libs key = doc.fingerprint ∧
      (∀ row ∈ doc.targets, ∀ v ∈ row.fields .tokenEncrypted, v.isEmpty = false →
        (decrypt key v).isSome) ∧
      ∀ row ∈ doc.repos, ∀ v ∈ row.fields .secretEncrypted, v.isEmpty = false →
        (decrypt key v).isSome := by
  have hstart : s.Honest libs keys := ⟨hown, by simp [hexports]⟩
  have hhonest := hruns.invariant (fun a e ha h => h.step hinj hsome hkeys a ha) hstart
  intro doc hdoc
  obtain ⟨i, hfingerprint, hreadable⟩ := hhonest.exports doc hdoc
  exact ⟨keys i, hfingerprint, hreadable.tokens, hreadable.credentials⟩

end Honesty

/-! ### A token under two keys -/

def taggedLibs : ConfigLibs := { plainLibs with sha256 := fun key => '#' :: key }

def twoKeys : Bool → Text
  | false => "one"
  | true => "two"

/-- The first instance has a target, the second has some. -/
def twoInstances (second : List (ConfigRow TargetField)) : KeyedInstances Bool where
  dbs i :=
    { targets := { rows := if i then second else [labTarget], next := 2 }
      repos := { rows := [], next := 1 }
      specs := { rows := [], next := 1 }
      packs := [] }
  exports := []

/-- The first instance sets a token and exports it; the second imports that and exports in its
turn. -/
def passedOn : List (KeyAction Bool) :=
  [.setToken false "lab" "hec", .takeExport false true, .importExport true 0,
    .takeExport true true]

theorem export_fingerprint_honest_kept_row :
    (exec (KeyedInstances.step taggedLibs twoKeys)
      (twoInstances [labTarget]) passedOn).exports.length = 2 ∧
    ∀ doc ∈ (exec (KeyedInstances.step taggedLibs twoKeys) (twoInstances [labTarget])
      passedOn).exports, ∃ key, masterKeyFingerprint taggedLibs key = doc.fingerprint ∧
        ∀ row ∈ doc.targets, ∀ v ∈ row.fields .tokenEncrypted, v.isEmpty = false →
          (decrypt key v).isSome := by
  have hinj : Function.Injective taggedLibs.sha256 := fun a b h => (cons.inj h).2
  have hown : ∀ i, ((twoInstances [labTarget]).dbs i).OwnSecrets (twoKeys i) := by
    intro i
    cases i <;> exact ⟨by decide, by decide⟩
  have himport : KeepsToKeys taggedLibs twoKeys (.importExport true 0)
      (exec (KeyedInstances.step taggedLibs twoKeys) (twoInstances [labTarget])
        (passedOn.take 2)) := by
    intro doc hdoc _
    obtain rfl := Option.some.inj hdoc
    have hlab : ∀ d ∈ (exportConfig taggedLibs (twoKeys false) true
        ((exec (KeyedInstances.step taggedLibs twoKeys) (twoInstances [labTarget])
          (passedOn.take 1)).dbs
          false)).targets, d.key taggedLibs = labTarget.name := by decide
    refine ⟨fun d hd hnew => ?_, fun d hd => by cases hd⟩
    exact absurd (hlab d hd).symm (hnew labTarget mem_cons_self)
  have hruns : Runs (KeyedInstances.step taggedLibs twoKeys) (KeepsToKeys taggedLibs twoKeys)
      (twoInstances [labTarget]) passedOn
      (exec (KeyedInstances.step taggedLibs twoKeys) (twoInstances [labTarget]) passedOn) :=
    .cons trivial (.cons trivial (.cons himport (.cons trivial (.nil _))))
  refine ⟨by decide, fun doc hdoc => ?_⟩
  obtain ⟨key, hkey, htokens, -⟩ :=
    export_fingerprint_honest taggedLibs twoKeys hinj (by simp [taggedLibs])
    (by decide) _ _ passedOn rfl hown hruns doc hdoc
  exact ⟨key, hkey, htokens⟩

/-- Into a row that it creates, the second instance takes a token it cannot read, and exports it
under the fingerprint of its own key. -/
theorem foreign_token_exported_as_own :
    (exec (KeyedInstances.step taggedLibs twoKeys) (twoInstances []) passedOn).exports.map
      (fun doc =>
      (doc.fingerprint, doc.targets.map fun row => row.fields .tokenEncrypted)) =
      [(some "#one".toList, [some (encrypt "one".toList "hec".toList)]),
        (some "#two", [some (encrypt "one" "hec")])] ∧
    decrypt "two" (encrypt "one" "hec") = none := by
  constructor <;> decide

end Stoker
