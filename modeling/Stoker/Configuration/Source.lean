import Stoker.Transition.Runs
import Stoker.Configuration.ConfigIO

/-!
# The shared copy of the configuration

`server/configsource.py`: an instance pulls a shared document at boot (`pull`) and pushes its own
configuration over it whenever that has changed (`maybe_push`). Rows of the document that the pull
did not bring in are carried: the next push appends them to the export, so that they are not lost
from the shared copy. A row is carried by its name, when after the import no local row has that
name.

Between pushes the local configuration changes in any way. The digest that tells whether something
changed is any function of the document.
-/

open List

namespace Stoker

open Sessions Transition

/-! ### Carried rows -/

section Carrying

variable {α : Type}

/-- `d[name] = row` for a dict, by its items. -/
def assignItem (name : Text) (row : α) : List (Text × α) → List (Text × α)
  | [] => [(name, row)]
  | item :: items =>
    if item.1 = name then (name, row) :: items else item :: assignItem name row items

/-- The rows of a section that are not here under their name. -/
def carriedRows (key : α → Text) (here : List Text) (rows : List α) : List (Text × α) :=
  rows.foldl (fun items row =>
    if key row ≠ [] ∧ key row ∉ here then assignItem (key row) row items else items) []

/-- The carried rows that a document does not have. -/
def keptRows (present : List Text) (items : List (Text × α)) : List (Text × α) :=
  items.filter fun item => item.1 ∉ present

end Carrying

structure Carried where
  targets : List (Text × DocRow TargetField)
  repos : List (Text × DocRow RepoField)
  specs : List (Text × SpecDoc)

/-- An instance with its `_state`, and the shared copy. -/
structure SourceState (δ : Type) where
  db : InstanceDb
  carried : Carried
  synced : Option δ
  shared : Option ConfigDoc

section Source

variable {δ : Type} [DecidableEq δ] (libs : ConfigLibs) (key : Text) (digest : ConfigDoc → δ)

/-! ### Pull -/

/-- `pull`: what is carried from now on is decided after the import. There is no state when it
fails, and no report without a document. -/
def pull (s : SourceState δ) : Option (SourceState δ × Option ImportReport) :=
  match s.shared with
  | none => some (s, none)
  | some doc =>
    (importConfig libs (masterKeyFingerprint libs key) doc s.db).map fun (db, report) =>
      ({ s with
          db
          carried :=
            { targets := carriedRows (DocRow.key libs) (db.targets.rows.map (·.name)) doc.targets
              repos := carriedRows (DocRow.key libs) (db.repos.rows.map (·.name)) doc.repos
              specs := carriedRows (fun row => row.key libs)
                (db.specs.rows.map (·.name)) doc.specs }
          synced := some (digest doc) }, some report)

/-! ### Push -/

/-- The rows that `document` keeps carrying. -/
def keptCarried (db : InstanceDb) (carried : Carried) : Carried :=
  { targets := keptRows (db.targets.rows.map (·.name)) carried.targets
    repos := keptRows (db.repos.rows.map (·.name)) carried.repos
    specs := keptRows (db.specs.rows.map (·.name)) carried.specs }

/-- `document`: the export, and the carried rows it does not have. -/
def sharedDocument (s : SourceState δ) : ConfigDoc :=
  let doc := exportConfig libs key true s.db
  let kept := keptCarried s.db s.carried
  { doc with
    targets := doc.targets ++ kept.targets.map Prod.snd
    repos := doc.repos ++ kept.repos.map Prod.snd
    specs := doc.specs ++ kept.specs.map Prod.snd }

/-- `push`; the store may refuse the document. -/
def push (ok : Bool) (s : SourceState δ) : SourceState δ :=
  let s' := { s with carried := keptCarried s.db s.carried }
  if ok then
    { s' with
      shared := some (sharedDocument libs key s)
      synced := some (digest (sharedDocument libs key s)) }
  else s'

/-- `maybe_push`, with writes on. -/
def maybePush (ok : Bool) (s : SourceState δ) : SourceState δ :=
  let s' := { s with carried := keptCarried s.db s.carried }
  if s.synced = some (digest (sharedDocument libs key s)) then s' else push libs key digest ok s'

/-! ### Histories -/

/-- What happens after a pull: the local configuration changes, or the background loop pushes. -/
inductive SourceAction where
  | edit (db : InstanceDb)
  | autoPush (ok : Bool)

def SourceState.step : SourceAction → SourceState δ → SourceState δ
  | .edit db, s => { s with db }
  | .autoPush ok, s => maybePush libs key digest ok s

def NameFree (name : Text) : SourceAction → SourceState δ → Prop
  | .edit db, _ => ∀ s ∈ db.specs.rows, s.name ≠ name
  | .autoPush _, _ => True

end Source

/-! ### What is carried -/

section Carrying

variable {α : Type}

lemma assignItem_mem (name : Text) (row : α) (items : List (Text × α)) :
    (name, row) ∈ assignItem name row items := by
  induction items with
  | nil => exact mem_cons_self
  | cons item items ih =>
    rw [assignItem]
    split_ifs
    · exact mem_cons_self
    · exact mem_cons_of_mem _ ih

variable {items : List (Text × α)} {row : α} {item : Text × α}

lemma mem_assignItem_of_ne {name : Text} (h : item ∈ items) (hne : item.1 ≠ name) :
    item ∈ assignItem name row items := by
  induction items with
  | nil => cases h
  | cons item' items ih =>
    rw [assignItem]
    obtain rfl | h := mem_cons.1 h
    · rw [if_neg hne]
      exact mem_cons_self
    · split_ifs
      · exact mem_cons_of_mem _ h
      · exact mem_cons_of_mem _ (ih h)

lemma mem_carriedRows {key : α → Text} {here : List Text} {before after : List α}
    (hname : key row ≠ []) (hhere : key row ∉ here) (hlast : ∀ r ∈ after, key r ≠ key row) :
    (key row, row) ∈ carriedRows key here (before ++ row :: after) := by
  rw [carriedRows, foldl_append, foldl_cons, if_pos ⟨hname, hhere⟩]
  generalize before.foldl _ [] = items
  have hmem := assignItem_mem (key row) row items
  generalize assignItem (key row) row items = items' at hmem ⊢
  induction after generalizing items' with
  | nil => exact hmem
  | cons r after ih =>
    obtain ⟨hr, hafter⟩ := forall_mem_cons.1 hlast
    rw [foldl_cons]
    refine ih hafter _ ?_
    split_ifs
    · exact mem_assignItem_of_ne hmem (Ne.symm hr)
    · exact hmem

lemma mem_keptRows {present : List Text} (h : item ∈ items) (hpresent : item.1 ∉ present) :
    item ∈ keptRows present items :=
  mem_filter.2 ⟨h, decide_eq_true hpresent⟩

end Carrying

/-! ### A row that was not brought in -/

section Histories

variable {δ : Type} {libs : ConfigLibs} {key : Text} {digest : ConfigDoc → δ}

/-- A spec of the shared copy that this instance carries, having none of that name. -/
structure CarriedSpec (libs : ConfigLibs) (row : SpecDoc) (s : SourceState δ) : Prop where
  shared : ∃ doc, s.shared = some doc ∧ row ∈ doc.specs
  carried : (row.key libs, row) ∈ s.carried.specs
  free : ∀ r ∈ s.db.specs.rows, r.name ≠ row.key libs

variable {row : SpecDoc} {s : SourceState δ}

lemma CarriedSpec.notPresent (h : CarriedSpec libs row s) :
    row.key libs ∉ s.db.specs.rows.map (·.name) := by
  intro hmem
  obtain ⟨r, hr, heq⟩ := mem_map.1 hmem
  exact h.free r hr heq

lemma CarriedSpec.kept (h : CarriedSpec libs row s) :
    CarriedSpec libs row { s with carried := keptCarried s.db s.carried } :=
  ⟨h.shared, mem_keptRows h.carried h.notPresent, h.free⟩

lemma CarriedSpec.mem_sharedDocument (h : CarriedSpec libs row s) :
    row ∈ (sharedDocument libs key s).specs :=
  mem_append_right _ (mem_map_of_mem h.kept.carried)

lemma CarriedSpec.push (h : CarriedSpec libs row s) (ok : Bool) :
    CarriedSpec libs row (Stoker.push libs key digest ok s) := by
  cases ok with
  | false => exact h.kept
  | true => exact ⟨⟨_, rfl, h.mem_sharedDocument⟩, h.kept.carried, h.free⟩

variable [DecidableEq δ]

lemma CarriedSpec.step (h : CarriedSpec libs row s)
    (a : SourceAction) (ha : NameFree (row.key libs) a s) :
    CarriedSpec libs row (s.step libs key digest a) := by
  cases a with
  | edit db => exact ⟨h.shared, h.carried, ha⟩
  | autoPush ok =>
    rw [SourceState.step, maybePush]
    split_ifs
    · exact h.kept
    · exact h.kept.push ok

/-- A spec that a pull did not bring in stays in the shared copy, as it was, through all later edits
and pushes, as long as no spec of its name is here: none after the pull, and none that an edit
makes. It has to have a name, and be the last of that name in the document. -/
theorem skipped_spec_stays (libs : ConfigLibs) (key : Text) (digest : ConfigDoc → δ)
    (s t u : SourceState δ) (report : Option ImportReport) (doc : ConfigDoc) (row : SpecDoc)
    (before after : List SpecDoc) (as : List SourceAction) (hshared : s.shared = some doc)
    (hpull : pull libs key digest s = some (t, report)) (hrow : doc.specs = before ++ row :: after)
    (hname : row.key libs ≠ []) (hlast : ∀ r ∈ after, r.key libs ≠ row.key libs)
    (hfree : ∀ r ∈ t.db.specs.rows, r.name ≠ row.key libs)
    (hruns : Runs (SourceState.step libs key digest) (NameFree (row.key libs)) t as u) :
    ∃ doc', u.shared = some doc' ∧ row ∈ doc'.specs := by
  have hpulled : CarriedSpec libs row t := by
    rw [pull, hshared] at hpull
    obtain ⟨⟨db, report'⟩, -, heq⟩ := Option.map_eq_some_iff.1 hpull
    obtain ⟨rfl, -⟩ := Prod.mk.inj heq
    refine ⟨⟨doc, rfl, by rw [hrow]; simp⟩, ?_, hfree⟩
    have hhere : row.key libs ∉ db.specs.rows.map (·.name) := by
      intro hmem
      obtain ⟨r, hr, hkey⟩ := mem_map.1 hmem
      exact hfree r hr hkey
    have hcarried : (row.key libs, row) ∈
        carriedRows (fun r : SpecDoc => r.key libs) (db.specs.rows.map (·.name)) doc.specs := by
      rw [hrow]
      exact mem_carriedRows hname hhere hlast
    exact hcarried
  exact (hruns.invariant (fun a s ha h => h.step a ha) hpulled).shared

end Histories

/-! ### A spec of the same name -/

def soakRow : SpecDoc where
  name := some "soak"
  fields _ := none
  target := some "lab"
  pack := some "auth"

def sharedSoak : ConfigDoc where
  includesSecrets := true
  fingerprint := none
  targets := []
  repos := []
  specs := [soakRow]

/-- An instance with some specs, before it pulls. -/
def unpulled (specs : List SpecRow) : SourceState (List (Option Text × Option Text)) where
  db :=
    { targets := { rows := [labTarget], next := 2 }
      repos := { rows := [], next := 1 }
      specs := { rows := specs, next := 2 }
      packs := [⟨1, "web"⟩] }
  carried := { targets := [], repos := [], specs := [] }
  synced := none
  shared := some sharedSoak

/-- A digest that tells specs apart by their packs. -/
def packDigest (doc : ConfigDoc) : List (Option Text × Option Text) :=
  doc.specs.map fun row => (row.name, row.pack)

/-- A push, another spec made here, and a push again. -/
def twoPushes : List SourceAction :=
  [.autoPush true, .edit (unpulled [specOf 1 "other" 1 1 []]).db, .autoPush true]

theorem skipped_spec_stays_two_pushes :
    ∃ t report doc, pull plainLibs "key" packDigest (unpulled []) = some (t, report) ∧
      (exec (SourceState.step plainLibs "key" packDigest) t twoPushes).shared = some doc ∧
      soakRow ∈ doc.specs := by
  have hpulled : (pull plainLibs "key" packDigest (unpulled [])).isSome = true := by decide
  obtain ⟨⟨t, report⟩, hpull⟩ := Option.isSome_iff_exists.1 hpulled
  have hspecs : (pull plainLibs "key" packDigest (unpulled [])).all
      (fun p => p.1.db.specs.rows.all fun r => r.name ≠ soakRow.key plainLibs) = true := by decide
  have hfree : ∀ r ∈ t.db.specs.rows, r.name ≠ soakRow.key plainLibs := by
    rw [hpull] at hspecs
    simpa using hspecs
  have hother : ∀ r ∈ (unpulled [specOf 1 "other" 1 1 []]).db.specs.rows,
      r.name ≠ soakRow.key plainLibs := by decide
  have hruns : Runs (SourceState.step plainLibs "key" packDigest) (NameFree (soakRow.key plainLibs))
      t twoPushes (exec (SourceState.step plainLibs "key" packDigest) t twoPushes) :=
    .cons trivial (.cons hother (.cons trivial (.nil _)))
  obtain ⟨doc, hshared, hrow⟩ := skipped_spec_stays plainLibs "key" packDigest (unpulled []) t _
    report sharedSoak soakRow [] [] _ rfl hpull rfl (by decide) (by simp) hfree hruns
  exact ⟨t, report, doc, hpull, hshared, hrow⟩

/-- Where a spec of that name is here already, with another pack, the pull skips the row of the
document and carries nothing, and the next push writes the local spec over the row. -/
theorem skipped_spec_overwritten :
    let pulled := pull plainLibs "key" packDigest (unpulled [specOf 1 "soak" 1 1 []])
    pulled.map (fun p => p.2.map (·.skipped)) =
      some (some [("spec soak: pack auth is not indexed yet " ++
      "(re-run the import after the repo has synced)").toList]) ∧
    pulled.map (fun p => p.1.shared.map packDigest) =
      some (some [(some "soak".toList, some "auth".toList)]) ∧
    pulled.map (fun p => (p.1.step plainLibs "key" packDigest (.autoPush true)).shared.map
      packDigest) = some (some [(some "soak".toList, some "web".toList)]) := by
  refine ⟨?_, ?_, ?_⟩ <;> decide

end Stoker
