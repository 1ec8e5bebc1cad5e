import Mathlib.Data.List.AList
import Mathlib.Data.List.DropRight
import Stoker.Packs.Upload

/-!
# Mirroring packs

`server/packsource.py` pushes the archives of packs to a pack source, an object store or a
directory, and removes them there; `server/packrename.py` moves an archive when its pack is renamed.
The key of an archive is what `safe_basename` of `server/packexport.py` makes of the pack's name.

A pack source is a finite map from keys to archives. What an archive is does not matter here; the
store may refuse a request, and then it stays as it is.
-/

namespace Stoker

/-! ### Keys -/

/-- The characters that no key starts or ends with. -/
def isEdgeChar (c : Char) : Bool := c ∈ ['-', '.', '_']

def stripEdges (t : Text) : Text := (t.dropWhile isEdgeChar).rdropWhile isEdgeChar

def safeBasename (name : Text) : Text :=
  let slug := stripEdges ((stripEdges (slugSub false name)).take 64)
  if slug = [] then "pack" else slug

def archiveSuffix : Text := ".tar.gz"

def archiveName (packName : Text) : Text := safeBasename packName ++ archiveSuffix

lemma archiveName_inj {a b : Text} :
    archiveName a = archiveName b ↔ safeBasename a = safeBasename b :=
  List.append_left_inj _

/-! ### The store -/

abbrev PackStore (α : Type) := AList fun _ : Text => α

/-- An exception that a store raises: `PackSourceError`, or any other. -/
inductive StoreError where
  | packSource (text : Text)
  | other (text : Text)

def StoreError.text : StoreError → Text
  | packSource text => text
  | other text => text

/-- Which requests a store refuses. -/
structure StoreFaults where
  put : Option StoreError := none
  delete : Option StoreError := none

/-- The environment: `STOKER_PACK_SOURCE` is set, and so is `STOKER_PACK_SOURCE_WRITE`. -/
structure SourceAccess where
  configured : Bool
  writes : Bool

section

variable {α : Type} (access : SourceAccess) (faults : StoreFaults)

/-- `publish_pack` with a store, given what the export of the pack yields. -/
def publishTo (name : Text) (exported : Except Text α) (store : PackStore α) :
    PackStore α × Option Text :=
  match exported, faults.put with
  | .ok data, none => (store.insert (archiveName name) data, some (archiveName name))
  | _, _ => (store, none)

def publishPack (name : Text) (exported : Except Text α) (store : PackStore α) :
    PackStore α × Option Text :=
  if access.writes = false then (store, none)
  else if access.configured = false then (store, none)
  else publishTo faults name exported store

/-- `unpublish_pack`: the key and whether it was there, or the text of the `PackSourceError`. -/
def unpublishPack (name : Text) (store : PackStore α) : PackStore α × Except Text (Text × Bool) :=
  if access.writes = false then
    (store, .error "the pack source is read-only (set STOKER_PACK_SOURCE_WRITE=1)")
  else if access.configured = false then
    (store, .error "no pack source is configured (set STOKER_PACK_SOURCE)")
  else
    let key := archiveName name
    match faults.delete with
    | some (.packSource text) => (store, .error text)
    | some (.other text) =>
      (store, .error ("could not delete " ++ key ++ " from the pack source: " ++ text))
    | none => (store.erase key, .ok (key, decide (key ∈ store)))

/-- What `swap_remote` reports. -/
structure RemoteSwap where
  remoteKey : Option Text := none
  oldRemoteKey : Option Text := none
  oldRemoteRemoved : Bool := false
  warning : Option Text := none

/-- The warning about a source that cannot be written, if there is a source. -/
def readOnlyWarning (repr : Text → Text) (oldName : Text) : Option Text :=
  if access.configured then
    some ("the pack source is read-only, so its copy is still named " ++ repr oldName ++
      " and will be imported again at the next boot")
  else none

def refusedWarning (repr : Text → Text) (oldName : Text) : Text :=
  "the pack source refused the new archive; its copy is still named " ++ repr oldName

def leftWarning (oldKey : Text) (e : StoreError) : Text :=
  "could not remove the old archive " ++ oldKey ++ " from the pack source (" ++ e.text ++
    "); delete it there or it returns at the next boot"

/-- `swap_remote`, given `repr`: the archive is published under the new name before the one under
the old name is deleted. -/
def swapRemote (repr : Text → Text) (oldName name : Text) (exported : Except Text α)
    (store : PackStore α) : PackStore α × RemoteSwap :=
  if access.writes = false then (store, { warning := readOnlyWarning access repr oldName })
  else if access.configured = false then (store, {})
  else
    let oldKey := archiveName oldName
    match publishTo faults name exported store with
    | (store, none) => (store, { warning := some (refusedWarning repr oldName) })
    | (store, some newKey) =>
      if newKey = oldKey then (store, { remoteKey := some newKey })
      else
        match faults.delete with
        | none => (store.erase oldKey,
          { remoteKey := some newKey
            oldRemoteKey := some oldKey
            oldRemoteRemoved := decide (oldKey ∈ store) })
        | some e => (store,
          { remoteKey := some newKey
            oldRemoteKey := some oldKey
            warning := some (leftWarning oldKey e) })

/-- The source takes an archive. -/
def Accepts (exported : Except Text α) : Prop :=
  access.writes = true ∧ access.configured = true ∧ faults.put = none ∧ ∃ data, exported = .ok data

end

/-! ### What the operations do to a store -/

section

variable {α : Type} (access : SourceAccess) (faults : StoreFaults) (name oldName : Text)
  (exported : Except Text α) (store : PackStore α) (repr : Text → Text)

lemma publishTo_cases :
    (∃ data, exported = .ok data ∧ faults.put = none ∧ publishTo faults name exported store =
      (store.insert (archiveName name) data, some (archiveName name))) ∨
    ((faults.put = none → ∀ data, exported ≠ .ok data) ∧
      publishTo faults name exported store = (store, none)) := by
  unfold publishTo
  cases exported with
  | error e => exact .inr ⟨fun _ _ => nofun, rfl⟩
  | ok data =>
    cases hput : faults.put with
    | none => exact .inl ⟨data, rfl, rfl, rfl⟩
    | some e => exact .inr ⟨nofun, rfl⟩

lemma publishPack_cases :
    (∃ data, exported = .ok data ∧ publishPack access faults name exported store =
      (store.insert (archiveName name) data, some (archiveName name))) ∨
    publishPack access faults name exported store = (store, none) := by
  unfold publishPack
  split_ifs
  · exact .inr rfl
  · exact .inr rfl
  · rcases publishTo_cases faults name exported store with ⟨data, hdata, _, h⟩ | ⟨_, h⟩
    · exact .inl ⟨data, hdata, h⟩
    · exact .inr h

lemma unpublishPack_cases :
    (∃ result, unpublishPack access faults name store =
      (store.erase (archiveName name), .ok result)) ∨
    ∃ text, unpublishPack access faults name store = (store, .error text) := by
  unfold unpublishPack
  split_ifs
  · exact .inr ⟨_, rfl⟩
  · exact .inr ⟨_, rfl⟩
  · dsimp only
    split
    · exact .inr ⟨_, rfl⟩
    · exact .inr ⟨_, rfl⟩
    · exact .inl ⟨_, rfl⟩

/-- A swap puts the archive under the new key, and may delete the old key if that is another one; or
it does nothing, which it does only where the source does not take the archive. -/
lemma swapRemote_cases :
    (∃ data, exported = .ok data ∧
      (swapRemote access faults repr oldName name exported store).2.remoteKey =
        some (archiveName name) ∧
      ((swapRemote access faults repr oldName name exported store).1 =
          store.insert (archiveName name) data ∨
        (archiveName name ≠ archiveName oldName ∧
          (swapRemote access faults repr oldName name exported store).1 =
            (store.insert (archiveName name) data).erase (archiveName oldName)))) ∨
    (¬ Accepts access faults exported ∧
      (swapRemote access faults repr oldName name exported store).2.remoteKey = none ∧
      (swapRemote access faults repr oldName name exported store).1 = store) := by
  unfold swapRemote Accepts
  split_ifs with hw hc
  · exact .inr ⟨fun h => by simp [hw] at h, rfl, rfl⟩
  · exact .inr ⟨fun h => by simp [hc] at h, rfl, rfl⟩
  · rcases publishTo_cases faults name exported store with ⟨data, hdata, _, h⟩ | ⟨hnone, h⟩
    · rw [h]
      refine .inl ⟨data, hdata, ?_⟩
      dsimp only
      split_ifs with hkey
      · exact ⟨rfl, .inl rfl⟩
      · cases faults.delete with
        | none => exact ⟨rfl, .inr ⟨hkey, rfl⟩⟩
        | some e => exact ⟨rfl, .inl rfl⟩
    · rw [h]
      refine .inr ⟨?_, rfl, rfl⟩
      rintro ⟨_, _, hput, data, hdata⟩
      exact hnone hput data hdata

end

end Stoker
