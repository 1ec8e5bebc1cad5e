import Stoker.Packs.Index
import Stoker.Packs.PackSource
import Stoker.Packs.Unpacked

/-!
# Syncing packs from a pack source

`sync_from_store` of `server/packsource.py` imports the archives of a pack source that an instance
does not have, and `publish_pack` puts the archive there that `export_pack_bytes` of
`server/packexport.py` makes of a pack. Whether an instance has an archive is told by comparing the
names of its packs with the stem of the key, which was made of the name of the pack that was
published; the pack that is imported takes its name from the `pack.yaml` in the archive. So a sync
imports an archive again and again unless the published name is its own stem and stands in the
`pack.yaml`.

The linter, the parser of `pack.yaml`, the archiver and which files of a pack travel are taken from
outside.
-/

open Files

namespace Stoker

/-- What a sync writes of a pack into its row. -/
structure SourcePack where
  name : Text
  sourcePath : Path
  description : Option Text := none
  tags : List Text := []
  lint : Lint := {}

/-! ### Export -/

/-- The files of a pack that travel, by their paths in its directory. -/
structure PackContents where
  files : List (Path × Bytes)
  distinct : (files.map Prod.fst).Nodup
  inside : ∀ f ∈ files, f.1 ≠ []

structure ExportLimits where
  members : ℤ
  memberBytes : ℤ
  totalBytes : ℤ
  archiveBytes : ℤ

/-- What an export takes from outside: which files travel, or why the pack cannot be exported, and
`_tar_gz`. -/
structure Exporter where
  collect : SourcePack → Except Text PackContents
  tarGz : List (Path × Bytes) → Bytes
  limits : ExportLimits

/-- The name of a member in the archive. -/
def arcname (path : Path) : Text := ['/'].intercalate path

/-- The members of an archive, in one directory that is named after the pack, sorted. -/
def exportEntries (packName : Text) (files : List (Path × Bytes)) : List (Path × Bytes) :=
  (files.map fun f => (safeBasename packName :: f.1, f.2)).insertionSort fun a b =>
    textLe (arcname a.1) (arcname b.1) = true

def overText (what : Text) (limit : ℤ) (which : String) : Text :=
  what ++ ", over the " ++ (toString limit).toList ++ which.toList

def exportPackBytes (x : Exporter) (pack : SourcePack) : Except Text Bytes :=
  match x.collect pack with
  | .error e => .error e
  | .ok files =>
    let entries := exportEntries pack.name files.files
    if x.limits.members < entries.length then
      .error (overText ("the pack has " ++ Nat.toDigits 10 entries.length ++ " files")
        x.limits.members "-member upload limit")
    else
      match entries.find? fun e => x.limits.memberBytes < e.2.length with
      | some e =>
        .error (overText (arcname e.1 ++ " is " ++ Nat.toDigits 10 e.2.length ++ " bytes")
          x.limits.memberBytes "-byte per-file upload limit")
      | none =>
        if x.limits.totalBytes < bytesOf entries then
          .error (overText
            ("the pack unpacks to " ++ Nat.toDigits 10 (bytesOf entries) ++ " bytes")
            x.limits.totalBytes "-byte upload limit")
        else
          let data := x.tarGz entries
          if x.limits.archiveBytes < data.length then
            .error (overText
              ("the export is " ++ Nat.toDigits 10 data.length ++ " bytes compressed")
              x.limits.archiveBytes
                ("-byte upload-body limit; export with include_dataset=false and " ++
                "move the dataset separately"))
          else .ok data

def publishAll (x : Exporter) (packs : List SourcePack) (store : PackStore Bytes) :
    PackStore Bytes :=
  packs.foldl (fun store pack =>
    (publishPack ⟨true, true⟩ {} pack.name (exportPackBytes x pack) store).1) store

/-! ### Import -/

/-- An exception on reading a pack: `BundleError`, or any other. -/
inductive ReadFault where
  | bundle (text : Text)
  | other (text : Text)

/-- What a sync takes from outside: as an upload, the limits and the directory of uploads, the names
of the staging directories, the parser and the linter, the text of an exception, and which requests
the store refuses. -/
structure SyncEnv where
  upload : UploadEnv
  limits : UploadLimits
  uploadDir : Path
  staging : Text → Text
  parsePackYaml : Bytes → Except ReadFault PackYaml
  lint : Disk Text Bytes → Path → Except ReadFault Lint
  explain : UploadError → Text
  listing : Option StoreError := none
  getting : Text → Option Text := fun _ => none

structure Instance where
  packs : List SourcePack
  disk : Disk Text Bytes

def Instance.names (inst : Instance) : List Text := inst.packs.map (·.name)

structure SyncReport where
  imported : List Text := []
  skipped : List Text := []
  errors : List Text := []
  deriving DecidableEq

/-- A sync as far as it went, and the exception that ended it. -/
structure SyncRun where
  inst : Instance
  report : SyncReport := {}
  raised : Option Text := none

/-- What comes of an archive that the instance does not have. -/
inductive ArchiveOutcome where
  | imported (pack : SourcePack)
  | reported (error : Text)
  | raised (error : Text)

def listArchives (store : PackStore Bytes) : List Text :=
  (store.keys.filter fun key => archiveSuffix.isSuffixOf key).insertionSort fun a b =>
    textLe a b = true

/-- The key without the suffix. -/
def archiveStem (key : Text) : Text := key.take (key.length - archiveSuffix.length)

section

variable (env : SyncEnv) (store : PackStore Bytes)

/-- `local_pack_metadata`: a pack without a name is named after its directory. -/
def localPackMetadata (disk : Disk Text Bytes) (dir : Path) : Except ReadFault PackYaml := do
  let yaml ← match disk.content (dir ++ [packYamlFile]) with
    | none => pure {}
    | some bytes => env.parsePackYaml bytes
  return { yaml with name := some ((yaml.name.filter (· ≠ [])).getD (dir.getLastD [])) }

def getArchive (key : Text) : Except Text Bytes :=
  match env.getting key with
  | some e => .error e
  | none => match store.lookup key with
    | some data => .ok data
    | none => .error "not found"

/-- The row of a pack that was read. -/
def importedPack (packName : Text) (dir : Path) (yaml : PackYaml) (lint : Lint) : SourcePack where
  name := (yaml.name.filter (· ≠ [])).getD packName
  sourcePath := dir
  description := yaml.description
  tags := yaml.tags.getD []
  lint := lint

/-- The part of the loop that registers a pack once its archive is stored. -/
def registerPack (key : Text) (disk : Disk Text Bytes) (dir : Path) :
    Disk Text Bytes × ArchiveOutcome :=
  match (do return (← localPackMetadata env disk dir, ← env.lint disk dir)) with
  | .error (.bundle text) =>
    (disk.removeTree dir, .reported (key ++ ": metadata unreadable: " ++ text))
  | .error (.other text) => (disk, .raised text)
  | .ok (yaml, lint) => (disk, .imported (importedPack (archiveStem key) dir yaml lint))

/-- What the loop does with an archive that the instance does not have. -/
def importArchive (key : Text) (disk : Disk Text Bytes) : Disk Text Bytes × ArchiveOutcome :=
  match getArchive env store key with
  | .error e => (disk, .reported (key ++ ": " ++ e))
  | .ok data =>
    let stored := storeUploadedPack env.upload env.limits env.uploadDir (env.staging key)
      (some (archiveStem key)) data disk
    match stored.result with
    | .error e => (stored.disk, .reported (key ++ ": " ++ env.explain e))
    | .ok dir => registerPack env key stored.disk dir

/-- One round of the loop. -/
def syncArchive (existing : List Text) (key : Text) (run : SyncRun) : SyncRun :=
  if archiveStem key ∈ existing then
    { run with report := { run.report with skipped := run.report.skipped ++ [archiveStem key] } }
  else
    match importArchive env store key run.inst.disk with
    | (disk, .imported pack) =>
      { run with
        inst := { packs := run.inst.packs ++ [pack], disk }
        report := { run.report with imported := run.report.imported ++ [pack.name] } }
    | (disk, .reported error) =>
      { run with
        inst := { run.inst with disk }
        report := { run.report with errors := run.report.errors ++ [error] } }
    | (disk, .raised error) =>
      { run with
        inst := { run.inst with disk }
        raised := some error }

def syncLoop (existing : List Text) : List Text → SyncRun → SyncRun
  | [], run => run
  | key :: keys, run =>
    match (syncArchive env store existing key run).raised with
    | some _ => syncArchive env store existing key run
    | none => syncLoop existing keys (syncArchive env store existing key run)

def syncFromStore (inst : Instance) : SyncRun :=
  match env.listing with
  | some (.packSource text) => { inst, raised := some text }
  | some (.other text) =>
    { inst, report := { errors := ["cannot list the pack source: " ++ text] } }
  | none => syncLoop env store inst.names (listArchives store) { inst }

end

end Stoker
