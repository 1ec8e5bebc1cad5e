import Stoker.Files.Disk
import Stoker.PackBuilder.Format

/-!
# Uploading a pack

`server/packupload.py` stores an archive that was uploaded over HTTP: it tells the format by the
content, extracts member by member into a fresh directory beside the stored packs, finds the root of
the pack in it and renames that to a name of its own. Whatever goes wrong, the directory is removed.

Python's archive readers are taken from outside. They give a list of members, each with the chunks
that reading it yields; reading may fail at any chunk, and so may the making of any file.
-/

namespace Stoker

open Files

abbrev Bytes := List UInt8

structure UploadLimits where
  maxMembers : ℤ
  maxMemberBytes : ℤ
  maxTotalBytes : ℤ

inductive ArchiveFormat where
  | zip
  | tar
  deriving DecidableEq

/-- `PackUploadError` by its text, or any other exception. -/
inductive UploadError where
  | unrecognised
  | unreadable (format : ArchiveFormat) (reason : Text)
  | tooManyMembers (limit : ℤ)
  | symlink (name : Text)
  | hardlink (name : Text)
  | device (name : Text)
  | unsupported (name type : Text)
  | notRegular (name : Text)
  | absolutePath (name : Text)
  | driveLetter (name : Text)
  | emptyPath (name : Text)
  | escapes (name : Text)
  | memberTooLarge (name : Text) (limit : ℤ)
  | archiveTooLarge (limit : ℤ)
  | corrupt (name reason : Text)
  | noPack
  | exception
  deriving DecidableEq

/-! ### Archives -/

/-- An exception of a reader: `BadZipFile`, or any other. -/
inductive StreamFault where
  | badZip (reason : Text)
  | other

/-- What reading a member yields: it may not open, and may fail after the last chunk. Only the end
of the data reads as an empty chunk. -/
structure Stream where
  opening : Option StreamFault := none
  chunks : List Bytes
  ending : Option StreamFault := none
  full : ∀ chunk ∈ chunks, chunk ≠ [] := by decide

inductive TarKind where
  | symlink
  | hardlink
  | device
  | dir
  | regular
  | other (type : Text)

structure TarMember where
  name : Text
  kind : TarKind
  stream : Stream := { chunks := [] }

/-- `mode` is `external_attr >> 16`. -/
structure ZipInfo where
  filename : Text
  mode : ℕ := 0
  stream : Stream := { chunks := [] }

/-- What a member asks for once its type is checked. -/
inductive MemberRequest where
  | refuse (error : UploadError)
  | mkdir (name : Text)
  | write (name : Text) (stream : Stream) (fault : StreamFault → UploadError)

/-- The types of tar members, in the order of the checks. -/
def TarMember.request (m : TarMember) : MemberRequest :=
  match m.kind with
  | .symlink => .refuse (.symlink m.name)
  | .hardlink => .refuse (.hardlink m.name)
  | .device => .refuse (.device m.name)
  | .dir => .mkdir m.name
  | .other type => .refuse (.unsupported m.name type)
  | .regular => .write m.name m.stream fun _ => .exception

/-- `stat.S_IFMT`. -/
def fileType (mode : ℕ) : ℕ := mode &&& 0o170000

def ZipInfo.request (i : ZipInfo) : MemberRequest :=
  if fileType i.mode = 0o120000 then .refuse (.symlink i.filename)
  else if fileType i.mode ∉ [0, 0o100000, 0o040000] then .refuse (.notRegular i.filename)
  else if i.filename.getLast? = some '/' then .mkdir i.filename
  else .write i.filename i.stream fun
    | .badZip reason => .corrupt i.filename reason
    | .other => .exception

/-- What upload takes from outside: `tarfile` and `zipfile` (a tar may turn out broken behind its
last member), and where the system refuses to make a file or directory, or to rename a pack. -/
structure UploadEnv where
  tar : Bytes → Except Text (List TarMember × Bool)
  zip : Bytes → Except Text (List ZipInfo)
  refuses : List Text → Bool
  renames : List Text → Bool

def zipMagics : List Bytes := [[0x50, 0x4b, 3, 4], [0x50, 0x4b, 5, 6], [0x50, 0x4b, 7, 8]]
def gzipMagic : Bytes := [0x1f, 0x8b]
def tarMagics : List Bytes :=
  [[0x75, 0x73, 0x74, 0x61, 0x72, 0], [0x75, 0x73, 0x74, 0x61, 0x72, 0x20]]

def detectFormat (data : Bytes) : Option ArchiveFormat :=
  if zipMagics.any (·.isPrefixOf data) then some .zip
  else if gzipMagic.isPrefixOf data then some .tar
  else if tarMagics.any (·.isPrefixOf ((data.drop 257).take 6)) then some .tar
  else none

/-! ### Extraction -/

/-- The disk, and what was written to each file that was opened, in that order. -/
structure Extraction where
  disk : Disk Text Bytes
  written : List (List Text × Bytes) := []

/-- The path of a member below the staging directory, before links are looked at. -/
def memberParts (name : Text) : Except UploadError (List Text) :=
  let normalised := name.map fun c => if c = '\\' then '/' else c
  let parts := (normalised.splitOn '/').filter fun p => p ≠ [] ∧ p ≠ ['.']
  if normalised = [] ∨ normalised.head? = some '/' then .error (.absolutePath name)
  else if (normalised.head?.any Char.isAlpha) ∧ normalised[1]? = some ':' then
    .error (.driveLetter name)
  else if parts = [] then .error (.emptyPath name)
  else if ['.', '.'] ∈ parts then .error (.escapes name)
  else .ok parts

def memberDest (disk : Disk Text Bytes) (staging : List Text) (name : Text) :
    Except UploadError (List Text) :=
  match memberParts name with
  | .error e => .error e
  | .ok parts =>
    if staging <+: disk.realpath staging parts then .ok parts else .error (.escapes name)

/-- The loop of `_copy_capped`: what is written, and the cap that stopped it. -/
def copyChunks (limits : UploadLimits) (name : Text) (total : ℕ) :
    List Bytes → Bytes → Bytes × Option UploadError
  | [], out => (out, none)
  | chunk :: rest, out =>
    if limits.maxMemberBytes < (out ++ chunk).length then
      (out, some (.memberTooLarge name limits.maxMemberBytes))
    else if limits.maxTotalBytes < total + (out ++ chunk).length then
      (out, some (.archiveTooLarge limits.maxTotalBytes))
    else copyChunks limits name total rest (out ++ chunk)

section

variable (env : UploadEnv) (limits : UploadLimits) (staging : List Text)

/-- Opening a file for writing, and `_copy_capped` into it. -/
def copyInto (name : Text) (stream : Stream) (fault : StreamFault → UploadError) (dest : List Text)
    (total : ℕ) (s : Extraction) : Extraction × Except UploadError ℕ :=
  if s.disk.node dest = some .dir ∨ env.refuses dest then (s, .error .exception)
  else
    let out := copyChunks limits name total stream.chunks []
    let s' : Extraction :=
      { disk := s.disk.put dest (.file out.1), written := s.written ++ [(dest, out.1)] }
    match out.2, stream.ending with
    | some e, _ => (s', .error e)
    | none, some f => (s', .error (fault f))
    | none, none => (s', .ok (total + out.1.length))

def copyCapped (name : Text) (stream : Stream) (fault : StreamFault → UploadError)
    (parts : List Text) (total : ℕ) (s : Extraction) : Extraction × Except UploadError ℕ :=
  let made := s.disk.makedirs env.refuses staging parts.dropLast
  if made.2 then
    copyInto env limits name stream fault (made.1.realpath staging parts) total
      { s with disk := made.1 }
  else ({ s with disk := made.1 }, .error .exception)

/-- One round of the loops: the new total, or why extraction ends. -/
def extractMember (request : MemberRequest) (total : ℕ) (s : Extraction) :
    Extraction × Except UploadError ℕ :=
  match request with
  | .refuse e => (s, .error e)
  | .mkdir name =>
    match memberDest s.disk staging name with
    | .error e => (s, .error e)
    | .ok parts =>
      let made := s.disk.makedirs env.refuses staging parts
      ({ s with disk := made.1 }, if made.2 then .ok total else .error .exception)
  | .write name stream fault =>
    match memberDest s.disk staging name with
    | .error e => (s, .error e)
    | .ok parts =>
      match stream.opening with
      | some f => (s, .error (fault f))
      | none => copyCapped env limits staging name stream fault parts total s

/-- The loop of either format, with the check made on the number of members so far. -/
def extractLoop (tooMany : ℕ → Bool) :
    List MemberRequest → ℕ → ℕ → Extraction → Extraction × Option UploadError
  | [], _, _, s => (s, none)
  | request :: rest, members, total, s =>
    if tooMany (members + 1) then (s, some (.tooManyMembers limits.maxMembers))
    else
      match extractMember env limits staging request total s with
      | (s', .error e) => (s', some e)
      | (s', .ok total') => extractLoop tooMany rest (members + 1) total' s'

def extractTar (data : Bytes) (s : Extraction) : Extraction × Option UploadError :=
  match env.tar data with
  | .error reason => (s, some (.unreadable .tar reason))
  | .ok (members, broken) =>
    match extractLoop env limits staging (limits.maxMembers < ·)
      (members.map (·.request)) 0 0 s with
    | (s', some e) => (s', some e)
    | (s', none) => (s', if broken then some .exception else none)

def extractZip (data : Bytes) (s : Extraction) : Extraction × Option UploadError :=
  match env.zip data with
  | .error reason => (s, some (.unreadable .zip reason))
  | .ok infos =>
    if limits.maxMembers < infos.length then (s, some (.tooManyMembers limits.maxMembers))
    else extractLoop env limits staging (fun _ => false) (infos.map (·.request)) 0 0 s

def extractArchive (format : ArchiveFormat) (data : Bytes) (s : Extraction) :
    Extraction × Option UploadError :=
  match format with
  | .zip => extractZip env limits staging data s
  | .tar => extractTar env limits staging data s

end

/-! ### The pack in it -/

def isFile (disk : Disk Text Bytes) (p : List Text) : Bool := (disk.content p).isSome

def looksLikePackRoot (disk : Disk Text Bytes) (p : List Text) : Bool :=
  isFile disk (p ++ ["default".toList, "eventgen.conf".toList]) ||
    isFile disk (p ++ ["pack.yaml".toList]) || isFile disk (p ++ ["stoker.json".toList])

def isJunk (name : Text) : Bool :=
  name ∈ ["__MACOSX".toList, ".DS_Store".toList] || ['.', '_'].isPrefixOf name

/-- `find_pack_root`, as a path below the staging directory. -/
def findPackRoot (disk : Disk Text Bytes) (staging : List Text) : Except UploadError (List Text) :=
  if looksLikePackRoot disk staging then .ok []
  else
    match (disk.names staging).filter fun n =>
        !isJunk n && decide (disk.node (staging ++ [n]) = some .dir) with
    | [n] => if looksLikePackRoot disk (staging ++ [n]) then .ok [n] else .error .noPack
    | _ => .error .noPack

def isSlugChar (c : Char) : Bool := c.isAlphanum || c ∈ ['.', '_', '-']

/-- `_SLUG_BAD_RE.sub("-", hint)`: each run of other characters becomes a dash. -/
def slugSub : Bool → Text → Text
  | _, [] => []
  | inRun, c :: t =>
    if isSlugChar c then c :: slugSub false t
    else if inRun then slugSub true t
    else '-' :: slugSub true t

def slug (hint : Text) : Text :=
  let stripped := (((slugSub false hint).dropWhile (· = '-')).reverse.dropWhile (· = '-')).reverse
  let t := stripped.dropWhile (· = '.')
  if t = [] then "pack" else t

/-- The names that `_unique_pack_dir` tries in turn. -/
def candidateName (slug : Text) : ℕ → Text
  | 0 => slug
  | n + 1 => slug ++ '-' :: Nat.toDigits 10 (n + 2)

/-- The first number from `n` on that is not taken, within so many tries. -/
def firstFree (taken : ℕ → Bool) : ℕ → ℕ → ℕ
  | 0, n => n
  | tries + 1, n => if taken n then firstFree taken tries (n + 1) else n

/-- `_unique_pack_dir`. Every entry of the disk takes one name at most, so as many tries are
enough. -/
def uniquePackDir (disk : Disk Text Bytes) (upload : List Text) (hint : Text) : List Text :=
  let path n := upload ++ [candidateName (slug hint) n]
  path (firstFree (fun n => (disk.node (path n)).isSome) disk.length 0)

/-- What an upload leaves: the extraction as far as it went, the disk, and the pack's directory. -/
structure StoredUpload where
  extracted : Extraction
  disk : Disk Text Bytes
  result : Except UploadError (List Text)

/-- The upload directory is there, or made before anything else. -/
def storeUploadedPack (env : UploadEnv) (limits : UploadLimits) (upload : List Text)
    (stagingName : Text) (nameHint : Option Text) (data : Bytes) (disk : Disk Text Bytes) :
    StoredUpload :=
  let staging := upload ++ [stagingName]
  match detectFormat data with
  | none => { extracted := { disk }, disk, result := .error .unrecognised }
  | some format =>
    if env.refuses staging ∨ disk.node staging ≠ none then
      { extracted := { disk }, disk, result := .error .exception }
    else
      let extracted := extractArchive env limits staging format data
          { disk := disk.put staging .dir }
      let removed := extracted.1.disk.removeTree staging
      match extracted.2 with
      | some e => { extracted := extracted.1, disk := removed, result := .error e }
      | none =>
        match findPackRoot extracted.1.disk staging with
        | .error e => { extracted := extracted.1, disk := removed, result := .error e }
        | .ok rel =>
          let root := staging ++ rel
          let hint := (nameHint.filter (· ≠ [])).getD (root.getLastD [])
          let final := uniquePackDir extracted.1.disk upload hint
          if env.renames final then
            { extracted := extracted.1
              disk := (extracted.1.disk.rename root final).removeTree staging
              result := .ok final }
          else { extracted := extracted.1, disk := removed, result := .error .exception }

end Stoker
