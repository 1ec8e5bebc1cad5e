import Stoker.PackBuilder.Format

/-!
# Indexing a pack of a repo

What `server/gitsync/sync.py` checks of one pack when it indexes its repo, beside the linter: that
there is no custom code (`custom_code_errors`) and that no token reads a file outside the pack
(`_token_path_escape_errors`). Both read `default/eventgen.conf` as `RawConfigParser` parses it,
where `[DEFAULT]` stands behind every section.

Over it, the settings a stanza runs under once those of the sections `[global]` and `[default]` are
applied, as `_merged_stanza_options` of `server/bundles.py` merges them ("stanza keys win, as in
eventgen"), and the files that eventgen's tokens then read.
-/

namespace Stoker

/-- What indexing takes from outside: Python's `str` methods, `int` and `repr`, the characters `\d`
matches, the real path of a path on the disk, and eventgen's `pathParser` (slashes, `normpath` and
environment variables). -/
structure Host where
  strip : Text → Text
  lower : Text → Text
  int : Text → Option ℤ
  repr : Text → Text
  isDigit : Char → Bool
  realpath : Text → Text
  pathParser : Text → Text

/-! ### The conf -/

/-- The options of a section, by key; an option may stand without a value. -/
structure Options where
  entries : List (Text × Option Text)
  nodup : (entries.map Prod.fst).Nodup := by decide

def Options.keys (o : Options) : List Text := o.entries.map Prod.fst

def Options.get (o : Options) (key : Text) : Option (Option Text) := o.entries.lookup key

/-- A parsed conf: `[DEFAULT]`, and the other sections by name. -/
structure Conf where
  defaults : Options
  sections : List (Text × Options)

/-- The sections that hold settings for all stanzas. -/
def isGlobal (host : Host) (name : Text) : Bool :=
  host.lower name ∈ ["global".toList, "default".toList]

namespace Conf

/-- `parser.get(section, key)`, none without such an option. -/
def get (c : Conf) (own : Options) (key : Text) : Option (Option Text) :=
  (own.get key).or (c.defaults.get key)

/-- `parser.options(section)`. -/
def options (c : Conf) (own : Options) : List Text :=
  own.keys ++ c.defaults.keys.filter (· ∉ own.keys)

def stanzas (host : Host) (c : Conf) : List (Text × Options) :=
  c.sections.filter fun s => !isGlobal host s.1

def globals (host : Host) (c : Conf) : List (Text × Options) :=
  c.sections.filter fun s => isGlobal host s.1

end Conf

/-! ### Custom code -/

def generatorKey : Text := "generator"

/-- A value of `generator` that names a plugin. -/
def isCustomGenerator (host : Host) (val : Option (Option Text)) : Bool :=
  val.join.any fun v => host.strip v ≠ [] ∧ host.lower (host.strip v) ≠ "default"

def generatorStanzas (host : Host) (c : Conf) : List Text :=
  (c.stanzas host).filterMap fun s =>
    if isCustomGenerator host (c.get s.2 generatorKey) then some s.1 else none

/-- What indexing reads of a pack: its directory, what the linter says, whether `bin/` has files,
and the conf where there is one that parses. -/
structure RepoPack where
  dir : Text
  lintErrors : List Text := []
  hadYaml : Bool := true
  binHasFiles : Bool := false
  conf : Option Conf

def customCodeErrors (host : Host) (pack : RepoPack) : List Text :=
  (if pack.binHasFiles then
    [("custom code: pack contains a bin/ directory (default-deny; flag the " ++
      "repo trusted_code to allow, or remove bin/)").toList]
  else []) ++
  match pack.conf with
  | none => []
  | some c =>
    if generatorStanzas host c = [] then []
    else ["custom code: 'generator =' stanza(s) " ++
      (", ".toList).intercalate ((generatorStanzas host c).map fun s => '[' :: s ++ [']']) ++
      " (default-deny; flag the repo trusted_code to allow)"]

/-! ### Token paths -/

/-- `_FILE_TOKEN_TYPES` of the check. -/
def checkedTokenTypes : List Text := ["file", "mvfile"]

def replacementTypeKey : Text := "replacementType"
def replacementKey : Text := "replacement"

def tokenKey (idx setting : Text) : Text := "token." ++ idx ++ '.' :: setting

/-- The group of `^token\.(\d+)\.<setting>$`. -/
def tokenIndex (host : Host) (setting key : Text) : Option Text :=
  match key.dropPrefix? "token." with
  | none => none
  | some rest =>
    match rest.dropSuffix? ('.' :: setting) with
    | none => none
    | some idx => if idx ≠ [] ∧ idx.all host.isDigit then some idx else none

/-- `os.path.join(base, path)` of a relative path. -/
def joinPath (base path : Text) : Text :=
  if base.getLast? = some '/' then base ++ path else base ++ '/' :: path

def pathEscapes (host : Host) (packAbs path : Text) : Bool :=
  if path = [] then false
  else
    let packReal := host.realpath packAbs
    let resolved :=
      if path.head? = some '/' then host.realpath path else host.realpath (joinPath packReal path)
    resolved ≠ packReal && !(packReal ++ ['/']).isPrefixOf resolved

def tokenTypes (host : Host) (c : Conf) (own : Options) : List (Text × Text) :=
  (c.options own).filterMap fun key =>
    (tokenIndex host replacementTypeKey key).map fun idx =>
      (idx, host.lower (host.strip ((c.get own key).join.getD [])))

/-- The replacements of a section, by index. -/
def tokenRepls (host : Host) (c : Conf) (own : Options) : List (Text × Text) :=
  (c.options own).filterMap fun key =>
    (tokenIndex host replacementKey key).map fun idx => (idx, (c.get own key).join.getD [])

/-- What the check says of one token of a section. -/
def tokenError (host : Host) (packAbs : Text) (c : Conf) (s : Text × Options) (idx ttype : Text) :
    Option Text :=
  if ttype ∉ checkedTokenTypes then none
  else match (tokenRepls host c s.2).lookup idx with
    | none => none
    | some path =>
      if path = [] then none
      else if pathEscapes host packAbs (host.strip path) then
        some ("stanza [" ++ s.1 ++ "] token." ++ idx ++ ": " ++ ttype ++
          " path " ++ host.repr (host.strip path) ++ " escapes the pack root (rejected)")
      else none

def tokenPathEscapeErrors (host : Host) (pack : RepoPack) : List Text :=
  match pack.conf with
  | none => []
  | some c => (c.stanzas host).flatMap fun s =>
      (tokenTypes host c s.2).filterMap fun t => tokenError host pack.dir c s t.1 t.2

/-! ### Indexing -/

/-- What `index_packs` records of one pack. -/
structure Indexed where
  errors : List Text
  lintOk : Bool
  verified : Bool

def indexPack (host : Host) (trustedCode : Bool) (pack : RepoPack) : Indexed :=
  let errors := pack.lintErrors ++
    (if trustedCode then [] else customCodeErrors host pack) ++ tokenPathEscapeErrors host pack
  { errors, lintOk := errors.isEmpty, verified := errors.isEmpty && pack.hadYaml }

/-! ### Settings in effect -/

namespace Conf

/-- `pack_globals`: the sections `[global]` and `[default]`, of which the later ones win. -/
def packGlobals (host : Host) (c : Conf) (key : Text) : Option (Option Text) :=
  (c.globals host).foldl (fun acc s => (c.get s.2 key).or acc) none

/-- `_merged_stanza_options` before sample references are renamed. -/
def mergedStanzaOptions (host : Host) (c : Conf) (own : Options) (key : Text) :
    Option (Option Text) :=
  (c.get own key).or (c.packGlobals host key)

def mergedKeys (host : Host) (c : Conf) (own : Options) : List Text :=
  (c.globals host).flatMap (fun s => c.options s.2) ++ c.options own

end Conf

/-- `_FILE_TOKEN_TYPES` of the merge, the types for which eventgen reads a file. -/
def fileTokenTypes : List Text := ["file", "mvfile", "seqfile"]

/-- A token of a sample: one with a number, or the host token, which always reads a file. -/
inductive SampleToken where
  | numbered (idx : Text)
  | host
  deriving DecidableEq

namespace Conf

def tokens (host : Host) (c : Conf) (own : Options) : List SampleToken :=
  .host :: ((c.mergedKeys host own).filterMap (tokenIndex host replacementTypeKey)).map .numbered

def tokenType (host : Host) (c : Conf) (own : Options) (idx : Text) : Text :=
  host.strip ((c.mergedStanzaOptions host own (tokenKey idx replacementTypeKey)).join.getD [])

/-- What a token in effect gives as the file to read. -/
def fileReplacement (host : Host) (c : Conf) (own : Options) : SampleToken → Option Text
  | .numbered idx =>
    if c.tokenType host own idx ∈ fileTokenTypes then
      (c.mergedStanzaOptions host own (tokenKey idx replacementKey)).join.filter (· ≠ [])
    else none
  | .host => (c.mergedStanzaOptions host own "host.replacement").join.filter (· ≠ [])

end Conf

/-- A replacement without the column of an `mvfile`: a positive number behind the last colon. -/
def withoutColumn (host : Host) (replacement : Text) : Text :=
  let paths := replacement.splitOn ':'
  if 1 < paths.length ∧ ((paths.getLast?.bind host.int).any (0 < ·)) then
    [':'].intercalate paths.dropLast
  else replacement

/-- The path that `Token.replace` opens. -/
def openedPath (host : Host) (replacement : Text) : Text :=
  host.pathParser (withoutColumn host replacement)

/-- No stanza of the pack runs a plugin or reads a file outside the pack. -/
def RepoPack.Sandboxed (host : Host) (pack : RepoPack) : Prop :=
  ∀ c ∈ pack.conf, ∀ s ∈ c.stanzas host,
    isCustomGenerator host (c.mergedStanzaOptions host s.2 generatorKey) = false ∧
    ∀ t ∈ c.tokens host s.2, ∀ replacement ∈ c.fileReplacement host s.2 t,
      pathEscapes host pack.dir (openedPath host replacement) = false

end Stoker
