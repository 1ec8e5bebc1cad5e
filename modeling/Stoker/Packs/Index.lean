import Mathlib.Data.Rat.Defs
import Mathlib.Data.List.Sort
import Stoker.Packs.Conf
import Stoker.Sessions.Upsert

/-!
# Syncing a repo

`sync_repo` of `server/gitsync/sync.py`, from the working tree on: a fetch puts every file of the
commit in place and leaves files alone that git does not track, `index_packs` walks the tree for
pack roots and writes a row for each (`_upsert_pack`), and a root without a `pack.yaml` is first
given one (`_synthesise_pack_yaml`). That file stays in the clone, where the next sync finds it.

The linter, the parsers of `pack.yaml` and of the conf, and how a float is printed are taken from
outside; the checks beside the linter are those of `indexPack`.
-/

open List

namespace Stoker

open Sessions

/-- A path inside a clone, by its components. -/
abbrev Path := List Text

abbrev Files := List (Path × Text)

def Files.paths (files : Files) : List Path := files.map Prod.fst

def Files.read (files : Files) (path : Path) : Option Text := files.lookup path

/-- The files below a directory, by their paths in it. -/
def Files.under (files : Files) (dir : Path) : Files :=
  files.filterMap fun f => (f.1.dropPrefix? dir).map fun path => (path, f.2)

/-- The working tree of a clone, with the paths that its commit tracks. -/
structure WorkTree where
  tracked : List Path
  files : Files
  deriving DecidableEq

/-- `_fetch`: the files of the commit, and what neither it nor the commit before has to do with. -/
def fetch (commit : Files) (tree : WorkTree) : Files :=
  commit ++ tree.files.filter fun f => f.1 ∉ commit.paths ∧ f.1 ∉ tree.tracked

/-! ### What is read of a pack -/

/-- What `parse_pack_yaml` finds of what indexing asks for. -/
structure PackYaml where
  name : Option Text := none
  description : Option Text := none
  tags : Option (List Text) := none

/-- What `lint_pack` says of a directory. -/
structure Lint where
  errors : List Text := []
  engines : List Text := []
  sourcetypes : List Text := []
  stanzaCount : ℕ := 0
  estBytesPerEvent : Option ℚ := none
  declaredPerDayGb : Option ℚ := none
  metricgen : Option Text := none

/-- What a sync takes from outside: the linter over the files of a directory, the parsers, whether a
`pack.yaml` declares a rawreplay pack, and the printing of a float rounded to two digits. -/
structure Indexer where
  host : Host
  lint : Text → Files → Lint
  parsePackYaml : Text → PackYaml
  rawreplay : Text → Bool
  parseConf : Text → Option Conf
  reprRounded : ℚ → Text

structure SyncedRepo where
  id : ℕ
  url : Text
  trustedCode : Bool

def packYamlFile : Text := "pack.yaml"

def confRelpath : Path := ["default", "eventgen.conf"]

section Indexing

variable (ix : Indexer) (root : Text) (repo : SyncedRepo)

def clonePath : Text := joinPath root (Nat.toDigits 10 repo.id)

/-- The directory of a pack, `os.path.join` along its path in the clone. -/
def packPath (rel : Path) : Text := rel.foldl joinPath (clonePath root repo)

def isPackRoot (files : Files) (rel : Path) : Bool :=
  rel ++ confRelpath ∈ files.paths || (files.read (rel ++ [packYamlFile])).any ix.rawreplay

/-- The directories in `packs/`, sorted. -/
def packEntries (files : Files) : List Text :=
  ((files.filterMap fun f =>
    match f.1 with
    | dir :: entry :: _ :: _ => if dir = "packs" then some entry else none
    | _ => none).dedup).insertionSort fun a b => textLe a b = true

def findPackRoots (files : Files) : List Path :=
  ([] :: (packEntries files).map fun entry => ["packs".toList, entry]).filter (isPackRoot ix files)

/-- What stands behind the last occurrence of a character. -/
def afterLast (c : Char) (t : Text) : Text := (t.reverse.takeWhile (· ≠ c)).reverse

def repoSlug (url : Text) : Text :=
  let text := ((ix.host.strip url).reverse.dropWhile (· = '/')).reverse
  let text := (text.dropSuffix? ".git").getD text
  let text := afterLast ':' (afterLast '/' text)
  if text = [] then "root" else text

/-- The last component of a pack's directory; at the root that is the repo's number. -/
def packBasename (rel : Path) : Text := rel.getLastD (Nat.toDigits 10 repo.id)

def packYaml (files : Files) (rel : Path) : PackYaml :=
  (files.read (rel ++ [packYamlFile])).elim {} ix.parsePackYaml

def packName (files : Files) (rel : Path) : Text :=
  match (packYaml ix files rel).name with
  | some (c :: name) => c :: name
  | _ =>
    if rel = [] then (if repo.url = [] then "root".toList else repoSlug ix repo.url)
    else packBasename repo rel

def fmtNum (value : ℚ) : Text :=
  if value.den = 1 then (toString value.num).toList else ix.reprRounded value

def synthesisedYaml (rel : Path) (lint : Lint) : Text :=
  let lines :=
    ["# synthesised by stoker git-sync (unverified: no author pack.yaml)".toList,
      "name: ".toList ++ packBasename repo rel,
      "description: \"synthesised pack (no author pack.yaml)\"".toList,
      "engine: ".toList ++ lint.engines.headD "eventgen".toList] ++
    match lint.estBytesPerEvent with
    | none => []
    | some bpe =>
      ["estimates:".toList, "  bytes_per_event: ".toList ++ fmtNum ix bpe] ++
      match lint.declaredPerDayGb with
      | none => []
      | some gb => ["  per_day_gb: ".toList ++ fmtNum ix gb]
  lines.flatMap (· ++ ['\n'])

def synthesisePackYaml (files : Files) (rel : Path) : Files :=
  let lint := ix.lint (packPath root repo rel) (files.under rel)
  files ++ [(rel ++ [packYamlFile], synthesisedYaml ix repo rel lint)]

/-! ### Rows -/

/-- What a sync writes of a pack into its row. -/
structure PackFacts where
  repo : Option ℕ
  name : Text
  sourcePath : Text
  description : Option Text
  tags : Option (List Text)
  engines : List Text
  sourcetypes : List Text
  stanzaCount : ℕ
  estBytesPerEvent : Option ℚ
  declaredPerDayGb : Option ℚ
  verified : Bool
  lintOk : Bool
  lintErrors : List Text
  indexedSha : Text
  deriving DecidableEq

structure PackRecord where
  id : ℕ
  facts : PackFacts
  builderConfig : Option Text
  deriving DecidableEq

/-- A pack as the loop of `index_packs` hands it to `_upsert_pack`. -/
structure FoundPack where
  facts : PackFacts
  metricgen : Option Text

/-- `_upsert_pack`: rows are told apart by repo and name, and a pack without metrics leaves the
builder's configuration in its row alone. -/
def upsertPacks : Upsert (Option ℕ × Text) PackRecord FoundPack where
  rowKey r := (r.facts.repo, r.facts.name)
  docKey d := (d.facts.repo, d.facts.name)
  create id d := { id, facts := d.facts, builderConfig := d.metricgen }
  update d r := { r with facts := d.facts, builderConfig := d.metricgen.or r.builderConfig }
  rowKey_create _ _ := rfl
  rowKey_update _ _ h := h

/-- What one round of the loop writes, once the pack has its `pack.yaml`. -/
def foundPack (sha : Text) (files : Files) (rel : Path) (name : Text) (hadYaml : Bool) :
    FoundPack :=
  let dir := packPath root repo rel
  let lint := ix.lint dir (files.under rel)
  let indexed := indexPack ix.host repo.trustedCode
    { dir
      lintErrors := lint.errors
      hadYaml
      binHasFiles := (files.under (rel ++ ["bin".toList])).any (·.1 ≠ [])
      conf := (files.read (rel ++ confRelpath)).bind ix.parseConf }
  { facts :=
      { repo := some repo.id
        name
        sourcePath := dir
        description := (packYaml ix files rel).description
        tags := (packYaml ix files rel).tags
        engines := lint.engines
        sourcetypes := lint.sourcetypes
        stanzaCount := lint.stanzaCount
        estBytesPerEvent := lint.estBytesPerEvent
        declaredPerDayGb := lint.declaredPerDayGb
        verified := indexed.verified
        lintOk := indexed.lintOk
        lintErrors := indexed.errors
        indexedSha := sha }
    metricgen := lint.metricgen }

/-- One round of the loop. Where the file cannot be written, indexing goes on without it. -/
def indexRound (sha : Text) (blocked : List Path) (files : Files) (rel : Path) :
    Files × FoundPack :=
  let name := packName ix repo files rel
  let hadYaml := decide (rel ++ [packYamlFile] ∈ files.paths)
  let files' :=
    if hadYaml ∨ rel ∈ blocked then files else synthesisePackYaml ix root repo files rel
  (files', foundPack ix root repo sha files' rel name hadYaml)

def indexPacks (sha : Text) (blocked : List Path) : Files → List Path → Files × List FoundPack
  | files, [] => (files, [])
  | files, rel :: rels =>
    let (files', found) := indexRound ix root repo sha blocked files rel
    let (files'', rest) := indexPacks sha blocked files' rels
    (files'', found :: rest)

/-- A clone and the table of packs. -/
structure Checkout where
  tree : WorkTree
  packs : Table PackRecord

def syncRepo (sha : Text) (commit : Files) (blocked : List Path) (s : Checkout) : Checkout :=
  let files := fetch commit s.tree
  let (files', found) := indexPacks ix root repo sha blocked files (findPackRoots ix files)
  { tree := { tracked := commit.paths, files := files' }, packs := upsertPacks.load found s.packs }

/-- Syncs of one commit, one after the other, each with the packs whose file it cannot write. -/
def resync (sha : Text) (commit : Files) (blocked : ℕ → List Path) (s : Checkout) : ℕ → Checkout
  | 0 => s
  | n + 1 => syncRepo ix root repo sha commit (blocked n) (resync sha commit blocked s n)

lemma upsertPacks_update_update (d : FoundPack) (r : PackRecord) :
    upsertPacks.update d (upsertPacks.update d r) = upsertPacks.update d r := by
  cases h : d.metricgen <;> simp [upsertPacks, h]

lemma upsertPacks_update_create (d : FoundPack) (id : ℕ) :
    upsertPacks.update d (upsertPacks.create id d) = upsertPacks.create id d := by
  simp [upsertPacks]

/-! ### The clone after a sync -/

variable {commit : Files} {rel : Path}

lemma mem_paths_fetch {tree : WorkTree} {path : Path} (h : path ∈ commit.paths) :
    path ∈ (fetch commit tree).paths := by
  rw [fetch, Files.paths, map_append]
  exact mem_append_left _ h

lemma fetch_fetch (commit : Files) (tree : WorkTree) :
    fetch commit { tracked := commit.paths, files := fetch commit tree } = fetch commit tree := by
  have hown : commit.filter (fun f => f.1 ∉ commit.paths ∧ f.1 ∉ commit.paths) = [] := by
    refine filter_eq_nil_iff.2 fun f hf => ?_
    have hmem : f.1 ∈ commit.paths := mem_map_of_mem hf
    simp [hmem]
  rw [fetch, fetch, filter_append, hown, nil_append, filter_filter]
  congr 1
  refine filter_congr fun f _ => ?_
  by_cases hmem : f.1 ∈ commit.paths <;> simp [hmem]

variable {ix root repo}

variable {blocked : List Path} {files : Files} {sha : Text}

lemma indexRound_of_kept (h : rel ++ [packYamlFile] ∈ files.paths ∨ rel ∈ blocked) :
    indexRound ix root repo sha blocked files rel =
      (files, foundPack ix root repo sha files rel (packName ix repo files rel)
        (decide (rel ++ [packYamlFile] ∈ files.paths))) := by
  have hkept : decide (rel ++ [packYamlFile] ∈ files.paths) = true ∨ rel ∈ blocked :=
    h.imp_left decide_eq_true
  rw [indexRound, if_pos hkept]

/-- Where no file is written, the rounds do not depend on each other. -/
lemma indexPacks_of_kept {rels : List Path}
    (h : ∀ rel ∈ rels, rel ++ [packYamlFile] ∈ files.paths ∨ rel ∈ blocked) :
    indexPacks ix root repo sha blocked files rels =
      (files, rels.map fun rel => foundPack ix root repo sha files rel (packName ix repo files rel)
        (decide (rel ++ [packYamlFile] ∈ files.paths))) := by
  induction rels with
  | nil => rfl
  | cons rel rels ih =>
    obtain ⟨hrel, hrels⟩ := forall_mem_cons.1 h
    simp only [indexPacks, indexRound_of_kept hrel, ih hrels, map_cons]

lemma hadYaml_of_verified {name : Text} {hadYaml : Bool}
    (h : (foundPack ix root repo sha files rel name hadYaml).facts.verified = true) :
    hadYaml = true := by
  simp only [foundPack, indexPack, Bool.and_eq_true] at h
  exact h.2

def foundPacks (ix : Indexer) (root : Text) (repo : SyncedRepo) (sha : Text) (files : Files) :
    List FoundPack :=
  (findPackRoots ix files).map fun rel =>
    foundPack ix root repo sha files rel (packName ix repo files rel)
      (decide (rel ++ [packYamlFile] ∈ files.paths))

lemma foundPacks_nodup
    (h : ((findPackRoots ix files).map (packName ix repo files)).Nodup) :
    ((foundPacks ix root repo sha files).map upsertPacks.docKey).Nodup := by
  have hkeys : (foundPacks ix root repo sha files).map upsertPacks.docKey =
      ((findPackRoots ix files).map (packName ix repo files)).map fun name =>
        (some repo.id, name) := by
    simp [foundPacks, upsertPacks, foundPack]
  rw [hkeys]
  exact h.map fun a b hab => (Prod.mk.inj hab).2

lemma syncRepo_of_kept {s : Checkout}
    (h : ∀ rel ∈ findPackRoots ix (fetch commit s.tree),
      rel ++ [packYamlFile] ∈ (fetch commit s.tree).paths ∨ rel ∈ blocked) :
    syncRepo ix root repo sha commit blocked s =
      { tree := { tracked := commit.paths, files := fetch commit s.tree }
        packs := upsertPacks.load (foundPacks ix root repo sha (fetch commit s.tree))
          s.packs } := by
  simp only [syncRepo, indexPacks_of_kept h, foundPacks]

/-- Syncing a commit again changes nothing when no sync gives a pack a `pack.yaml`: each pack found
after the fetch has its file in the commit, or none at all and none that can be written. Then every
sync leaves the clone and the rows that the first one left, and a pack's row is verified only if its
`pack.yaml` is in the commit. -/
theorem resync_changes_nothing (ix : Indexer) (root : Text) (repo : SyncedRepo) (sha : Text)
    (commit : Files) (blocked : ℕ → List Path) (s : Checkout)
    (hnames : ((findPackRoots ix (fetch commit s.tree)).map
      (packName ix repo (fetch commit s.tree))).Nodup)
    (hyaml : ∀ rel ∈ findPackRoots ix (fetch commit s.tree), rel ++ [packYamlFile] ∈ commit.paths ∨
      rel ++ [packYamlFile] ∉ (fetch commit s.tree).paths ∧ ∀ n, rel ∈ blocked n) (n : ℕ) :
    (resync ix root repo sha commit blocked s (n + 1)).packs =
      (resync ix root repo sha commit blocked s 1).packs ∧
    ∀ rel ∈ findPackRoots ix (fetch commit s.tree),
      ∃ row, upsertPacks.find (some repo.id, packName ix repo (fetch commit s.tree) rel)
        (resync ix root repo sha commit blocked s (n + 1)).packs.rows = some row ∧
        row.facts.sourcePath = packPath root repo rel ∧
        (row.facts.verified = true → rel ++ [packYamlFile] ∈ commit.paths) := by
  have hkept : ∀ n, ∀ rel ∈ findPackRoots ix (fetch commit s.tree),
      rel ++ [packYamlFile] ∈ (fetch commit s.tree).paths ∨ rel ∈ blocked n := by
    intro n rel hrel
    exact (hyaml rel hrel).imp mem_paths_fetch fun h => h.2 n
  have hfound :
      ((foundPacks ix root repo sha (fetch commit s.tree)).map upsertPacks.docKey).Nodup :=
    foundPacks_nodup hnames
  -- every sync after the first finds the tree and the rows as it would leave them
  have hsame : ∀ n, resync ix root repo sha commit blocked s (n + 1) =
      { tree := { tracked := commit.paths, files := fetch commit s.tree }
        packs := upsertPacks.load (foundPacks ix root repo sha (fetch commit s.tree))
          s.packs } := by
    intro n
    induction n with
    | zero => exact syncRepo_of_kept (hkept 0)
    | succ n ih =>
      rw [resync, ih, syncRepo_of_kept (by rw [fetch_fetch]; exact hkept (n + 1)), fetch_fetch,
        Upsert.load_load_of_nodup hfound upsertPacks_update_update upsertPacks_update_create]
  refine ⟨by rw [hsame n, hsame 0], ?_⟩
  intro rel hrel
  rw [hsame n]
  have hmem : foundPack ix root repo sha (fetch commit s.tree) rel
      (packName ix repo (fetch commit s.tree) rel)
      (decide (rel ++ [packYamlFile] ∈ (fetch commit s.tree).paths)) ∈
      foundPacks ix root repo sha (fetch commit s.tree) := mem_map_of_mem hrel
  obtain ⟨row, hrow, hmade⟩ := Upsert.find_load_of_nodup hfound s.packs hmem
  have hfacts : row.facts = (foundPack ix root repo sha (fetch commit s.tree) rel
      (packName ix repo (fetch commit s.tree) rel)
      (decide (rel ++ [packYamlFile] ∈ (fetch commit s.tree).paths))).facts := by
    obtain ⟨r₀, rfl⟩ | ⟨id, rfl⟩ := hmade <;> rfl
  refine ⟨row, hrow, by rw [hfacts]; rfl, ?_⟩
  intro hverified
  rw [hfacts] at hverified
  have hhad := of_decide_eq_true (hadYaml_of_verified hverified)
  exact (hyaml rel hrel).elim id fun h => absurd hhad h.1

/-! ### A pack with and without its file -/

/-- An indexer that finds nothing to complain about. Without the worker's package, `parse_pack_yaml`
is not there and every `pack.yaml` reads as empty. -/
def lenientIndexer : Indexer where
  host :=
    { strip := id, lower := id, int := fun _ => none, repr := id, isDigit := Char.isDigit
      realpath := id, pathParser := id }
  lint _ _ := {}
  parsePackYaml _ := {}
  rawreplay _ := false
  parseConf _ := none
  reprRounded _ := []

def packsRepo : SyncedRepo :=
  { id := 7, url := "git@host:org/repo.git".toList, trustedCode := false }

/-- A commit of one pack, with its conf only. -/
def bareCommit : Files := [(["packs".toList, "web".toList] ++ confRelpath, "[web.log]".toList)]

/-- The same pack with a `pack.yaml` of its own. -/
def authoredCommit : Files :=
  (["packs", "web", packYamlFile], "name: web") :: bareCommit

def unsynced : Checkout :=
  { tree := { tracked := [], files := [] }, packs := { rows := [], next := 1 } }

theorem resync_changes_nothing_authored :
    (resync lenientIndexer "/clones" packsRepo "c0ffee" authoredCommit (fun _ => [])
      unsynced 3).packs =
    (resync lenientIndexer "/clones" packsRepo "c0ffee" authoredCommit (fun _ => [])
      unsynced 1).packs :=
  have hyaml : ∀ rel ∈ findPackRoots lenientIndexer (fetch authoredCommit unsynced.tree),
      rel ++ [packYamlFile] ∈ authoredCommit.paths := by decide
  (resync_changes_nothing lenientIndexer "/clones".toList packsRepo "c0ffee".toList authoredCommit
    (fun _ => []) unsynced (by decide) (fun rel hrel => .inl (hyaml rel hrel)) 2).1

/-- The first sync of a pack without a `pack.yaml` leaves it unverified and writes the file; the
second takes the file for the author's. -/
theorem resync_verifies_bare_pack :
    (resync lenientIndexer "/clones" packsRepo "c0ffee" bareCommit (fun _ => [])
      unsynced 1).packs.rows.map (fun r => (r.facts.name, r.facts.verified)) =
        [("web".toList, false)] ∧
    (resync lenientIndexer "/clones" packsRepo "c0ffee" bareCommit (fun _ => [])
      unsynced 2).packs.rows.map (fun r => (r.facts.name, r.facts.verified)) =
        [("web".toList, true)] ∧
    ["packs".toList, "web".toList, packYamlFile] ∉ bareCommit.paths := by
  refine ⟨?_, ?_, ?_⟩ <;> decide

end Indexing

end Stoker
