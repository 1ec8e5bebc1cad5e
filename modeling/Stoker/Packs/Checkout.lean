import Mathlib.Logic.Function.Basic
import Stoker.Transition.Runs
import Stoker.Packs.Conf

/-!
# The tree a bundle is built from

A sync moves the clone of a repo (`clone_or_fetch`), indexes the packs it finds in the working tree
and commits their rows; each row keeps the commit and the directory of the pack in the clone. A
launch builds its bundle from a snapshot of that commit: `resolve_pack_dir` takes the snapshot from
disk, or else has git archive the commit, removes what is in the way and renames the new tree into
place. The sub-path of the pack is read off the directory in the row (`_pack_relpath`). When
anything fails, `_pack_build_dir` falls back to the clone, "so a build is never blocked".

Launches and syncs interleave at any step, and a git command may leave any tree in a clone. A commit
stands for the files that git archives of it.
-/

namespace Stoker

open Transition

/-- A checked-out tree: the files under each sub-path, and the directories in `packs/`. -/
structure Tree (F : Type) where
  files : Text → F
  entries : List Text
  flat : ∀ e ∈ entries, '/' ∉ e := by decide

/-- The clone directory, what git archives of each commit, and what the server makes of the files of
a directory: whether they are a pack, whether they lint, and the pack's name. -/
structure Repos (F : Type) where
  root : Text
  tree : ℕ → Tree F
  present : F → Bool
  lints : F → Bool
  name : ℕ → Text → F → Text

/-- A row of a repo pack: the directory in the clone and the commit that were indexed, and the
sub-path of that directory, which `index_packs` has at hand but does not store. -/
structure PackRow where
  repo : ℕ
  name : Text
  sourcePath : Text
  sha : ℕ
  rel : Text
  deriving DecidableEq

variable {F : Type}

namespace Repos

def cloneDir (env : Repos F) (repo : ℕ) : Text := joinPath env.root (Nat.toDigits 10 repo)

def packDir (env : Repos F) (repo : ℕ) (rel : Text) : Text :=
  if rel = [] then env.cloneDir repo else joinPath (env.cloneDir repo) rel

/-- `_find_pack_roots`, as sub-paths. -/
def packRoots (env : Repos F) (tree : Tree F) : List Text :=
  ([] :: tree.entries.map ("packs/".toList ++ ·)).filter fun rel => env.present (tree.files rel)

def indexRows (env : Repos F) (repo sha : ℕ) (tree : Tree F) : List PackRow :=
  (env.packRoots tree).map fun rel =>
    { repo, name := env.name repo rel (tree.files rel), sourcePath := env.packDir repo rel, sha,
      rel }

end Repos

/-- `_upsert_pack`: rows are told apart by repo and name. -/
def upsertPack (rows : List PackRow) (row : PackRow) : List PackRow :=
  if rows.any fun r => r.repo = row.repo ∧ r.name = row.name then
    rows.map fun r => if r.repo = row.repo ∧ r.name = row.name then row else r
  else rows ++ [row]

/-! ### The sub-path of a pack -/

/-- What `rfind` finds: the text from the last occurrence on. -/
def fromLast (marker : Text) : Text → Option Text
  | [] => none
  | c :: t => (fromLast marker t).or (if marker.isPrefixOf (c :: t) then some (c :: t) else none)

def packsMarker : Text := "/packs/"

def packRelpath (sourcePath : Text) : Text :=
  match fromLast packsMarker sourcePath with
  | some t => t.drop 1
  | none => []

/-! ### Syncs and launches -/

/-- Where a sync is: the commit it resolved, then the rows of its session. -/
inductive SyncAt where
  | idle
  | moved (repo sha : ℕ)
  | indexed (rows : List PackRow)

/-- Why there is no snapshot to build from. -/
inductive Fault where
  | repoGone
  | cloneMissing
  | gitFailed
  | destTaken
  | notFound
  deriving DecidableEq

/-- Where a launch is. It builds from the snapshot, or after a fault from the clone. -/
inductive LaunchAt (F : Type) where
  | looking (row : PackRow)
  | archiving (row : PackRow)
  | archived (row : PackRow)
  | clearing (row : PackRow)
  | replacing (row : PackRow)
  | checking (row : PackRow)
  | building (row : PackRow) (fault : Option Fault)
  | built (row : PackRow) (fault : Option Fault) (files : F)
  | failed (row : PackRow)
  deriving DecidableEq

structure Clone (F : Type) where
  head : ℕ
  tree : Tree F

structure Checkouts (F : Type) where
  clones : ℕ → Option (Clone F)
  snapshots : ℕ × ℕ → Option (Tree F)
  rows : List PackRow
  gone : List ℕ
  syncs : ℕ → SyncAt
  launches : List (LaunchAt F)

/-- The steps of `resolve_pack_dir` and of the build. `clear` is `rmtree` at work, which leaves any
tree until it is done. -/
inductive LaunchAct (F : Type) where
  | look
  | archive (ok : Bool)
  | lookDest
  | clear (rest : Tree F)
  | cleared
  | replace
  | check
  | build

inductive CheckoutAction (F : Type) where
  | move (repo : ℕ) (clone : Option (Clone F))
  | resolve (sync repo : ℕ)
  | index (sync : ℕ)
  | commit (sync : ℕ)
  | register (repo : ℕ)
  | remove (repo : ℕ)
  | begin (repo : ℕ) (name : Text)
  | launch (l : ℕ) (act : LaunchAct F)

/-- The snapshot of a row, by repo and commit. -/
def PackRow.key (row : PackRow) : ℕ × ℕ := (row.repo, row.sha)

namespace Checkouts

def snapshotFiles (s : Checkouts F) (row : PackRow) : Option F :=
  (s.snapshots row.key).map fun t => t.files (packRelpath row.sourcePath)

def liveFiles (s : Checkouts F) (row : PackRow) : Option F :=
  (s.clones row.repo).map fun c => c.tree.files row.rel

/-- `_pack_present` of the pack's directory in its snapshot. -/
def packPresent (env : Repos F) (s : Checkouts F) (row : PackRow) : Bool :=
  (s.snapshotFiles row).any env.present

end Checkouts

namespace LaunchAt

/-- What a step makes of the launch that takes it. -/
def next (env : Repos F) (s : Checkouts F) : LaunchAct F → LaunchAt F → LaunchAt F
  | .look, looking row =>
    if row.repo ∈ s.gone then building row (some .repoGone)
    else if (s.clones row.repo).isNone then building row (some .cloneMissing)
    else if s.packPresent env row then building row none
    else archiving row
  | .archive ok, archiving row => if ok then archived row else building row (some .gitFailed)
  | .lookDest, archived row =>
    if (s.snapshots row.key).isSome then clearing row else replacing row
  | .cleared, clearing row => replacing row
  | .replace, replacing row =>
    if (s.snapshots row.key).isSome then building row (some .destTaken) else checking row
  | .check, checking row =>
    building row (if s.packPresent env row then none else some .notFound)
  | .build, building row fault =>
    match if fault = none then s.snapshotFiles row else s.liveFiles row with
    | some files => if env.lints files then built row fault files else failed row
    | none => failed row
  | _, x => x

def effect (env : Repos F) (snapshots : ℕ × ℕ → Option (Tree F)) :
    LaunchAct F → LaunchAt F → ℕ × ℕ → Option (Tree F)
  | .clear rest, clearing row => Function.update snapshots row.key (some rest)
  | .cleared, clearing row => Function.update snapshots row.key none
  | .replace, replacing row =>
    if (snapshots row.key).isSome then snapshots
    else Function.update snapshots row.key (some (env.tree row.sha))
  | _, _ => snapshots

def row : LaunchAt F → PackRow
  | looking row | archiving row | archived row | clearing row | replacing row | checking row
  | building row _ | built row _ _ | failed row => row

/-- The snapshot that a launch is removing. -/
def clears : LaunchAt F → Option (ℕ × ℕ)
  | clearing row => some row.key
  | _ => none

end LaunchAt

namespace Checkouts

def step (env : Repos F) : CheckoutAction F → Checkouts F → Checkouts F
  | .move repo clone, s => { s with clones := Function.update s.clones repo clone }
  | .resolve sync repo, s =>
    match s.clones repo with
    | some c => { s with syncs := Function.update s.syncs sync (.moved repo c.head) }
    | none => s
  | .index sync, s =>
    match s.syncs sync with
    | .moved repo sha =>
      let rows := match s.clones repo with
        | some c => env.indexRows repo sha c.tree
        | none => []
      { s with syncs := Function.update s.syncs sync (.indexed rows) }
    | _ => s
  | .commit sync, s =>
    match s.syncs sync with
    | .indexed rows =>
      { s with rows := rows.foldl upsertPack s.rows, syncs := Function.update s.syncs sync .idle }
    | _ => s
  | .register repo, s => { s with gone := s.gone.filter (· ≠ repo) }
  | .remove repo, s =>
    { s with rows := s.rows.filter (·.repo ≠ repo), gone := repo :: s.gone }
  | .begin repo name, s =>
    match s.rows.find? fun r => r.repo = repo ∧ r.name = name with
    | some row => { s with launches := s.launches ++ [.looking row] }
    | none => s
  | .launch l act, s =>
    match s.launches[l]? with
    | some x =>
      { s with snapshots := x.effect env s.snapshots act
               launches := s.launches.set l (x.next env s act) }
    | none => s

/-- Nothing is cloned, indexed or launched. -/
def start : Checkouts F where
  clones _ := none
  snapshots _ := none
  rows := []
  gone := []
  syncs _ := .idle
  launches := []

end Checkouts

end Stoker
