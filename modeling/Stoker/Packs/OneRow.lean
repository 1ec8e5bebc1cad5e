import Stoker.Packs.Index

/-!
# One row for a name

`_upsert_pack` finds the row of a pack by its repo and name, and the session does not flush between
two packs: of the packs of one sync that claim a name without a row, each gets a row of its own.
-/

open List

namespace Stoker

open Sessions

/-- At most one row for a repo and a name. -/
def OneRowEach (packs : Table PackRecord) : Prop :=
  ∀ id name, packs.rows.countP (upsertPacks.rowKey · = (some id, name)) ≤ 1

/-- A sync: the commit that it fetches, and the packs whose `pack.yaml` it cannot write. -/
structure SyncRound where
  sha : Text
  commit : Files
  blocked : List Path

section Syncs

variable (ix : Indexer) (root : Text) (repo : SyncedRepo)

def syncs (rounds : List SyncRound) (s : Checkout) : Checkout :=
  rounds.foldl (fun s r => syncRepo ix root repo r.sha r.commit r.blocked s) s

/-- No two packs of a tree claim a name that has no row. -/
def NewNamesDistinct (files : Files) (packs : Table PackRecord) : Prop :=
  ∀ name, upsertPacks.find (some repo.id, name) packs.rows = none →
    (findPackRoots ix files).countP (packName ix repo files · = name) ≤ 1

variable {ix root repo}

lemma findPackRoots_nodup (files : Files) : (findPackRoots ix files).Nodup := by
  refine Nodup.filter _ (nodup_cons.2 ⟨by simp, Nodup.map (fun a b h => ?_) ?_⟩)
  · simpa using h
  · exact (perm_insertionSort _ _).nodup_iff.2 (nodup_dedup _)

variable {files : Files} {sha : Text} {blocked : List Path}

lemma packName_synthesise {rel rel' : Path} (h : rel' ≠ rel) :
    packName ix repo (synthesisePackYaml ix root repo files rel) rel' =
      packName ix repo files rel' := by
  have hread : (synthesisePackYaml ix root repo files rel).read (rel' ++ [packYamlFile]) =
      files.read (rel' ++ [packYamlFile]) := by
    have hne : (rel' ++ [packYamlFile] == rel ++ [packYamlFile]) = false := by simp [h]
    simp [synthesisePackYaml, Files.read, lookup_append, lookup_cons, hne]
  rw [packName, packName, packYaml, hread, packYaml]

lemma indexPacks_names {rels : List Path} (h : rels.Nodup) :
    (indexPacks ix root repo sha blocked files rels).2.map upsertPacks.docKey =
      rels.map fun rel => (some repo.id, packName ix repo files rel) := by
  induction rels generalizing files with
  | nil => rfl
  | cons rel rels ih =>
    obtain ⟨hrel, hrels⟩ := nodup_cons.1 h
    rw [indexPacks, map_cons, map_cons, ih hrels]
    refine congrArg _ (map_congr_left fun rel' hrel' => ?_)
    have hne : rel' ≠ rel := fun he => hrel (he ▸ hrel')
    rw [indexRound]
    split_ifs
    · rfl
    · rw [packName_synthesise hne]

/-- A sync leaves one row for each name exactly when the names it gives new rows to are
different. -/
lemma oneRowEach_syncRepo_iff {s : Checkout} {commit : Files} (h : OneRowEach s.packs) :
    OneRowEach (syncRepo ix root repo sha commit blocked s).packs ↔
      NewNamesDistinct ix repo (fetch commit s.tree) s.packs := by
  set files := fetch commit s.tree with hfiles
  have hcount : ∀ key,
      (syncRepo ix root repo sha commit blocked s).packs.rows.countP (upsertPacks.rowKey · = key) =
        if (upsertPacks.find key s.packs.rows).isSome
          then s.packs.rows.countP (upsertPacks.rowKey · = key)
        else (findPackRoots ix files).countP fun rel => (some repo.id, packName ix repo files rel) =
          key := by
    intro key
    have hnames : (indexPacks ix root repo sha blocked files (findPackRoots ix files)).2.map
        upsertPacks.docKey = (findPackRoots ix files).map fun rel =>
          (some repo.id, packName ix repo files rel) := indexPacks_names (findPackRoots_nodup files)
    have hsame := congrArg (countP (· = key)) hnames
    rw [countP_map, countP_map] at hsame
    refine (Upsert.countP_rowKey_load key _ s.packs).trans ?_
    exact congrArg (ite _ _) hsame
  constructor
  · intro hone name hname
    have hrow := hone repo.id name
    rw [hcount, hname, if_neg (by simp)] at hrow
    simpa using hrow
  · intro hnew id name
    rw [hcount]
    split_ifs with hname
    · exact h id name
    · by_cases hid : repo.id = id
      · subst hid
        simpa using hnew name (by simpa using hname)
      · simp [hid]

/-- Along syncs from a table with one row for each name, the tables keep one row for each name
exactly when in every sync the names of packs without a row are different. -/
theorem syncs_oneRowEach_iff (rounds : List SyncRound) (s : Checkout) (h : OneRowEach s.packs) :
    (∀ done, done <+: rounds → OneRowEach (syncs ix root repo done s).packs) ↔
      ∀ done round, done ++ [round] <+: rounds →
        NewNamesDistinct ix repo (fetch round.commit (syncs ix root repo done s).tree)
          (syncs ix root repo done s).packs := by
  have hstep : ∀ done round, OneRowEach (syncs ix root repo done s).packs →
      (OneRowEach (syncs ix root repo (done ++ [round]) s).packs ↔
        NewNamesDistinct ix repo (fetch round.commit (syncs ix root repo done s).tree)
          (syncs ix root repo done s).packs) := by
    intro done round hdone
    rw [syncs, foldl_append]
    exact oneRowEach_syncRepo_iff hdone
  constructor
  · intro hall done round hprefix
    have hdone : done <+: rounds := (prefix_append _ _).trans hprefix
    exact (hstep done round (hall done hdone)).1 (hall _ hprefix)
  · intro hall done hdone
    induction done using List.reverseRecOn with
    | nil => exact h
    | append_singleton done round ih =>
      exact (hstep done round (ih ((prefix_append _ _).trans hdone))).2 (hall done round hdone)

/-- A commit of two packs. -/
def twinCommit : Files :=
  [(["packs".toList, "a".toList] ++ confRelpath, "[a.log]".toList),
    (["packs", "a", packYamlFile], "name: web"),
    (["packs".toList, "b".toList] ++ confRelpath, "[b.log]".toList),
    (["packs", "b", packYamlFile], "name: web")]

/-- What `parse_pack_yaml` reads in `name: web`. -/
def webIndexer : Indexer :=
  { lenientIndexer with
    parsePackYaml := fun text => if text = "name: web" then { name := some "web" } else {} }

theorem syncs_oneRowEach_iff_authored :
    OneRowEach (syncs webIndexer "/clones" packsRepo [⟨"c0ffee", authoredCommit, []⟩]
      unsynced).packs := by
  refine (syncs_oneRowEach_iff _ unsynced fun id name => Nat.zero_le 1).2
    (fun done round hdone => ?_) _
    prefix_rfl
  obtain ⟨rfl, rfl⟩ : done = [] ∧ round = ⟨"c0ffee", authoredCommit, []⟩ := by
    cases done with
    | nil => simpa using hdone
    | cons r done => simp at hdone
  have hroots : findPackRoots webIndexer (fetch authoredCommit unsynced.tree) =
      [["packs".toList, "web".toList]] := by decide
  intro name _
  exact (congrArg (countP _) hroots).trans_le countP_le_length

/-- Two packs of one name in the first commit of a repo get a row each. -/
theorem syncs_twin_rows :
    ¬ OneRowEach (syncs webIndexer "/clones" packsRepo [⟨"c0ffee", twinCommit, []⟩]
      unsynced).packs := by
  intro h
  exact absurd (h 7 "web".toList) (by decide)

end Syncs

end Stoker
