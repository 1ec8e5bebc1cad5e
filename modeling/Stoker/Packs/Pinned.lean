import Stoker.Packs.Checkout

/-!
# Bundles of indexed commits

A bundle built from a snapshot holds the files of the commit in the row, at the sub-path where the
pack was indexed. Two things must not happen. The sub-path is read off the last `/packs/` in the
directory of the row, so a pack at the root of its repo is looked for in the wrong place when the
clone itself lies in a directory called `packs`. And a launch that finds a snapshot in its way
removes it first, although another launch may be building from it.

After a fault the bundle holds what is in the clone, whatever commit that is.
-/

open List

namespace Stoker

open Transition

variable {F : Type} {env : Repos F}

/-! ### Reading the sub-path back -/

variable {t : Text} {rows : List PackRow} {r : PackRow} {f : Fault} {l : ℕ} {fault : Option Fault}
  {files : F}

lemma fromLast_cons_of_ne {c : Char} (hc : c ≠ '/') :
    fromLast packsMarker (c :: t) = fromLast packsMarker t := by
  have hno : packsMarker.isPrefixOf (c :: t) = false := by
    show ('/' == c && "packs/".toList.isPrefixOf t) = false
    rw [beq_eq_false_iff_ne.mpr (Ne.symm hc), Bool.false_and]
  simp [fromLast, hno]

lemma fromLast_of_flat (ht : '/' ∉ t) : fromLast packsMarker t = none := by
  induction t with
  | nil => rfl
  | cons c t ih =>
    rw [mem_cons, not_or] at ht
    rw [fromLast_cons_of_ne (Ne.symm ht.1), ih ht.2]

lemma fromLast_append {marker u : Text} (d : Text) (h : fromLast marker t = some u) :
    fromLast marker (d ++ t) = some u := by
  induction d with
  | nil => exact h
  | cons c d ih => simp [fromLast, ih]

lemma fromLast_entry {e : Text} (he : '/' ∉ e) :
    fromLast packsMarker ('/' :: ("packs/" ++ e)) = some ('/' :: ("packs/" ++ e)) := by
  have hname : fromLast packsMarker ('/' :: e) = none := by
    have hno : packsMarker.isPrefixOf ('/' :: e) = false := by
      rw [Bool.eq_false_iff]
      intro h
      obtain ⟨u, hu⟩ := isPrefixOf_iff_prefix.mp h
      apply he
      have htail : e = "packs/" ++ u := (cons.inj hu).2.symm
      rw [htail]
      exact mem_append_left _ (by decide)
    simp [fromLast, fromLast_of_flat he, hno]
  have hrest : fromLast packsMarker ("packs/" ++ e) = none := by
    show fromLast packsMarker ('p' :: 'a' :: 'c' :: 'k' :: 's' :: '/' :: e) = none
    repeat rw [fromLast_cons_of_ne (by decide)]
    exact hname
  have hyes : packsMarker.isPrefixOf ('/' :: ("packs/" ++ e)) = true :=
    isPrefixOf_iff_prefix.mpr ⟨e, rfl⟩
  simp only [fromLast, hrest, Option.none_or]
  rw [if_pos hyes]

lemma joinPath_eq (base path : Text) : ∃ d, joinPath base path = d ++ '/' :: path := by
  unfold joinPath
  split
  · rename_i hlast
    obtain ⟨d, rfl⟩ := getLast?_eq_some_iff.mp hlast
    exact ⟨d, by simp⟩
  · exact ⟨base, rfl⟩

namespace PackRow

/-- What indexing makes of a row. -/
def Filed (env : Repos F) (row : PackRow) : Prop :=
  row.sourcePath = env.packDir row.repo row.rel ∧
    (row.rel = [] ∨ ∃ e, '/' ∉ e ∧ row.rel = "packs/" ++ e)

/-- The pack is not at the root of a repo whose clone lies in a directory called `packs`. -/
def Placed (env : Repos F) (row : PackRow) : Prop :=
  row.rel = [] → fromLast packsMarker (env.cloneDir row.repo) = none

lemma Filed.packRelpath_eq {row : PackRow} (h : row.Filed env) (hp : row.Placed env) :
    packRelpath row.sourcePath = row.rel := by
  obtain ⟨hpath, hroot | ⟨e, he, hrel⟩⟩ := h
  · rw [hpath, Repos.packDir, if_pos hroot, packRelpath, hp hroot, hroot]
  · have hne : row.rel ≠ [] := by rw [hrel]; exact cons_ne_nil _ _
    obtain ⟨d, hd⟩ := joinPath_eq (env.cloneDir row.repo) row.rel
    rw [hpath, Repos.packDir, if_neg hne, hd, packRelpath, hrel,
      fromLast_append d (fromLast_entry he)]
    rfl

end PackRow

variable {row : PackRow} {s : Checkouts F}

lemma Repos.filed_of_mem_indexRows {repo sha : ℕ} {tree : Tree F}
    (h : row ∈ env.indexRows repo sha tree) : row.Filed env := by
  obtain ⟨rel, hrel, rfl⟩ := mem_map.mp h
  refine ⟨rfl, ?_⟩
  rcases mem_cons.mp (mem_filter.mp hrel).1 with hroot | hentry
  · exact .inl hroot
  · obtain ⟨e, he, rfl⟩ := mem_map.mp hentry
    exact .inr ⟨e, tree.flat e he, rfl⟩

lemma mem_upsertPack (h : r ∈ upsertPack rows row) :
    r ∈ rows ∨ r = row := by
  unfold upsertPack at h
  split at h
  · obtain ⟨r', hr', rfl⟩ := mem_map.mp h
    split
    · exact .inr rfl
    · exact .inl hr'
  · simpa using h

lemma mem_foldl_upsertPack {news : List PackRow} (h : r ∈ news.foldl upsertPack rows) :
    r ∈ rows ∨ r ∈ news := by
  induction news generalizing rows with
  | nil => exact .inl h
  | cons row news ih =>
    rcases ih h with hmem | hmem
    · rcases mem_upsertPack hmem with hrow | rfl
      · exact .inl hrow
      · exact .inr mem_cons_self
    · exact .inr (mem_cons_of_mem _ hmem)

/-! ### What every run keeps -/

variable {act : LaunchAct F} {x : LaunchAt F}

namespace LaunchAt

lemma next_row (s : Checkouts F) (act : LaunchAct F) (x : LaunchAt F) :
    (x.next env s act).row = x.row := by
  unfold next
  split
  · split_ifs <;> rfl
  · split_ifs <;> rfl
  · split_ifs <;> rfl
  · rfl
  · split_ifs <;> rfl
  · rfl
  · split
    · split_ifs <;> rfl
    · rfl
  · rfl

variable {k : ℕ × ℕ}

/-- A launch goes on removing a snapshot until it is done. -/
lemma next_clears {s : Checkouts F}
    (hact : act ≠ .cleared) (h : x.clears = some k) : (x.next env s act).clears = some k := by
  cases x with
  | clearing row =>
    cases act with
    | cleared => exact absurd rfl hact
    | _ => exact h
  | _ => cases h

/-- A tree that is there after a step was there before it, is what the launch leaves while it
removes a snapshot, or is the commit. -/
lemma effect_some {snapshots : ℕ × ℕ → Option (Tree F)} {tree : Tree F}
    (h : x.effect env snapshots act k = some tree) :
    (snapshots k = some tree ∧ (act ≠ .cleared ∨ x.clears ≠ some k)) ∨
    (act ≠ .cleared ∧ x.clears = some k) ∨ tree = env.tree k.2 := by
  unfold effect at h
  split at h
  · rename_i rest row
    by_cases hk : k = row.key
    · exact .inr (.inl ⟨by simp, by rw [hk]; rfl⟩)
    · rw [Function.update_of_ne hk] at h
      exact .inl ⟨h, .inl (by simp)⟩
  · rename_i row
    by_cases hk : k = row.key
    · rw [hk, Function.update_self] at h
      cases h
    · rw [Function.update_of_ne hk] at h
      refine .inl ⟨h, .inr ?_⟩
      simpa [clears] using Ne.symm hk
  · rename_i row
    split_ifs at h with htaken
    · exact .inl ⟨h, .inl (by simp)⟩
    · by_cases hk : k = row.key
      · rw [hk, Function.update_self] at h
        rw [hk]
        exact .inr (.inr (Option.some.inj h).symm)
      · rw [Function.update_of_ne hk] at h
        exact .inl ⟨h, .inl (by simp)⟩
  · rename_i hcleared _
    refine .inl ⟨h, ?_⟩
    by_contra hno
    rw [not_or, not_not, not_not] at hno
    cases x with
    | clearing row => exact hcleared row hno.1 rfl
    | _ => cases hno.2

lemma exists_clears_set {launches : List (LaunchAt F)} {l : ℕ} {x' : LaunchAt F}
    (hx : launches[l]? = some x) (hkeep : x.clears = some k → x'.clears = some k)
    (h : ∃ y ∈ launches, y.clears = some k) : ∃ y ∈ launches.set l x', y.clears = some k := by
  obtain ⟨y, hy, hyk⟩ := h
  obtain ⟨i, hi⟩ := mem_iff_getElem?.mp hy
  have hl : l < launches.length := (List.getElem?_eq_some_iff.mp hx).1
  by_cases hil : i = l
  · subst hil
    rw [hx] at hi
    cases hi
    exact ⟨x', mem_set hl x', hkeep hyk⟩
  · refine ⟨y, mem_iff_getElem?.mpr ⟨i, ?_⟩, hyk⟩
    rw [getElem?_set_ne (Ne.symm hil)]
    exact hi

end LaunchAt

namespace Checkouts

lemma step_cases (s : Checkouts F) (a : CheckoutAction F) :
    (∃ l act x, a = .launch l act ∧ s.launches[l]? = some x ∧
      (s.step env a).snapshots = x.effect env s.snapshots act ∧
      (s.step env a).launches = s.launches.set l (x.next env s act)) ∨
    ((s.step env a).snapshots = s.snapshots ∧
      ((s.step env a).launches = s.launches ∨
        ∃ row ∈ s.rows, (s.step env a).launches = s.launches ++ [.looking row])) := by
  cases a with
  | launch l act =>
    simp only [Checkouts.step]
    split
    · rename_i x hx
      exact .inl ⟨l, act, x, rfl, hx, rfl, rfl⟩
    · exact .inr ⟨rfl, .inl rfl⟩
  | begin repo name =>
    simp only [Checkouts.step]
    split
    · rename_i row hrow
      exact .inr ⟨rfl, .inr ⟨row, mem_of_find?_eq_some hrow, rfl⟩⟩
    · exact .inr ⟨rfl, .inl rfl⟩
  | resolve sync repo | index sync | commit sync =>
    simp only [Checkouts.step]
    split <;> exact .inr ⟨rfl, .inl rfl⟩
  | _ => exact .inr ⟨rfl, .inl rfl⟩

/-- Every snapshot is the whole commit, unless some launch is removing it. -/
def Whole (env : Repos F) (s : Checkouts F) : Prop :=
  ∀ k tree, s.snapshots k = some tree →
    (∃ x ∈ s.launches, x.clears = some k) ∨ tree = env.tree k.2

variable {s : Checkouts F}

lemma Whole.step (h : s.Whole env) (a : CheckoutAction F) :
    (s.step env a).Whole env := by
  intro k tree htree
  rcases s.step_cases a with ⟨l, act, x, -, hx, hsnapshots, hlaunches⟩ | ⟨hsnapshots, hlaunches⟩
  · rw [hsnapshots] at htree
    rw [hlaunches]
    have hl : l < s.launches.length := (List.getElem?_eq_some_iff.mp hx).1
    rcases LaunchAt.effect_some htree with ⟨hsnap, hkeep⟩ | ⟨hact, hk⟩ | hwhole
    · refine (h k tree hsnap).imp_left (LaunchAt.exists_clears_set hx ?_)
      intro hk
      exact LaunchAt.next_clears (hkeep.resolve_right (not_not.mpr hk)) hk
    · exact .inl ⟨_, mem_set hl _, LaunchAt.next_clears hact hk⟩
    · exact .inr hwhole
  · rw [hsnapshots] at htree
    refine (h k tree htree).imp_left ?_
    rintro ⟨x, hx, hk⟩
    refine ⟨x, ?_, hk⟩
    rcases hlaunches with heq | ⟨row, -, heq⟩
    · rwa [heq]
    · rw [heq]
      exact mem_append_left _ hx

/-- Every row, stored, pending or read by a launch, is one that indexing makes. -/
structure Filed (env : Repos F) (s : Checkouts F) : Prop where
  rows : ∀ row ∈ s.rows, row.Filed env
  syncs : ∀ y rows, s.syncs y = .indexed rows → ∀ row ∈ rows, row.Filed env
  launches : ∀ x ∈ s.launches, x.row.Filed env

lemma Filed.set_sync (h : s.Filed env) (sync : ℕ) {p : SyncAt}
    (hp : ∀ rows, p = .indexed rows → ∀ row ∈ rows, row.Filed env) :
    ({ s with syncs := Function.update s.syncs sync p } : Checkouts F).Filed env := by
  refine ⟨h.rows, ?_, h.launches⟩
  intro y rows hy
  by_cases hsync : y = sync
  · rw [hsync] at hy
    exact hp rows (by simpa using hy)
  · refine h.syncs y rows ?_
    simpa [Function.update_of_ne hsync] using hy

/-- The launches after a step have read rows that were stored or read before. -/
lemma Filed.step_launches (h : s.Filed env) (a : CheckoutAction F) :
    ∀ x ∈ (s.step env a).launches, x.row.Filed env := by
  intro x hx
  rcases s.step_cases a with ⟨l, act, y, -, hy, -, hlaunches⟩ | ⟨-,
    hlaunches | ⟨row, hrow, hlaunches⟩⟩
  · rw [hlaunches] at hx
    rcases mem_or_eq_of_mem_set hx with hold | rfl
    · exact h.launches x hold
    · rw [LaunchAt.next_row]
      exact h.launches y (mem_of_getElem? hy)
  · rw [hlaunches] at hx
    exact h.launches x hx
  · rw [hlaunches] at hx
    rcases mem_append.mp hx with hold | hnew
    · exact h.launches x hold
    · rw [mem_singleton.mp hnew]
      exact h.rows row hrow

lemma Filed.step (h : s.Filed env) (a : CheckoutAction F) :
    (s.step env a).Filed env := by
  have hlaunches := h.step_launches a
  cases a with
  | resolve sync repo =>
    simp only [Checkouts.step]
    split
    · exact h.set_sync sync (by rintro rows ⟨⟩)
    · exact h
  | index sync =>
    simp only [Checkouts.step]
    split
    · refine h.set_sync sync ?_
      rintro rows ⟨⟩ row hrow
      split at hrow
      · exact Repos.filed_of_mem_indexRows hrow
      · cases hrow
    · exact h
  | commit sync =>
    simp only [Checkouts.step]
    split
    · rename_i rows hrows
      have hidle := h.set_sync sync (p := .idle) (by rintro _ ⟨⟩)
      refine ⟨?_, hidle.syncs, hidle.launches⟩
      intro row hrow
      rcases mem_foldl_upsertPack hrow with hold | hnew
      · exact h.rows row hold
      · exact h.syncs sync rows hrows row hnew
    · exact h
  | remove repo => exact ⟨fun row hrow => h.rows row (mem_filter.mp hrow).1, h.syncs, h.launches⟩
  | begin repo name | launch l act =>
    refine ⟨?_, ?_, hlaunches⟩
    · simp only [Checkouts.step]
      split <;> exact h.rows
    · simp only [Checkouts.step]
      split <;> exact h.syncs
  | move repo clone | register repo => exact ⟨h.rows, h.syncs, h.launches⟩

lemma start_whole : (start : Checkouts F).Whole env := by
  rintro k tree ⟨⟩

lemma start_filed : (start : Checkouts F).Filed env := by
  refine ⟨?_, ?_, ?_⟩
  · rintro row ⟨⟩
  · rintro y rows ⟨⟩
  · rintro x ⟨⟩

end Checkouts

/-! ### Bundles -/

/-- The step of a launch that has this fault. -/
def Fault.Caused (env : Repos F) (s : Checkouts F) (row : PackRow) : Fault → LaunchAct F → Prop
  | repoGone, act => act = .look ∧ row.repo ∈ s.gone
  | cloneMissing, act => act = .look ∧ s.clones row.repo = none
  | gitFailed, act => act = .archive false
  | destTaken, act => act = .replace ∧ s.snapshots row.key ≠ none
  | notFound, act => act = .check ∧ s.packPresent env row = false

lemma LaunchAt.next_fault (h : x.next env s act = .building row (some f)) :
    x = .building row (some f) ∨ f.Caused env s row act := by
  unfold next at h
  split at h
  · split_ifs at h with hgone hclone hpresent
    · cases h
      exact .inr ⟨rfl, hgone⟩
    · cases h
      exact .inr ⟨rfl, Option.isNone_iff_eq_none.mp hclone⟩
    · cases h
  · split_ifs at h with hok
    cases h
    exact .inr (by simpa [Fault.Caused] using hok)
  · split_ifs at h
  · cases h
  · split_ifs at h with htaken
    cases h
    exact .inr ⟨rfl, Option.isSome_iff_ne_none.mp htaken⟩
  · split_ifs at h with hpresent
    · cases h
    · cases h
      exact .inr ⟨rfl, by simpa using hpresent⟩
  · split at h
    · split_ifs at h
    · cases h
  · exact .inl h

/-- A launch gets to build from the clone by a step of its own that has the fault. -/
lemma Checkouts.caused_of_step {a : CheckoutAction F}
    (hbefore : s.launches[l]? ≠ some (.building row (some f)))
    (hafter : (s.step env a).launches[l]? = some (.building row (some f))) :
    ∃ act, a = .launch l act ∧ f.Caused env s row act := by
  rcases s.step_cases a with ⟨l', act, x, rfl, hx, -, hlaunches⟩ | ⟨-,
    hlaunches | ⟨new, -, hlaunches⟩⟩
  · rw [hlaunches] at hafter
    by_cases hl : l' = l
    · subst hl
      rw [getElem?_set_self (List.getElem?_eq_some_iff.mp hx).1] at hafter
      refine ⟨act, rfl, (LaunchAt.next_fault (Option.some.inj hafter)).resolve_left ?_⟩
      rintro rfl
      exact hbefore hx
    · rw [getElem?_set_ne hl] at hafter
      exact absurd hafter hbefore
  · rw [hlaunches] at hafter
    exact absurd hafter hbefore
  · rw [hlaunches, getElem?_append] at hafter
    split at hafter
    · exact absurd hafter hbefore
    · have hmem := mem_of_getElem? hafter
      rw [mem_singleton] at hmem
      cases hmem

lemma LaunchAt.next_build (h : (building row fault).next env s .build = .built row fault files) :
    (if fault = none then s.snapshotFiles row else s.liveFiles row) = some files := by
  simp only [LaunchAt.next] at h
  split at h
  · rename_i found hfound
    split_ifs at h
    cases h
    exact hfound
  · cases h

theorem bundle_holds_commit_or_clone {t : Checkouts F} {actions : List (CheckoutAction F)}
    {row : PackRow} (h : Runs (Checkouts.step env) Always .start actions t)
    (hbuilding : t.launches[l]? = some (.building row fault))
    (hbuilt : (t.step env (.launch l .build)).launches[l]? = some (.built row fault files)) :
    (fault = none → row.Placed env → (∀ x ∈ t.launches, x.clears ≠ some row.key) →
      files = (env.tree row.sha).files row.rel) ∧
    ∀ f, fault = some f → t.liveFiles row = some files ∧
      ∃ before act after s, actions = before ++ .launch l act :: after ∧
        Runs (Checkouts.step env) Always .start before s ∧ f.Caused env s row act := by
  have hl : l < t.launches.length := (List.getElem?_eq_some_iff.mp hbuilding).1
  have hnext : (LaunchAt.building row fault).next env t .build = .built row fault files := by
    simp only [Checkouts.step, hbuilding] at hbuilt
    rw [getElem?_set_self hl] at hbuilt
    exact Option.some.inj hbuilt
  have hbundle := LaunchAt.next_build hnext
  constructor
  · intro hfault hplaced hquiet
    rw [if_pos hfault] at hbundle
    have hfiled : row.Filed env :=
      (h.invariant (fun a s _ hs => hs.step a) Checkouts.start_filed).launches _
        (mem_of_getElem? hbuilding)
    have hwhole : t.Whole env := h.invariant (fun a s _ hs => hs.step a) Checkouts.start_whole
    obtain ⟨tree, htree, rfl⟩ := Option.map_eq_some_iff.mp hbundle
    rcases hwhole _ tree htree with ⟨x, hx, hclears⟩ | rfl
    · exact absurd hclears (hquiet x hx)
    · rw [hfiled.packRelpath_eq hplaced]
      rfl
  · rintro f rfl
    refine ⟨hbundle, ?_⟩
    obtain ⟨before, a, after, s, rfl, hruns, hno, hyes⟩ :=
      h.exists_step (P := fun s => s.launches[l]? = some (.building row (some f)))
        (by simp [Checkouts.start]) hbuilding
    obtain ⟨act, rfl, hcaused⟩ := Checkouts.caused_of_step hno hyes
    exact ⟨before, act, after, s, rfl, hruns, hcaused⟩

/-! ### A repo with two commits -/

instance (row : PackRow) : Decidable (row.Placed env) := inferInstanceAs (Decidable (_ → _))

/-- A tree with a pack at the root, one in `packs/web` and one in `packs/7`; zero is no pack. -/
def treeOf (atRoot web seven : ℕ) : Tree ℕ where
  files rel :=
    if rel = [] then atRoot
    else if rel = "packs/web" then web
    else if rel = "packs/7" then seven
    else 0
  entries := ["7", "web"]

/-- Files are a pack unless they are zero, and a pack is named by its sub-path. -/
def reposAt (root : String) (first second : Tree ℕ) : Repos ℕ where
  root := root.toList
  tree sha := if sha = 1 then first else second
  present files := files ≠ 0
  lints files := files ≠ 0
  name _ rel _ := rel

/-- Commit 1 of repo 7 is synced; then the clone is moved to commit 2. -/
def syncThenMove (env : Repos ℕ) : List (CheckoutAction ℕ) :=
  [.move 7 (some ⟨1, env.tree 1⟩), .resolve 0 7, .index 0, .commit 0,
    .move 7 (some ⟨2, env.tree 2⟩)]

/-- A launch up to its build, when nothing is in its way. -/
def resolveSteps (l : ℕ) : List (CheckoutAction ℕ) :=
  [.launch l .look, .launch l (.archive true), .launch l .lookDest, .launch l .replace,
    .launch l .check]

def webRepos : Repos ℕ := reposAt "/data/repos" (treeOf 0 10 0) (treeOf 0 20 0)

def webRow : PackRow where
  repo := 7
  name := "packs/web"
  sourcePath := "/data/repos/7/packs/web"
  sha := 1
  rel := "packs/web"

def webResolved : Checkouts ℕ :=
  exec (Checkouts.step webRepos) .start
    (syncThenMove webRepos ++ [.begin 7 "packs/web"] ++ resolveSteps 0)

theorem bundle_holds_commit_after_move :
    (webResolved.step webRepos (.launch 0 .build)).launches[0]? = some (.built webRow none 10) ∧
      10 = (webRepos.tree webRow.sha).files webRow.rel := by
  have hbuilding : webResolved.launches[0]? = some (.building webRow none) := by decide +kernel
  have hbuilt : (webResolved.step webRepos (.launch 0 .build)).launches[0]? =
      some (.built webRow none 10) := by decide +kernel
  exact ⟨hbuilt, (bundle_holds_commit_or_clone (Runs.always _ _) hbuilding hbuilt).1 rfl
    (by decide +kernel) (by decide +kernel)⟩

/-- A pack at the root of its repo, where the clones are in `/data/packs`. -/
def rootRepos : Repos ℕ := reposAt "/data/packs" (treeOf 10 0 30) (treeOf 20 0 30)

def rootRow : PackRow where
  repo := 7
  name := []
  sourcePath := "/data/packs/7"
  sha := 1
  rel := []

/-- Git fails, and the bundle is built from the clone. -/
def gitFails : List (CheckoutAction ℕ) :=
  syncThenMove webRepos ++ [.begin 7 "packs/web", .launch 0 .look,
    .launch 0 (.archive false), .launch 0 .build]

/-- The pack at the root is taken for the one in `packs/7`. -/
def rootLaunch : List (CheckoutAction ℕ) :=
  syncThenMove rootRepos ++ .begin 7 [] :: resolveSteps 0 ++ [.launch 0 .build]

/-- A second launch, which found no snapshot when it looked, removes that of the first. -/
def snapshotRemoved : List (CheckoutAction ℕ) :=
  syncThenMove webRepos ++ .begin 7 "packs/web" :: .begin 7 "packs/web" ::
    .launch 1 .look :: .launch 1 (.archive true) :: resolveSteps 0 ++
    [.launch 1 .lookDest, .launch 1 (.clear (treeOf 0 5 0)), .launch 0 .build]

theorem bundle_of_another_tree :
    (webRepos.tree webRow.sha).files webRow.rel = 10 ∧
    (exec (Checkouts.step webRepos) .start gitFails).launches[0]? =
      some (.built webRow (some .gitFailed) 20) ∧
    (exec (Checkouts.step webRepos) .start snapshotRemoved).launches[0]? =
      some (.built webRow none 5) ∧
    (rootRepos.tree rootRow.sha).files rootRow.rel = 10 ∧
    (exec (Checkouts.step rootRepos) .start rootLaunch).launches[0]? =
      some (.built rootRow none 30) := by
  decide +kernel

end Stoker
