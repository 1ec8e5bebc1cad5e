import Mathlib.Tactic

/-!
# A disk of paths

A path is a list of names, and a disk is a list of entries of which the first for a path counts.
Files are put, directories made, trees removed and renamed; a name that leads to a link is followed.

`Grown base d d'` says that `d'` is `d` with plain files and directories put strictly below `base`.
Below a directory without links a path is its own real path, so what is made and written there stays
there, and removing the directory gives back the disk it was made on.
-/

open List

namespace Files

variable {C B : Type}

inductive Node (C B : Type) where
  | dir
  | file (content : B)
  | link (target : List C)
  | special
  deriving DecidableEq

def Node.Plain : Node C B → Prop
  | dir => True
  | file _ => True
  | _ => False

abbrev Disk (C B : Type) := List (List C × Node C B)

variable [DecidableEq C]

namespace Disk

def node : Disk C B → List C → Option (Node C B)
  | [], _ => none
  | e :: d, p => if e.1 = p then some e.2 else node d p

/-- What a file holds. -/
def content (d : Disk C B) (p : List C) : Option B :=
  match d.node p with
  | some (.file b) => some b
  | _ => none

def put (d : Disk C B) (p : List C) (n : Node C B) : Disk C B := (p, n) :: d

def removeTree (d : Disk C B) (a : List C) : Disk C B := d.filter fun e => ¬ a <+: e.1

/-- Where a rename of `a` to `b` moves an entry. -/
def moved (a b : List C) (e : List C × Node C B) : List C × Node C B :=
  if a <+: e.1 then (b ++ e.1.drop a.length, e.2) else e

def rename (d : Disk C B) (a b : List C) : Disk C B := d.map (moved a b)

/-- The path that a name in a directory leads to. -/
def follow (d : Disk C B) (p : List C) (c : C) : List C :=
  match d.node (p ++ [c]) with
  | some (.link target) => target
  | _ => p ++ [c]

/-- The real path of some names in a directory that is its own real path. -/
def realpath (d : Disk C B) (base : List C) (names : List C) : List C := names.foldl d.follow base

/-- Makes the directories that are missing, one in the other. It fails at a name that is there and
no directory, and where the system refuses to make one. -/
def makedirs (refuses : List C → Bool) : List C → List C → Disk C B → Disk C B × Bool
  | _, [], d => (d, true)
  | p, c :: cs, d =>
    match d.node (d.follow p c) with
    | some .dir => makedirs refuses (d.follow p c) cs d
    | some _ => (d, false)
    | none =>
      if refuses (d.follow p c) then (d, false)
      else makedirs refuses (d.follow p c) cs (d.put (d.follow p c) .dir)

def names (d : Disk C B) (p : List C) : List C :=
  (d.filterMap fun e => if p <+: e.1 ∧ e.1.length = p.length + 1 then e.1.getLast? else none).dedup

/-- Everything on the disk is in a directory. -/
def Rooted (d : Disk C B) : Prop :=
  ∀ p c, d.node (p ++ [c]) ≠ none → d.node p = some .dir

/-! ### Looking up -/

@[simp] lemma node_put_self (d : Disk C B) (p : List C) (n : Node C B) :
    (d.put p n).node p = some n := if_pos rfl

variable {p a base : List C} {d new : Disk C B}

variable {q : List C}

lemma node_put_of_ne (n : Node C B) (h : p ≠ q) : (d.put p n).node q = d.node q := if_neg h

@[simp] lemma content_put_file (d : Disk C B) (p : List C) (b : B) :
    (d.put p (.file b)).content p = some b := by
  simp [content]

lemma content_put_of_ne (n : Node C B) (h : p ≠ q) : (d.put p n).content q = d.content q := by
  rw [content, node_put_of_ne n h, content]

lemma content_congr {d' : Disk C B} (h : d.node p = d'.node q) : d.content p = d'.content q := by
  rw [content, h, content]

lemma node_append_of_forall_ne (h : ∀ e ∈ new, e.1 ≠ p) :
    node (new ++ d) p = d.node p := by
  induction new with
  | nil => rfl
  | cons e new ih =>
    rw [forall_mem_cons] at h
    exact (if_neg h.1).trans (ih h.2)

lemma node_append_of_exists (h : ∃ e ∈ new, e.1 = p) :
    node (new ++ d) p = node new p := by
  induction new with
  | nil => simp at h
  | cons e new ih =>
    by_cases he : e.1 = p
    · simp [node, he]
    · simp only [cons_append, node, if_neg he]
      exact ih (by simpa [he] using h)

lemma node_ne_none_iff : d.node p ≠ none ↔ ∃ e ∈ d, e.1 = p := by
  induction d with
  | nil => simp [node]
  | cons e d ih =>
    by_cases he : e.1 = p
    · simp [node, he]
    · simp [node, he, ih]

variable {n : Node C B}

lemma node_mem (h : d.node p = some n) : (p, n) ∈ d := by
  induction d with
  | nil => cases h
  | cons e d ih =>
    by_cases he : e.1 = p
    · rw [node, if_pos he] at h
      cases h
      rw [← he]
      exact mem_cons_self
    · rw [node, if_neg he] at h
      exact mem_cons_of_mem _ (ih h)

lemma Rooted.not_isPrefix (h : d.Rooted) (ha : d.node a = none) :
    ∀ e ∈ d, ¬ a <+: e.1 := by
  have hnone : ∀ r, d.node (a ++ r) = none := by
    intro r
    induction r using reverseRecOn with
    | nil => simpa using ha
    | append_singleton r c ih =>
      by_contra hc
      have hdir := h (a ++ r) c (by simpa using hc)
      rw [ih] at hdir
      cases hdir
  rintro e he ⟨r, hr⟩
  exact node_ne_none_iff.mpr ⟨e, he, hr.symm⟩ (hnone r)

/-- What is put into a directory, and not in the place of another one, leaves the disk rooted. -/
lemma Rooted.put (h : d.Rooted) {c : C}
    (hdir : d.node p = some .dir) (hn : d.node (p ++ [c]) = some .dir → n = .dir) :
    (d.put (p ++ [c]) n).Rooted := by
  intro q c' hq
  by_cases hself : p ++ [c] = q ++ [c']
  · obtain ⟨rfl, _⟩ := append_inj' hself rfl
    rw [node_put_of_ne n (by simp)]
    exact hdir
  · rw [node_put_of_ne n hself] at hq
    by_cases hput : p ++ [c] = q
    · subst hput
      rw [node_put_self, hn (h _ _ hq)]
    · rw [node_put_of_ne n hput]
      exact h q c' hq

/-! ### Removing and renaming trees -/

lemma removeTree_append_of_forall_isPrefix
    (h : ∀ e ∈ new, a <+: e.1) : removeTree (new ++ d) a = d.removeTree a := by
  have hnew : removeTree new a = [] := by
    rw [removeTree, filter_eq_nil_iff]
    intro e he
    simpa using h e he
  rw [removeTree, filter_append]
  exact (congrArg (· ++ d.removeTree a) hnew).trans (nil_append _)

lemma removeTree_of_forall_not_isPrefix (h : ∀ e ∈ d, ¬ a <+: e.1) :
    d.removeTree a = d := by
  rw [removeTree, filter_eq_self]
  intro e he
  simpa using h e he

lemma node_removeTree (h : ¬ a <+: p) :
    (d.removeTree a).node p = d.node p := by
  induction d with
  | nil => rfl
  | cons e d ih =>
    by_cases he : a <+: e.1
    · have hne : e.1 ≠ p := by
        rintro rfl
        exact h he
      rw [removeTree, filter_cons_of_neg (by simpa using he)]
      exact ih.trans (if_neg hne).symm
    · rw [removeTree, filter_cons_of_pos (by simpa using he)]
      simp only [node]
      split
      · rfl
      · exact ih

lemma node_removeTree_of_isPrefix (h : a <+: p) :
    (d.removeTree a).node p = none := by
  by_contra hne
  obtain ⟨e, he, rfl⟩ := node_ne_none_iff.mp hne
  exact of_decide_eq_true (mem_filter.mp he).2 h

lemma Rooted.removeTree (h : d.Rooted) (a : List C) : (d.removeTree a).Rooted := by
  intro p c hpc
  have hout : ¬ a <+: p ++ [c] := fun hpre => hpc (node_removeTree_of_isPrefix hpre)
  have hp : ¬ a <+: p := fun hpre => hout (hpre.trans (prefix_append p [c]))
  rw [node_removeTree hout] at hpc
  rw [node_removeTree hp]
  exact h p c hpc

variable {b : List C}

lemma node_rename_of_moved (hb : ∀ e ∈ d, ¬ b <+: e.1) (r : List C) :
    (d.rename a b).node (b ++ r) = d.node (a ++ r) := by
  induction d with
  | nil => rfl
  | cons e d ih =>
    rw [forall_mem_cons] at hb
    have hrest := ih hb.2
    by_cases he : a <+: e.1
    · obtain ⟨s, hs⟩ := he
      have hmoved : moved a b e = (b ++ s, e.2) := by
        simp [moved, ← hs]
      rw [rename, map_cons, hmoved]
      simp only [node, ← hs, append_cancel_left_eq]
      split
      · rfl
      · exact hrest
    · have hmoved : moved a b e = e := if_neg he
      have hnew : e.1 ≠ b ++ r := fun h => hb.1 ⟨r, h.symm⟩
      have hold : e.1 ≠ a ++ r := fun h => he ⟨r, h.symm⟩
      rw [rename, map_cons, hmoved]
      simp only [node, if_neg hnew, if_neg hold]
      exact hrest

lemma node_rename_of_other (ha : ¬ a <+: p) (hb : ¬ b <+: p) :
    (d.rename a b).node p = d.node p := by
  induction d with
  | nil => rfl
  | cons e d ih =>
    by_cases he : a <+: e.1
    · have hold : e.1 ≠ p := by
        rintro rfl
        exact ha he
      have hnew : (moved a b e).1 ≠ p := by
        rw [moved, if_pos he]
        rintro rfl
        exact hb (prefix_append _ _)
      rw [rename, map_cons]
      simp only [node, if_neg hnew, if_neg hold]
      exact ih
    · have hmoved : moved a b e = e := if_neg he
      rw [rename, map_cons, hmoved]
      simp only [node]
      split
      · rfl
      · exact ih

/-! ### Growing below a directory -/

/-- Strictly below a directory. -/
def Below (base p : List C) : Prop := ∃ r, r ≠ [] ∧ p = base ++ r

/-- Plain entries are put strictly below `base`, and nothing else changes. -/
def Grown (base : List C) (d d' : Disk C B) : Prop :=
  ∃ new, d' = new ++ d ∧ ∀ e ∈ new, Below base e.1 ∧ e.2.Plain

/-- No links or special files below `base`. -/
def PlainBelow (base : List C) (d : Disk C B) : Prop :=
  ∀ p n, Below base p → d.node p = some n → n.Plain

omit [DecidableEq C] in
lemma below_append (base : List C) {r : List C} (h : r ≠ []) : Below base (base ++ r) := ⟨r, h, rfl⟩

omit [DecidableEq C] in
lemma Below.isPrefix (h : Below base p) : base <+: p := by
  obtain ⟨r, -, rfl⟩ := h
  exact prefix_append _ _

namespace Grown

variable {base : List C} {d d' d'' : Disk C B}

omit [DecidableEq C] in
lemma refl (base : List C) (d : Disk C B) : Grown base d d := ⟨[], rfl, by simp⟩

omit [DecidableEq C] in
lemma trans (h : Grown base d d') (h' : Grown base d' d'') : Grown base d d'' := by
  obtain ⟨new, rfl, hnew⟩ := h
  obtain ⟨new', rfl, hnew'⟩ := h'
  refine ⟨new' ++ new, (append_assoc _ _ _).symm, ?_⟩
  intro e he
  rcases mem_append.mp he with he | he
  · exact hnew' e he
  · exact hnew e he

omit [DecidableEq C] in
lemma put {p : List C} (hp : Below base p) (hn : n.Plain) : Grown base d (d.put p n) :=
  ⟨[(p, n)], rfl, by simpa using ⟨hp, hn⟩⟩

lemma node_of_not_below (h : Grown base d d') {p : List C} (hp : ¬ Below base p) :
    d'.node p = d.node p := by
  obtain ⟨new, rfl, hnew⟩ := h
  refine node_append_of_forall_ne ?_
  rintro e he rfl
  exact hp (hnew e he).1

lemma plainBelow (h : Grown base d d') (hd : d.PlainBelow base) : d'.PlainBelow base := by
  obtain ⟨new, rfl, hnew⟩ := h
  intro p n hp hn
  by_cases hmem : ∃ e ∈ new, e.1 = p
  · rw [node_append_of_exists hmem] at hn
    exact (hnew _ (node_mem hn)).2
  · rw [node_append_of_forall_ne fun e he hep => hmem ⟨e, he, hep⟩] at hn
    exact hd p n hp hn

/-- Removing the directory gives back the disk it was made on. -/
lemma removeTree (h : Grown base (d.put base .dir) d') (hd : ∀ e ∈ d, ¬ base <+: e.1) :
    d'.removeTree base = d := by
  obtain ⟨new, rfl, hnew⟩ := h
  have hall : ∀ e ∈ new ++ [(base, .dir)], base <+: e.1 := by
    intro e he
    rcases mem_append.mp he with he | he
    · exact (hnew e he).1.isPrefix
    · rw [mem_singleton.mp he]
  have hsplit : new ++ d.put base .dir = (new ++ [(base, .dir)]) ++ d := by simp [Disk.put]
  rw [hsplit, removeTree_append_of_forall_isPrefix hall]
  exact removeTree_of_forall_not_isPrefix hd

end Grown

lemma PlainBelow.follow (h : d.PlainBelow base) (q : List C) (c : C) :
    d.follow (base ++ q) c = base ++ (q ++ [c]) := by
  unfold Disk.follow
  split
  · rename_i target hlink
    have hbelow : Below base (base ++ q ++ [c]) := ⟨q ++ [c], by simp, by simp⟩
    exact absurd (h _ _ hbelow hlink) id
  · simp

lemma PlainBelow.realpath (h : d.PlainBelow base) (cs : List C) :
    d.realpath base cs = base ++ cs := by
  have hfrom : ∀ q, cs.foldl d.follow (base ++ q) = base ++ (q ++ cs) := by
    induction cs with
    | nil => simp
    | cons c cs ih =>
      intro q
      rw [foldl_cons, h.follow, ih]
      simp
  simpa [Disk.realpath] using hfrom []

lemma PlainBelow.makedirs (h : d.PlainBelow base)
    (refuses : List C → Bool) (q cs : List C) :
    Grown base d (d.makedirs refuses (base ++ q) cs).1 ∧
      ∀ p, (d.makedirs refuses (base ++ q) cs).1.content p = d.content p := by
  induction cs generalizing q d with
  | nil => exact ⟨.refl base d, fun _ => rfl⟩
  | cons c cs ih =>
    unfold Disk.makedirs
    rw [h.follow]
    split
    · exact ih h (q ++ [c])
    · exact ⟨.refl base d, fun _ => rfl⟩
    · rename_i hnone
      split
      · exact ⟨.refl base d, fun _ => rfl⟩
      · have hput : Grown base d (d.put (base ++ (q ++ [c])) .dir) :=
          .put (below_append base (by simp)) trivial
        obtain ⟨hgrown, hfiles⟩ := ih (hput.plainBelow h) (q ++ [c])
        refine ⟨hput.trans hgrown, fun p => (hfiles p).trans ?_⟩
        by_cases hp : base ++ (q ++ [c]) = p
        · subst hp
          simp [content, hnone]
        · rw [content_put_of_ne _ hp]

/-- Directories that are made leave the disk rooted, and if all are made, the last one is there. -/
lemma Rooted.makedirs (h : d.Rooted) (hplain : d.PlainBelow base)
    (refuses : List C → Bool) (q cs : List C) (hdir : d.node (base ++ q) = some .dir) :
    (d.makedirs refuses (base ++ q) cs).1.Rooted ∧
      ((d.makedirs refuses (base ++ q) cs).2 = true →
        (d.makedirs refuses (base ++ q) cs).1.node (base ++ q ++ cs) = some .dir) := by
  induction cs generalizing q d with
  | nil => exact ⟨h, fun _ => by simpa [Disk.makedirs] using hdir⟩
  | cons c cs ih =>
    have hassoc : base ++ q ++ c :: cs = base ++ (q ++ [c]) ++ cs := by simp
    unfold Disk.makedirs
    rw [hplain.follow, hassoc]
    split
    · rename_i hthere
      exact ih h hplain (q ++ [c]) hthere
    · exact ⟨h, by simp⟩
    · rename_i hnone
      split
      · exact ⟨h, by simp⟩
      · have hput : Grown base d (d.put (base ++ (q ++ [c])) .dir) :=
          .put (below_append base (by simp)) trivial
        have hrooted : (d.put (base ++ (q ++ [c])) .dir).Rooted := by
          rw [← append_assoc]
          exact h.put hdir fun _ => rfl
        exact ih hrooted (hput.plainBelow hplain) (q ++ [c]) (node_put_self _ _ _)

end Disk

end Files
