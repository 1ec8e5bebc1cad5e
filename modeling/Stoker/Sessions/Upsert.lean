import Mathlib.Data.List.Count
import Mathlib.Data.List.Nodup

/-!
# Documents written into a table by key

A session takes documents one by one. For each it looks up the first row with the document's key and
updates that row, or it adds a row when there is none. Its lookups see the updates but not the rows
it has added: those become visible, with ids of their own, when the session ends. Keys need not be
unique, neither among the rows nor among the documents.

What a session leaves is told key by key: the first row of a key has taken all documents of that key
in order (`Upsert.overlay`), and for a key without a row every document of it has become one.
-/

open List

namespace Sessions

/-- How a document is told apart, made into a row, and written over a row of its key. -/
structure Upsert (κ ρ δ : Type*) where
  rowKey : ρ → κ
  docKey : δ → κ
  create : ℕ → δ → ρ
  update : δ → ρ → ρ
  rowKey_create : ∀ id d, rowKey (create id d) = docKey d
  rowKey_update : ∀ d r, docKey d = rowKey r → rowKey (update d r) = rowKey r

/-- A table, with the id its next row gets. -/
structure Table (ρ : Type*) where
  rows : List ρ
  next : ℕ
  deriving DecidableEq

namespace Upsert

variable {κ ρ δ : Type*} [DecidableEq κ] (u : Upsert κ ρ δ)

/-- The first row of a key. -/
def find (k : κ) (rows : List ρ) : Option ρ := rows.find? fun r => u.rowKey r = k

/-- Write a document over the first row of its key. -/
def patch (d : δ) : List ρ → List ρ
  | [] => []
  | r :: rows => if u.rowKey r = u.docKey d then u.update d r :: rows else r :: patch d rows

def patchAll (docs : List δ) (rows : List ρ) : List ρ :=
  docs.foldl (fun rows d => u.patch d rows) rows

/-- One document of a session: the rows it sees, and the documents it has yet to add. -/
def put (s : List ρ × List δ) (d : δ) : List ρ × List δ :=
  match u.find (u.docKey d) s.1 with
  | some _ => (u.patch d s.1, s.2)
  | none => (s.1, s.2 ++ [d])

def session (docs : List δ) (rows : List ρ) : List ρ × List δ := docs.foldl u.put (rows, [])

/-- The rows that are added, with their ids. -/
def created : ℕ → List δ → List ρ
  | _, [] => []
  | id, d :: docs => u.create id d :: created (id + 1) docs

/-- What a session leaves. -/
def load (docs : List δ) (t : Table ρ) : Table ρ :=
  let s := u.session docs t.rows
  { rows := s.1 ++ u.created t.next s.2, next := t.next + s.2.length }

def ofKey (k : κ) (docs : List δ) : List δ := docs.filter fun d => u.docKey d = k

/-- Documents written over a row, one after the other. -/
def overlay (docs : List δ) (r : ρ) : ρ := docs.foldl (fun r d => u.update d r) r

/-! ### Looking rows up -/

variable {u}

lemma find_cons (k : κ) (r : ρ) (rows : List ρ) :
    u.find k (r :: rows) = if u.rowKey r = k then some r else u.find k rows := by
  by_cases h : u.rowKey r = k <;> simp [find, h]

lemma find_append (k : κ) (rows rows' : List ρ) :
    u.find k (rows ++ rows') = (u.find k rows).or (u.find k rows') :=
  find?_append

variable {k : κ} {rows : List ρ} {docs : List δ} {t : Table ρ} {d : δ}

lemma find_eq_none : u.find k rows = none ↔ ∀ r ∈ rows, u.rowKey r ≠ k := by
  simp [find]

variable {r : ρ}

lemma mem_of_find (h : u.find k rows = some r) : r ∈ rows :=
  mem_of_find?_eq_some h

lemma find_patch (k : κ) (d : δ) (rows : List ρ) :
    u.find k (u.patch d rows) = (u.find k rows).map (u.overlay (u.ofKey k [d])) := by
  induction rows with
  | nil => rfl
  | cons r rows ih =>
    by_cases hk : u.docKey d = k
    · subst hk
      by_cases hr : u.rowKey r = u.docKey d
      · have hkey := u.rowKey_update d r hr.symm
        simp [patch, find_cons, hr, hkey, ofKey, overlay]
      · simpa [patch, find_cons, hr] using ih
    · have hsame : u.overlay (u.ofKey k [d]) = id := by
        funext r
        simp [ofKey, overlay, hk]
      rw [hsame, Option.map_id_apply] at ih ⊢
      by_cases hr : u.rowKey r = u.docKey d
      · have hkey := u.rowKey_update d r hr.symm
        simp [patch, find_cons, hr, hkey, hk]
      · simp [patch, find_cons, hr, ih]

lemma patchAll_cons (d : δ) (docs : List δ) (rows : List ρ) :
    u.patchAll (d :: docs) rows = u.patchAll docs (u.patch d rows) := rfl

@[simp] lemma patchAll_nil_rows (docs : List δ) : u.patchAll docs [] = [] := by
  induction docs with
  | nil => rfl
  | cons d docs ih => exact ih

lemma find_patchAll (k : κ) (docs : List δ) (rows : List ρ) :
    u.find k (u.patchAll docs rows) =
      (u.find k rows).map (u.overlay (u.ofKey k docs)) := by
  induction docs generalizing rows with
  | nil => exact (Option.map_id_apply).symm
  | cons d docs ih =>
    rw [patchAll_cons, ih, find_patch, Option.map_map]
    refine Option.map_congr fun r _ => ?_
    by_cases hd : u.docKey d = k <;> simp [hd, overlay, ofKey]

/-! ### A session, document by document -/

/-- Does a document have a row? -/
def Known (u : Upsert κ ρ δ) (rows : List ρ) (d : δ) : Bool := (u.find (u.docKey d) rows).isSome

lemma known_patch (rows : List ρ) (d d' : δ) : u.Known (u.patch d rows) d' = u.Known rows d' := by
  simp [Known, find_patch]

lemma foldl_put (docs : List δ) (s : List ρ × List δ) :
    docs.foldl u.put s =
      (u.patchAll (docs.filter (u.Known s.1)) s.1,
        s.2 ++ docs.filter fun d => !u.Known s.1 d) := by
  induction docs generalizing s with
  | nil => simp [patchAll]
  | cons d docs ih =>
    rw [foldl_cons, ih]
    cases hfind : u.find (u.docKey d) s.1 with
    | some r =>
      have hknown : u.Known s.1 d = true := by simp [Known, hfind]
      have hsame : u.Known (u.patch d s.1) = u.Known s.1 := funext (known_patch s.1 d)
      simp [put, hfind, hknown, hsame, patchAll_cons]
    | none =>
      have hknown : u.Known s.1 d = false := by simp [Known, hfind]
      simp [put, hfind, hknown]

lemma session_eq (docs : List δ) (rows : List ρ) :
    u.session docs rows =
      (u.patchAll (docs.filter (u.Known rows)) rows,
        docs.filter fun d => !u.Known rows d) := by
  simp [session, foldl_put]

/-! ### The rows a session adds -/

section Created

omit [DecidableEq κ]

lemma mem_created {id : ℕ} {docs : List δ} (h : r ∈ u.created id docs) :
    ∃ d ∈ docs, ∃ id', r = u.create id' d := by
  induction docs generalizing id with
  | nil => cases h
  | cons d docs ih =>
    obtain rfl | h := mem_cons.1 h
    · exact ⟨d, mem_cons_self, id, rfl⟩
    · obtain ⟨d', hd', heq⟩ := ih h
      exact ⟨d', mem_cons_of_mem _ hd', heq⟩

lemma create_mem_created (id : ℕ) {docs : List δ} {d : δ} (hd : d ∈ docs) :
    ∃ id', u.create id' d ∈ u.created id docs := by
  induction docs generalizing id with
  | nil => cases hd
  | cons e docs ih =>
    obtain rfl | hd := mem_cons.1 hd
    · exact ⟨id, mem_cons_self⟩
    · obtain ⟨id', hid'⟩ := ih (id + 1) hd
      exact ⟨id', mem_cons_of_mem _ hid'⟩

/-- What a row is made of, apart from its id. -/
lemma map_created {α : Type*} {f : ρ → α} {g : δ → α} (h : ∀ id d, f (u.create id d) = g d) (id : ℕ)
    (docs : List δ) : (u.created id docs).map f = docs.map g := by
  induction docs generalizing id with
  | nil => rfl
  | cons d docs ih => rw [created, map_cons, map_cons, h, ih]

lemma map_id_created {f : ρ → ℕ} (h : ∀ id d, f (u.create id d) = id) (id : ℕ) (docs : List δ) :
    (u.created id docs).map f = range' id docs.length := by
  induction docs generalizing id with
  | nil => rfl
  | cons d docs ih => rw [created, map_cons, h, ih, length_cons, range'_succ]

end Created

lemma find_created (k : κ) (id : ℕ) (docs : List δ) :
    ∃ id', u.find k (u.created id docs) = (u.ofKey k docs).head?.map (u.create id') := by
  induction docs generalizing id with
  | nil => exact ⟨id, rfl⟩
  | cons d docs ih =>
    by_cases hd : u.docKey d = k
    · exact ⟨id, by simp [created, find_cons, ofKey, u.rowKey_create, hd]⟩
    · obtain ⟨id', heq⟩ := ih (id + 1)
      exact ⟨id', by simpa [created, find_cons, ofKey, u.rowKey_create, hd] using heq⟩

/-! ### A table after a session -/

/-- In an empty table every document becomes a row, also those of one key. -/
lemma load_of_empty (h : t.rows = []) :
    (u.load docs t).rows = u.created t.next docs := by
  have hunknown : ∀ d, u.Known [] d = false := fun d => rfl
  simp [load, session_eq, h, hunknown]

lemma ofKey_filter_known {b : Bool}
    (h : (u.find k rows).isSome = b) :
    u.ofKey k (docs.filter fun d => u.Known rows d == b) = u.ofKey k docs := by
  rw [ofKey, ofKey, filter_filter]
  refine filter_congr fun d _ => ?_
  by_cases hd : u.docKey d = k
  · simp [hd, Known, h]
  · simp [hd]

lemma find_load (k : κ) (docs : List δ) (t : Table ρ) :
    (∀ r, u.find k t.rows = some r →
      u.find k (u.load docs t).rows = some (u.overlay (u.ofKey k docs) r)) ∧
    (u.find k t.rows = none →
      ∃ id, u.find k (u.load docs t).rows = (u.ofKey k docs).head?.map (u.create id)) := by
  rw [load, session_eq]
  constructor
  · intro r hr
    have hof : u.ofKey k (docs.filter (u.Known t.rows)) = u.ofKey k docs := by
      have hsome : (u.find k t.rows).isSome = true := by simp [hr]
      simpa using ofKey_filter_known hsome
    rw [find_append, find_patchAll, hr, hof]
    rfl
  · intro hnone
    have hof : u.ofKey k (docs.filter fun d => !u.Known t.rows d) = u.ofKey k docs := by
      have hsome : (u.find k t.rows).isSome = false := by simp [hnone]
      simpa using ofKey_filter_known hsome
    obtain ⟨id, hid⟩ := find_created k t.next (docs.filter fun d => !u.Known t.rows d)
    refine ⟨id, ?_⟩
    rw [find_append, find_patchAll, hnone, Option.map_none, Option.none_or, hid, hof]

lemma known_load (docs : List δ) (t : Table ρ) (hd : d ∈ docs) :
    u.Known (u.load docs t).rows d = true := by
  obtain ⟨hsome, hnone⟩ := find_load (u := u) (u.docKey d) docs t
  cases h : u.find (u.docKey d) t.rows with
  | some r => simp [Known, hsome r h]
  | none =>
    obtain ⟨id, hid⟩ := hnone h
    have hmem : d ∈ u.ofKey (u.docKey d) docs := by simp [ofKey, hd]
    have hne := ne_nil_of_mem hmem
    simp [Known, hid, isSome_head?, hne]

/-- What holds of the rows and of what the documents make of them holds of the rows after a
session. -/
lemma forall_mem_load {P : ρ → Prop} (hrows : ∀ r ∈ t.rows, P r)
    (hupdate : ∀ d ∈ docs, ∀ r, u.docKey d = u.rowKey r → P r → P (u.update d r))
    (hcreate : ∀ d ∈ docs, (∀ r ∈ t.rows, u.rowKey r ≠ u.docKey d) → ∀ id, P (u.create id d)) :
    ∀ r ∈ (u.load docs t).rows, P r := by
  have hpatch : ∀ d ∈ docs, ∀ rows : List ρ, (∀ r ∈ rows, P r) → ∀ r ∈ u.patch d rows, P r := by
    intro d hd rows
    induction rows with
    | nil => simp [patch]
    | cons r rows ih =>
      intro hP
      obtain ⟨hr, hrest⟩ := forall_mem_cons.1 hP
      by_cases hkey : u.rowKey r = u.docKey d
      · simpa [patch, hkey] using ⟨hupdate d hd r hkey.symm hr, hrest⟩
      · simpa [patch, hkey] using ⟨hr, ih hrest⟩
  have hpatched : ∀ ds : List δ, ds ⊆ docs → ∀ rows : List ρ, (∀ r ∈ rows, P r) →
      ∀ r ∈ u.patchAll ds rows, P r := by
    intro ds
    induction ds with
    | nil => exact fun _ rows hP => hP
    | cons d ds ih =>
      intro hsub rows hP
      obtain ⟨hd, hds⟩ := cons_subset.1 hsub
      exact ih hds _ (hpatch d hd rows hP)
  intro r hr
  rw [load, session_eq] at hr
  obtain hr | hr := mem_append.1 hr
  · exact hpatched _ (filter_subset_self _) _ hrows r hr
  · obtain ⟨d, hd, id, rfl⟩ := mem_created hr
    obtain ⟨hdocs, hunknown⟩ := mem_filter.1 hd
    refine hcreate d hdocs ?_ id
    simpa [Known, find_eq_none] using hunknown

/-! ### The same documents again -/

lemma patchAll_cons_row (docs : List δ) (r : ρ) (rows : List ρ) :
    u.patchAll docs (r :: rows) =
      u.overlay (u.ofKey (u.rowKey r) docs) r ::
        u.patchAll (docs.filter fun d => u.docKey d ≠ u.rowKey r) rows := by
  induction docs generalizing r rows with
  | nil => rfl
  | cons d docs ih =>
    rw [patchAll_cons]
    by_cases hd : u.rowKey r = u.docKey d
    · have hkey := u.rowKey_update d r hd.symm
      rw [patch, if_pos hd, ih, hkey]
      simp [ofKey, overlay, hd]
    · rw [patch, if_neg hd, ih]
      simp [ofKey, overlay, Ne.symm hd, patchAll_cons]

lemma ofKey_filter_ne (k : κ) (docs : List δ) (r : ρ) :
    u.ofKey k (docs.filter fun d => u.docKey d ≠ u.rowKey r) =
      if u.rowKey r = k then [] else u.ofKey k docs := by
  rw [ofKey, ofKey, filter_filter]
  split_ifs with hk
  · simp [hk]
  · refine filter_congr fun d _ => ?_
    by_cases hd : u.docKey d = k
    · simp [hd, Ne.symm hk]
    · simp [hd]

/-- Documents leave a table as it is when, and only when, they leave the first row of each key. -/
lemma patchAll_eq_self :
    u.patchAll docs rows = rows ↔
      ∀ k r, u.find k rows = some r → u.overlay (u.ofKey k docs) r = r := by
  constructor
  · intro h k r hr
    have hfind := find_patchAll (u := u) k docs rows
    rw [h, hr] at hfind
    exact (Option.some.inj hfind).symm
  · induction rows generalizing docs with
    | nil =>
      intro _
      exact patchAll_nil_rows docs
    | cons r rows ih =>
      intro h
      have hhead := h (u.rowKey r) r (by simp [find_cons])
      rw [patchAll_cons_row, hhead, ih]
      intro k r' hr'
      rw [ofKey_filter_ne]
      by_cases hk : u.rowKey r = k
      · rw [if_pos hk]
        rfl
      · rw [if_neg hk]
        exact h k r' (by simpa [find_cons, hk] using hr')

lemma load_of_known (h : ∀ d ∈ docs, u.Known t.rows d = true) :
    u.load docs t = { t with rows := u.patchAll docs t.rows } := by
  have hknown : docs.filter (u.Known t.rows) = docs := filter_eq_self.2 h
  have hadded : docs.filter (fun d => !u.Known t.rows d) = [] := by
    simpa [filter_eq_nil_iff] using h
  rw [load, session_eq, hknown, hadded]
  simp [created]

/-- A row after a session that adds none is as it was, or it is the first of its key and has taken
the documents of that key. -/
lemma mem_patchAll (h : r ∈ u.patchAll docs rows) :
    r ∈ rows ∨ ∃ k r₀, u.find k rows = some r₀ ∧ r = u.overlay (u.ofKey k docs) r₀ := by
  induction rows generalizing docs with
  | nil => simp at h
  | cons r₀ rows ih =>
    rw [patchAll_cons_row] at h
    obtain rfl | h := mem_cons.1 h
    · exact .inr ⟨u.rowKey r₀, r₀, by simp [find_cons], rfl⟩
    · obtain hmem | ⟨k, r₁, hfind, rfl⟩ := ih h
      · exact .inl (mem_cons_of_mem _ hmem)
      · by_cases hk : u.rowKey r₀ = k
        · -- that key's documents went to the head
          refine .inl (mem_cons_of_mem _ ?_)
          rw [ofKey_filter_ne, if_pos hk]
          exact mem_of_find hfind
        · refine .inr ⟨k, r₁, by simpa [find_cons, hk] using hfind, ?_⟩
          rw [ofKey_filter_ne, if_neg hk]

/-- The same documents again add nothing. They change nothing when writing the documents of a key
twice is writing them once and they leave, for each key that had no row, the row that the first of
them became; `P` says of a key when they do. -/
lemma load_load_iff {P : κ → Prop}
    (hfound : ∀ k r, u.find k t.rows = some r →
      u.overlay (u.ofKey k docs) (u.overlay (u.ofKey k docs) r) = u.overlay (u.ofKey k docs) r)
    (hadded : ∀ k, u.find k t.rows = none → ∀ d ∈ (u.ofKey k docs).head?, ∀ id,
      (u.overlay (u.ofKey k docs) (u.create id d) = u.create id d ↔ P k)) :
    u.load docs (u.load docs t) = u.load docs t ↔
      ∀ k, u.find k t.rows = none → u.ofKey k docs ≠ [] → P k := by
  have hrows : u.load docs (u.load docs t) = u.load docs t ↔
      u.patchAll docs (u.load docs t).rows = (u.load docs t).rows := by
    rw [load_of_known fun d hd => known_load docs t hd]
    exact ⟨fun h => congrArg Table.rows h, fun h => by rw [h]⟩
  rw [hrows, patchAll_eq_self]
  constructor
  · intro h k hk hne
    obtain ⟨id, hid⟩ := (find_load k docs t).2 hk
    obtain ⟨d, hd⟩ := Option.isSome_iff_exists.1 (isSome_head?.2 hne)
    rw [hd] at hid
    exact (hadded k hk d hd id).1 (h k _ hid)
  · intro h k r hr
    obtain ⟨hsome, hnone⟩ := find_load k docs t
    cases hk : u.find k t.rows with
    | some r₀ =>
      rw [hsome r₀ hk] at hr
      obtain rfl := Option.some.inj hr
      exact hfound k r₀ hk
    | none =>
      obtain ⟨id, hid⟩ := hnone hk
      obtain ⟨d, hd, rfl⟩ := Option.map_eq_some_iff.1 (hid.symm.trans hr)
      exact (hadded k hk d hd id).2 (h k hk (ne_nil_of_mem (mem_of_mem_head? hd)))

/-! ### Documents that overwrite each other

Where a document leaves nothing of what another one wrote, the last document of a key decides. -/

variable {last : δ}

omit [DecidableEq κ] in
lemma overlay_eq_update
    (hover : ∀ d ∈ docs, ∀ e ∈ docs, ∀ r, u.update d (u.update e r) = u.update d r)
    (hlast : last ∈ docs.getLast?) (r : ρ) : u.overlay docs r = u.update last r := by
  induction docs generalizing r with
  | nil => cases hlast
  | cons d docs ih =>
    cases docs with
    | nil =>
      obtain rfl := Option.some.inj hlast
      rfl
    | cons e docs =>
      have hsub : ∀ x ∈ e :: docs, x ∈ d :: e :: docs := fun x hx => mem_cons_of_mem d hx
      have hrest := ih (fun a ha b hb => hover a (hsub a ha) b (hsub b hb)) hlast (u.update d r)
      exact hrest.trans (hover last (hsub last (mem_of_mem_getLast? hlast)) d mem_cons_self r)

lemma overlay_ofKey
    (hover : ∀ d ∈ docs, ∀ e ∈ docs, ∀ r, u.update d (u.update e r) = u.update d r)
    (hlast : last ∈ (u.ofKey k docs).getLast?) (r : ρ) :
    u.overlay (u.ofKey k docs) r = u.update last r := by
  have hmem : ∀ d ∈ u.ofKey k docs, d ∈ docs := fun d hd => mem_of_mem_filter hd
  exact overlay_eq_update (fun d hd e he => hover d (hmem d hd) e (hmem e he)) hlast r

lemma mem_of_mem_getLast_ofKey (h : d ∈ (u.ofKey k docs).getLast?) :
    d ∈ docs :=
  mem_of_mem_filter (mem_of_mem_getLast? h)

lemma last_of_ofKey_eq {first : δ} (h : u.ofKey k docs = [first])
    (hlast : last ∈ (u.ofKey k docs).getLast?) : last = first := by
  rw [h] at hlast
  exact (Option.some.inj hlast).symm

lemma exists_last_of_head (h : d ∈ (u.ofKey k docs).head?) :
    ∃ last, last ∈ (u.ofKey k docs).getLast? :=
  ⟨_, getLast?_eq_some_getLast (ne_nil_of_mem (mem_of_mem_head? h))⟩

/-- The same documents again change nothing exactly if, for each key that had no row, the last
document leaves the row that the first one became. -/
lemma load_load_iff_last {P : δ → δ → Prop}
    (hover : ∀ d ∈ docs, ∀ e ∈ docs, ∀ r, u.update d (u.update e r) = u.update d r)
    (hP : ∀ first ∈ docs, ∀ last ∈ docs, ∀ id,
      (u.update last (u.create id first) = u.create id first ↔ P first last)) :
    u.load docs (u.load docs t) = u.load docs t ↔ ∀ k, u.find k t.rows = none →
      ∀ first ∈ (u.ofKey k docs).head?, ∀ last ∈ (u.ofKey k docs).getLast?, P first last := by
  rw [load_load_iff (P := fun k => ∀ first ∈ (u.ofKey k docs).head?,
    ∀ last ∈ (u.ofKey k docs).getLast?, P first last)]
  · constructor
    · intro h k hk first hfirst
      exact h k hk (ne_nil_of_mem (mem_of_mem_head? hfirst)) first hfirst
    · exact fun h k hk _ => h k hk
  · intro k r _
    cases hhead : (u.ofKey k docs).head? with
    | none =>
      rw [head?_eq_none_iff.1 hhead]
      rfl
    | some first =>
      obtain ⟨last, hlast⟩ := exists_last_of_head hhead
      have hmem := mem_of_mem_getLast_ofKey hlast
      rw [overlay_ofKey hover hlast, overlay_ofKey hover hlast]
      exact hover last hmem last hmem r
  · intro k _ first hfirst id
    obtain ⟨last, hlast⟩ := exists_last_of_head hfirst
    have hmem := mem_of_mem_getLast_ofKey hlast
    have hmem' : first ∈ docs := mem_of_mem_filter (mem_of_mem_head? hfirst)
    rw [overlay_ofKey hover hlast, hP first hmem' last hmem id]
    constructor
    · intro h first' hfirst' last' hlast'
      obtain rfl := Option.mem_unique hfirst hfirst'
      obtain rfl := Option.mem_unique hlast hlast'
      exact h
    · exact fun h => h first hfirst last hlast

lemma mem_load_of_unknown (hd : d ∈ docs)
    (hunknown : u.find (u.docKey d) t.rows = none) :
    ∃ id, u.create id d ∈ (u.load docs t).rows := by
  have hmem : d ∈ docs.filter fun d => !u.Known t.rows d :=
    mem_filter.2 ⟨hd, by simp [Known, hunknown]⟩
  obtain ⟨id, hid⟩ := create_mem_created t.next hmem
  refine ⟨id, ?_⟩
  rw [load, session_eq]
  exact mem_append_right _ hid

/-- A row after the second session is one after the first, or it is one that has taken a document
which also made a row of its own. -/
lemma mem_load_load (hover : ∀ d ∈ docs, ∀ e ∈ docs, ∀ r, u.update d (u.update e r) = u.update d r)
    (h : r ∈ (u.load docs (u.load docs t)).rows) :
    r ∈ (u.load docs t).rows ∨ ∃ d ∈ docs, (∃ id, u.create id d ∈ (u.load docs t).rows) ∧
      ∃ r₀ ∈ (u.load docs t).rows, r = u.update d r₀ := by
  rw [load_of_known fun d hd => known_load docs t hd] at h
  obtain hmem | ⟨k, r₁, hfind, rfl⟩ := mem_patchAll h
  · exact .inl hmem
  · cases hhead : (u.ofKey k docs).head? with
    | none =>
      rw [head?_eq_none_iff.1 hhead]
      exact .inl (mem_of_find hfind)
    | some first =>
      obtain ⟨last, hlast⟩ := exists_last_of_head hhead
      have hmem := mem_of_mem_getLast_ofKey hlast
      rw [overlay_ofKey hover hlast]
      obtain ⟨hsome, -⟩ := find_load (u := u) k docs t
      cases hk : u.find k t.rows with
      | some r₀ =>
        -- the first session has already written the last document over this row
        have hr₁ := Option.some.inj (hfind.symm.trans (hsome r₀ hk))
        rw [overlay_ofKey hover hlast] at hr₁
        rw [hr₁, hover last hmem last hmem, ← hr₁]
        exact .inl (mem_of_find hfind)
      | none =>
        obtain ⟨-, hkey⟩ := mem_filter.1 (mem_of_mem_getLast? hlast)
        have hunknown : u.find (u.docKey last) t.rows = none := by rw [of_decide_eq_true hkey, hk]
        exact .inr ⟨last, hmem, mem_load_of_unknown hmem hunknown, r₁, mem_of_find hfind, rfl⟩

/-! ### Documents of different keys -/

lemma ofKey_of_nodup (h : (docs.map u.docKey).Nodup) (hd : d ∈ docs) :
    u.ofKey (u.docKey d) docs = [d] := by
  have hmem : d ∈ u.ofKey (u.docKey d) docs := by simp [ofKey, hd]
  have hlength : (u.ofKey (u.docKey d) docs).length ≤ 1 := by
    have hcount := nodup_iff_count_le_one.1 h (u.docKey d)
    rw [count_eq_countP, countP_map, countP_eq_length_filter] at hcount
    exact hcount
  obtain ⟨d', heq⟩ := length_eq_one_iff.1 (Nat.le_antisymm hlength (length_pos_of_mem hmem))
  rw [heq] at hmem ⊢
  rw [mem_singleton.1 hmem]

lemma ofKey_head_of_nodup (h : (docs.map u.docKey).Nodup)
    (hd : d ∈ (u.ofKey k docs).head?) : u.ofKey k docs = [d] := by
  obtain ⟨hmem, hkey⟩ := mem_filter.1 (mem_of_mem_head? hd)
  obtain rfl := of_decide_eq_true hkey
  exact ofKey_of_nodup h hmem

/-- The keys of the rows after a session. -/
lemma map_rowKey_load (docs : List δ) (t : Table ρ) :
    (u.load docs t).rows.map u.rowKey =
      t.rows.map u.rowKey ++ (docs.filter fun d => !u.Known t.rows d).map u.docKey := by
  have hpatch : ∀ (d : δ) (rows : List ρ), (u.patch d rows).map u.rowKey = rows.map u.rowKey := by
    intro d rows
    induction rows with
    | nil => rfl
    | cons r rows ih =>
      by_cases hr : u.rowKey r = u.docKey d
      · simp [patch, hr, u.rowKey_update d r hr.symm]
      · simp [patch, hr, ih]
  have hpatched : ∀ (docs : List δ) (rows : List ρ),
      (u.patchAll docs rows).map u.rowKey = rows.map u.rowKey := by
    intro docs
    induction docs with
    | nil => exact fun rows => rfl
    | cons d docs ih => exact fun rows => (ih _).trans (hpatch d rows)
  rw [load, session_eq, map_append, u.map_created u.rowKey_create, hpatched]

lemma countP_rowKey_load (k : κ) (docs : List δ) (t : Table ρ) :
    (u.load docs t).rows.countP (u.rowKey · = k) =
      if (u.find k t.rows).isSome then t.rows.countP (u.rowKey · = k)
      else docs.countP (u.docKey · = k) := by
  have hkeys : (u.load docs t).rows.countP (u.rowKey · = k) = t.rows.countP (u.rowKey · = k) +
      (docs.filter fun d => !u.Known t.rows d).countP (u.docKey · = k) := by
    have hmap := congrArg (countP (· = k)) (map_rowKey_load (u := u) docs t)
    rwa [countP_append, countP_map, countP_map, countP_map] at hmap
  rw [hkeys]
  split_ifs with hk
  · refine Nat.add_eq_left.2 (countP_eq_zero.2 fun d hd hkey => ?_)
    obtain ⟨-, hunknown⟩ := mem_filter.1 hd
    obtain rfl := of_decide_eq_true hkey
    simp [Known, hk] at hunknown
  · have hnone : t.rows.countP (u.rowKey · = k) = 0 := by simpa [find, countP_eq_zero] using hk
    have hof : u.ofKey k (docs.filter fun d => !u.Known t.rows d) = u.ofKey k docs := by
      simpa using ofKey_filter_known (eq_false_of_ne_true hk)
    rw [hnone, Nat.zero_add, countP_eq_length_filter, countP_eq_length_filter]
    exact congrArg length hof

/-- Where the rows after a session have different keys, the documents without a row had. -/
lemma ofKey_of_nodup_load
    (h : ((u.load docs t).rows.map u.rowKey).Nodup) (hk : u.find k t.rows = none)
    (hd : d ∈ (u.ofKey k docs).head?) : u.ofKey k docs = [d] := by
  rw [map_rowKey_load] at h
  have hof : u.ofKey k (docs.filter fun d => !u.Known t.rows d) = u.ofKey k docs := by
    have hsome : (u.find k t.rows).isSome = false := by simp [hk]
    simpa using ofKey_filter_known hsome
  rw [← hof] at hd ⊢
  exact ofKey_head_of_nodup (nodup_append.1 h).2.1 hd

/-- What is found of a document: written over a row, or made into one. -/
lemma find_load_of_nodup (h : (docs.map u.docKey).Nodup) (t : Table ρ)
    (hd : d ∈ docs) :
    ∃ r, u.find (u.docKey d) (u.load docs t).rows = some r ∧
      ((∃ r₀, r = u.update d r₀) ∨ ∃ id, r = u.create id d) := by
  obtain ⟨hsome, hnone⟩ := find_load (u := u) (u.docKey d) docs t
  rw [ofKey_of_nodup h hd] at hsome hnone
  cases hfind : u.find (u.docKey d) t.rows with
  | some r₀ => exact ⟨_, hsome r₀ hfind, .inl ⟨r₀, rfl⟩⟩
  | none =>
    obtain ⟨id, hid⟩ := hnone hfind
    exact ⟨_, hid, .inr ⟨id, rfl⟩⟩

lemma load_load_of_nodup (h : (docs.map u.docKey).Nodup)
    (hupdate : ∀ d r, u.update d (u.update d r) = u.update d r)
    (hcreate : ∀ d id, u.update d (u.create id d) = u.create id d) :
    u.load docs (u.load docs t) = u.load docs t := by
  refine (load_load_iff (P := fun _ => True) ?_ ?_).2 fun _ _ _ => trivial
  · intro k r _
    cases hhead : (u.ofKey k docs).head? with
    | none => rw [head?_eq_none_iff.1 hhead]; rfl
    | some d =>
      rw [ofKey_head_of_nodup h hhead]
      exact hupdate d r
  · intro k _ d hd id
    rw [ofKey_head_of_nodup h hd]
    exact iff_of_true (hcreate d id) trivial

end Upsert

end Sessions
