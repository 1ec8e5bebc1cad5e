import Stoker.Packs.PackSource
import Stoker.Transition.Runs

/-!
# Whose archive is it?

Histories of a pack source that is written by one control plane: packs are published, renamed (which
moves the archive) and unpublished (which removes it, and then the pack). The key of an archive
depends on the name alone and says nothing about the pack, so two packs whose names come down to one
key write over each other, and so does a pack that takes the name of one whose archive did not
follow a rename. Where neither happens, the archive that was last published for a pack lies under
its key until the pack itself is published again, renamed or unpublished.
-/

namespace Stoker

open Transition

/-- An archive, with the pack that it was made of; the code does not know the latter. -/
structure Archive where
  owner : ℕ
  data : Bytes
  deriving DecidableEq

/-- What mirroring reads of the row of a pack. A pack of a repo, or of the image, is fixed: it is
neither renamed nor deleted. -/
structure MirroredPack where
  name : Text
  fixed : Bool := false

/-- The packs by their ids, the store, and for each pack what was last published of it, with the
key. -/
structure Mirror where
  packs : AList fun _ : ℕ => MirroredPack
  store : PackStore Archive
  published : ℕ → Option (Text × Bytes)

/-- A request for a pack, with what the export of it yields and how the source behaves. A rename
comes with the name that the route hands on and may fail to rewrite the files of the pack; after an
archive was removed, the row may be left. -/
inductive MirrorAction where
  | publish (id : ℕ) (access : SourceAccess) (faults : StoreFaults) (exported : Except Text Bytes)
  | rename (id : ℕ) (access : SourceAccess) (faults : StoreFaults) (exported : Except Text Bytes)
      (name : Text) (rewritten : Bool)
  | unpublish (id : ℕ) (access : SourceAccess) (faults : StoreFaults) (deleted : Bool)

def MirrorAction.pack : MirrorAction → ℕ
  | publish id .. => id
  | rename id .. => id
  | unpublish id .. => id

namespace Mirror

/-- Another pack has the name. -/
def nameTaken (s : Mirror) (id : ℕ) (name : Text) : Bool :=
  s.packs.entries.any fun e => e.1 ≠ id && e.2.name = name

/-- What was published last, after a publication that says under which key. -/
def record (s : Mirror) (id : ℕ) (exported : Except Text Bytes) (key : Option Text) :
    ℕ → Option (Text × Bytes) :=
  match key, exported with
  | some key, .ok data => Function.update s.published id (some (key, data))
  | _, _ => s.published

/-- One request; `repr` is for the texts of the warnings only. -/
def step (repr : Text → Text) : MirrorAction → Mirror → Mirror
  | .publish id access faults exported, s =>
    match s.packs.lookup id with
    | none => s
    | some pack =>
      let out := publishPack access faults pack.name (exported.map (Archive.mk id)) s.store
      { s with store := out.1, published := s.record id exported out.2 }
  | .rename id access faults exported name rewritten, s =>
    match s.packs.lookup id with
    | none => s
    | some pack =>
      if pack.fixed ∨ name = pack.name ∨ s.nameTaken id name ∨ rewritten = false then s
      else
        let out := swapRemote access faults repr pack.name name
            (exported.map (Archive.mk id)) s.store
        { packs := s.packs.insert id { pack with name }
          store := out.1
          published := s.record id exported out.2.remoteKey }
  | .unpublish id access faults deleted, s =>
    match s.packs.lookup id with
    | none => s
    | some pack =>
      if pack.fixed then s
      else
        match unpublishPack access faults pack.name s.store with
        | (_, .error _) => s
        | (store, .ok _) =>
          { packs := if deleted then s.packs.erase id else s.packs
            store
            published := Function.update s.published id none }

/-! ### What a request does -/

/-- What a request for the pack `id` can come to. -/
inductive Happens (s : Mirror) (id : ℕ) (followed : Prop) (t : Mirror) : Prop where
  | nothing (h : t = s)
  | published {pack : MirroredPack} {data : Bytes} (hp : s.packs.lookup id = some pack)
      (hpacks : t.packs = s.packs) (hstore : t.store =
        s.store.insert (archiveName pack.name) ⟨id, data⟩)
      (hpub : t.published = Function.update s.published id (some (archiveName pack.name, data)))
  | moved {pack : MirroredPack} {name : Text} {data : Bytes} (hp : s.packs.lookup id = some pack)
      (hpacks : t.packs = s.packs.insert id { pack with name })
      (hstore : t.store = s.store.insert (archiveName name) ⟨id, data⟩ ∨
        (archiveName name ≠ archiveName pack.name ∧
          t.store = (s.store.insert (archiveName name) ⟨id, data⟩).erase (archiveName pack.name)))
      (hpub : t.published = Function.update s.published id (some (archiveName name, data)))
  | left {pack : MirroredPack} {name : Text} (hp : s.packs.lookup id = some pack)
      (hleft : ¬ followed) (hpacks : t.packs = s.packs.insert id { pack with name })
      (hstore : t.store = s.store) (hpub : t.published = s.published)
  | unpublished {pack : MirroredPack} (hp : s.packs.lookup id = some pack)
      (hpacks : t.packs = s.packs ∨ t.packs = s.packs.erase id)
      (hstore : t.store = s.store.erase (archiveName pack.name))
      (hpub : t.published = Function.update s.published id none)

end Mirror

/-- The source takes the archive of a rename. -/
def MirrorAction.Followed : MirrorAction → Prop
  | rename _ access faults exported _ _ => Accepts access faults exported
  | _ => True

namespace Mirror

variable {repr : Text → Text} {s t : Mirror} {a : MirrorAction} {id : ℕ}

variable {exported : Except Text Bytes}

lemma accepts_map {access : SourceAccess} {faults : StoreFaults}
    (h : Accepts access faults exported) :
    Accepts access faults (exported.map (Archive.mk id)) := by
  obtain ⟨hw, hc, hput, data, rfl⟩ := h
  exact ⟨hw, hc, hput, _, rfl⟩

lemma exists_of_map_ok {archive : Archive}
    (h : exported.map (Archive.mk id) = .ok archive) : ∃ data, exported = .ok data ∧
    archive = ⟨id, data⟩ := by
  cases exported with
  | error e => cases h
  | ok data => exact ⟨data, rfl, (Except.ok.inj h).symm⟩

lemma step_happens (s : Mirror) : s.Happens a.pack a.Followed (step repr a s) := by
  cases a with
  | publish id access faults exported =>
    simp only [step, MirrorAction.pack]
    split
    · exact .nothing rfl
    · rename_i pack hp
      rcases publishPack_cases access faults pack.name (exported.map (Archive.mk id)) s.store with
        ⟨archive, harchive, h⟩ | h
      · obtain ⟨data, rfl, rfl⟩ := exists_of_map_ok harchive
        rw [h]
        exact .published hp rfl rfl rfl
      · rw [h]
        exact .nothing rfl
  | rename id access faults exported name rewritten =>
    simp only [step, MirrorAction.pack]
    split
    · exact .nothing rfl
    · rename_i pack hp
      split_ifs
      · exact .nothing rfl
      · rcases swapRemote_cases access faults name pack.name (exported.map (Archive.mk id)) s.store
          repr with ⟨archive, harchive, hkey, hstore⟩ | ⟨hrefused, hkey, hstore⟩
        · obtain ⟨data, rfl, rfl⟩ := exists_of_map_ok harchive
          rw [hkey]
          exact .moved hp rfl hstore rfl
        · rw [hkey, hstore]
          exact .left hp (fun hfollowed => hrefused (accepts_map hfollowed)) rfl rfl rfl
  | unpublish id access faults deleted =>
    simp only [step, MirrorAction.pack]
    split
    · exact .nothing rfl
    · rename_i pack hp
      by_cases hfixed : pack.fixed = true
      · rw [if_pos hfixed]
        exact .nothing rfl
      · rw [if_neg hfixed]
        rcases unpublishPack_cases access faults pack.name s.store with ⟨result, h⟩ | ⟨text, h⟩
        · rw [h]
          refine .unpublished hp ?_ rfl rfl
          cases deleted with
          | false => exact .inl rfl
          | true => exact .inr rfl
        · rw [h]
          exact .nothing rfl

/-! ### The archives stay -/

/-- No two packs come down to one key. -/
def SlugsApart (s : Mirror) : Prop :=
  ∀ e ∈ s.packs.entries, ∀ e' ∈ s.packs.entries, e.1 ≠ e'.1 →
    safeBasename e.2.name ≠ safeBasename e'.2.name

instance (s : Mirror) : Decidable s.SlugsApart :=
  inferInstanceAs (Decidable (∀ e ∈ s.packs.entries, ∀ e' ∈ s.packs.entries, _))

/-- The condition on a request: after it no two packs come down to one key, and the source takes the
archive when a pack is renamed of which something is published. -/
def Orderly (repr : Text → Text) (a : MirrorAction) (s : Mirror) : Prop :=
  (step repr a s).SlugsApart ∧ (s.published a.pack = none ∨ a.Followed)

variable {id' : ℕ} {followed : Prop}

lemma SlugsApart.key_ne (h : s.SlugsApart) {pack pack' : MirroredPack}
    (hp : s.packs.lookup id = some pack) (hp' : s.packs.lookup id' = some pack') (hne : id ≠ id') :
    archiveName pack.name ≠ archiveName pack'.name := by
  rw [ne_eq, archiveName_inj]
  exact h ⟨id, pack⟩ (AList.mem_lookup_iff.1 hp) ⟨id', pack'⟩ (AList.mem_lookup_iff.1 hp') hne

/-- What was last published for a pack lies under the key of its name. -/
def Kept (s : Mirror) (id : ℕ) : Prop :=
  ∀ key data, s.published id = some (key, data) →
    ∃ pack, s.packs.lookup id = some pack ∧ key = archiveName pack.name ∧
      s.store.lookup key = some ⟨id, data⟩

lemma Kept.congr (h : s.Kept id) (hpub : t.published id = s.published id)
    (hpacks : t.packs.lookup id = s.packs.lookup id)
    (hstore : ∀ pack, s.packs.lookup id = some pack →
      t.store.lookup (archiveName pack.name) = s.store.lookup (archiveName pack.name)) :
    t.Kept id := by
  intro key data hkey
  obtain ⟨pack, hp, rfl, harchive⟩ := h key data (hpub.symm.trans hkey)
  exact ⟨pack, hpacks.trans hp, rfl, (hstore pack hp).trans harchive⟩

/-- A request for another pack leaves the archive of a pack alone. -/
lemma Happens.frame (h : s.Happens id' followed t) (hne : id ≠ id') (hs : s.SlugsApart)
    (ht : t.SlugsApart) (hkept : s.Kept id) : t.published id = s.published id ∧ t.Kept id := by
  have hother : ∀ value, Function.update s.published id' value id = s.published id :=
    fun value => Function.update_of_ne hne value s.published
  cases h with
  | nothing h =>
    subst h
    exact ⟨rfl, hkept⟩
  | published hp' hpacks hstore hpub =>
    have hsame := (congrFun hpub id).trans (hother _)
    refine ⟨hsame, hkept.congr hsame (by rw [hpacks]) fun pack hp => ?_⟩
    rw [hstore, AList.lookup_insert_ne (hs.key_ne hp hp' hne)]
  | @moved pack' name data hp' hpacks hstore hpub =>
    have hsame := (congrFun hpub id).trans (hother _)
    have hpack : t.packs.lookup id = s.packs.lookup id := by rw [hpacks, AList.lookup_insert_ne hne]
    refine ⟨hsame, hkept.congr hsame hpack fun pack hp => ?_⟩
    -- the new key is not the pack's, for both names stand in the table after the rename
    have hrenamed : t.packs.lookup id' = some { pack' with name } := by
      rw [hpacks, AList.lookup_insert]
    have hnew := ht.key_ne (hpack.trans hp) hrenamed hne
    rcases hstore with hstore | ⟨_, hstore⟩
    · rw [hstore, AList.lookup_insert_ne hnew]
    · rw [hstore, AList.lookup_erase_ne (hs.key_ne hp hp' hne), AList.lookup_insert_ne hnew]
  | left hp' _ hpacks hstore hpub =>
    have hsame := congrFun hpub id
    exact ⟨hsame, hkept.congr hsame
      (by rw [hpacks, AList.lookup_insert_ne hne]) fun _ _ => by rw [hstore]⟩
  | unpublished hp' hpacks hstore hpub =>
    have hsame := (congrFun hpub id).trans (hother _)
    have hpack : t.packs.lookup id = s.packs.lookup id := by
      rcases hpacks with hpacks | hpacks
      · rw [hpacks]
      · rw [hpacks, AList.lookup_erase_ne hne]
    refine ⟨hsame, hkept.congr hsame hpack fun pack hp => ?_⟩
    rw [hstore, AList.lookup_erase_ne (hs.key_ne hp hp' hne)]

/-- After a request for a pack, what is then last published for it lies under the key of its
name. -/
lemma Happens.own (h : s.Happens id followed t) (hfollowed : s.published id = none ∨ followed)
    (hkept : s.Kept id) : t.Kept id := by
  cases h with
  | nothing h =>
    subst h
    exact hkept
  | @published pack data hp hpacks hstore hpub =>
    intro key data' hkey
    rw [hpub, Function.update_self] at hkey
    cases hkey
    refine ⟨pack, ?_, rfl, ?_⟩
    · rw [hpacks, hp]
    · rw [hstore, AList.lookup_insert]
  | @moved pack name data hp hpacks hstore hpub =>
    intro key data' hkey
    rw [hpub, Function.update_self] at hkey
    cases hkey
    refine ⟨{ pack with name }, ?_, rfl, ?_⟩
    · rw [hpacks, AList.lookup_insert]
    · rcases hstore with hstore | ⟨hne, hstore⟩
      · rw [hstore, AList.lookup_insert]
      · rw [hstore, AList.lookup_erase_ne hne, AList.lookup_insert]
  | left hp hleft hpacks hstore hpub =>
    intro key data hkey
    rw [hpub, hfollowed.resolve_right hleft] at hkey
    cases hkey
  | unpublished hp hpacks hstore hpub =>
    intro key data hkey
    rw [hpub, Function.update_self] at hkey
    cases hkey

/-- What an orderly request leaves. -/
lemma step_kept (hg : Orderly repr a s) (hs : s.SlugsApart) (hkept : ∀ id, s.Kept id) :
    ∀ id, (step repr a s).Kept id := by
  intro id
  have hstep : s.Happens a.pack a.Followed (step repr a s) := step_happens s
  by_cases hid : id = a.pack
  · subst hid
    exact hstep.own hg.2 (hkept _)
  · exact (hstep.frame hid hs hg.1 (hkept id)).2

end Mirror

open Mirror

/-- Mirroring one pack leaves the archives of the others alone: along every history of requests
after which no two packs come down to one key, and in which the source follows the renames of
published packs, a request for one pack neither overwrites nor deletes the archive that was last
published for another. -/
theorem mirroring_keeps_others (repr : Text → Text) (start s : Mirror) (history : List MirrorAction)
    (hstart : start.SlugsApart) (hnone : ∀ id, start.published id = none)
    (hruns : Runs (step repr) (Orderly repr) start history s) (a : MirrorAction)
    (ha : Orderly repr a s) (id : ℕ) (hid : id ≠ a.pack) (key : Text) (data : Bytes)
    (hpub : s.published id = some (key, data)) :
    s.store.lookup key = some ⟨id, data⟩ ∧ (step repr a s).store.lookup key = some ⟨id, data⟩ := by
  have hinv : s.SlugsApart ∧ ∀ id, s.Kept id := by
    refine hruns.invariant (I := fun s => s.SlugsApart ∧ ∀ id, s.Kept id)
      (fun a s hg hs => ⟨hg.1, step_kept hg hs.1 hs.2⟩) ⟨hstart, fun id key data h => ?_⟩
    rw [hnone id] at h
    cases h
  obtain ⟨hapart, hkept⟩ := hinv
  have hstep : s.Happens a.pack a.Followed (step repr a s) := step_happens s
  obtain ⟨hsame, hkept'⟩ := hstep.frame hid hapart ha.1 (hkept id)
  obtain ⟨_, _, _, hbefore⟩ := hkept id key data hpub
  obtain ⟨_, _, _, hafter⟩ := hkept' key data (hsame.trans hpub)
  exact ⟨hbefore, hafter⟩

/-- Two packs, of which nothing is published yet. -/
def twoPacks (name name' : String) : Mirror where
  packs := ((∅ : AList fun _ : ℕ => MirroredPack).insert 1 ⟨name.toList, false⟩).insert 2
    ⟨name'.toList, false⟩
  store := ∅
  published := fun _ => none

/-- A publication that goes well. -/
def publication (id : ℕ) (data : Bytes) : MirrorAction := .publish id ⟨true, true⟩ {} (.ok data)

/-- One pack is published, then the other. -/
theorem mirroring_keeps_others_two :
    (exec (step id) (twoPacks "web" "mail") [publication 1 [1], publication 2 [2]]).store.lookup
      "web.tar.gz".toList = some ⟨1, [1]⟩ := by
  have hfirst : Orderly id (publication 1 [1]) (twoPacks "web" "mail") :=
    ⟨by decide +kernel, .inr trivial⟩
  have hsecond : Orderly id (publication 2 [2])
      (exec (step id) (twoPacks "web" "mail") [publication 1 [1]]) :=
    ⟨by decide +kernel, .inr trivial⟩
  exact (mirroring_keeps_others id (twoPacks "web" "mail") _ [publication 1 [1]] (by decide +kernel)
    (fun _ => rfl) (.cons hfirst (.nil _)) (publication 2 [2]) hsecond 1 (by decide)
    "web.tar.gz".toList [1] (by decide +kernel)).2

/-- Two names with the same key: the second pack is published over the first. -/
theorem mirroring_overwrites :
    (twoPacks "a b" "a-b").packs.entries.Pairwise (fun e e' => e.2.name ≠ e'.2.name) ∧
      (exec (step id) (twoPacks "a b" "a-b") [publication 1 [1]]).published 1 =
        some ("a-b.tar.gz".toList, [1]) ∧
      (exec (step id) (twoPacks "a b" "a-b") [publication 1 [1]]).store.lookup "a-b.tar.gz".toList =
        some ⟨1, [1]⟩ ∧
      (exec (step id) (twoPacks "a b" "a-b") [publication 1 [1], publication 2 [2]]).store.lookup
        "a-b.tar.gz".toList = some ⟨2, [2]⟩ := by
  decide +kernel

/-- A rename that the source does not follow, and another pack that takes the name. -/
example :
    (exec (step id) (twoPacks "web" "mail") [publication 1 [1],
      .rename 1 ⟨true, false⟩ {} (.ok [1]) "dns".toList true,
      .rename 2 ⟨true, true⟩ {} (.ok [2]) "web".toList true]).store.lookup "web.tar.gz".toList =
        some ⟨2, [2]⟩ := by
  decide +kernel

end Stoker
