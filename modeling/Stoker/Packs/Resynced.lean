import Stoker.Packs.SourceSync

/-!
# What a second sync imports

An instance skips an archive if it has a pack under the stem of the key, so a sync has nothing to do
exactly if the instance has a pack under every stem. A sync without errors leaves such an instance,
whatever it had before, exactly if every archive is imported under its stem.
-/

open List

open Files

namespace Stoker

/-! ### The loop -/

section

variable {env : SyncEnv} {store : PackStore Bytes} {existing keys : List Text} {key : Text}
  {run : SyncRun}

/-- Whatever comes of an archive, the next one can be stored. -/
lemma importArchive_ready {disk : Disk Text Bytes}
    (h : UploadsReady env.uploadDir disk) :
    UploadsReady env.uploadDir (importArchive env store key disk).1 := by
  unfold importArchive
  cases getArchive env store key with
  | error e => exact h
  | ok data =>
    dsimp only
    obtain ⟨hready, hstored⟩ := (storeUploadedPack_happens env.upload env.limits env.uploadDir
      (env.staging key) (some (archiveStem key)) data disk).ready h
    split
    · exact hready
    · rename_i dir hdir
      obtain ⟨name, rfl⟩ := hstored dir hdir
      unfold registerPack
      split
      · refine ⟨hready.rooted.removeTree _, ?_⟩
        rw [Disk.node_removeTree fun hpre => absurd hpre.length_le (by simp)]
        exact hready.dir
      · exact hready
      · exact hready

/-- A sync that has not met an error. -/
def SyncRun.Clean (run : SyncRun) : Prop := run.raised = none ∧ run.report.errors = []

/-- A sync that has imported nothing, and not because of an error. -/
def SyncRun.Idle (run : SyncRun) : Prop := run.Clean ∧ run.report.imported = []

/-- What one round does: the archive is skipped or imported, or there is an error. -/
inductive RoundHappens (env : SyncEnv) (store : PackStore Bytes) (existing : List Text) (key : Text)
    (run run' : SyncRun) : Prop where
  | skipped (hkey : archiveStem key ∈ existing) (hinst : run'.inst = run.inst)
      (himported : run'.report.imported = run.report.imported) (hclean : run'.Clean ↔ run.Clean)
  | imported {pack : SourcePack} (hkey : archiveStem key ∉ existing)
      (hpack : (importArchive env store key run.inst.disk).2 = .imported pack)
      (hpacks : run'.inst.packs = run.inst.packs ++ [pack])
      (himported : run'.report.imported ≠ []) (hclean : run'.Clean ↔ run.Clean)
  | failed (hkey : archiveStem key ∉ existing)
      (hpack : ∀ pack, (importArchive env store key run.inst.disk).2 ≠ .imported pack)
      (hpacks : run'.inst.packs = run.inst.packs) (hclean : ¬ run'.Clean)

variable (env store existing key run) in
lemma syncArchive_happens :
    RoundHappens env store existing key run (syncArchive env store existing key run) := by
  unfold syncArchive
  split_ifs with hkey
  · exact .skipped hkey rfl rfl Iff.rfl
  · rcases houtcome : importArchive env store key run.inst.disk with ⟨disk, outcome⟩
    cases outcome with
    | imported pack => exact .imported hkey (by rw [houtcome]) rfl (by simp) Iff.rfl
    | reported error | raised error =>
      exact .failed hkey (by simp [houtcome]) rfl (by simp [SyncRun.Clean])

/-- A sync that ends without an error went on from one round to the next. -/
lemma syncLoop_cons (h : (syncLoop env store existing (key :: keys) run).Clean) :
    syncLoop env store existing (key :: keys) run =
      syncLoop env store existing keys (syncArchive env store existing key run) := by
  rw [syncLoop] at h ⊢
  cases hraised : (syncArchive env store existing key run).raised with
  | none => rfl
  | some error =>
    exact absurd h.1 (by simp [hraised])

lemma syncLoop_cons_of_clean (h : (syncArchive env store existing key run).Clean) :
    syncLoop env store existing (key :: keys) run =
      syncLoop env store existing keys (syncArchive env store existing key run) := by
  rw [syncLoop, h.1]

lemma syncArchive_ready (h : UploadsReady env.uploadDir run.inst.disk) :
    UploadsReady env.uploadDir (syncArchive env store existing key run).inst.disk := by
  have hready : UploadsReady env.uploadDir (importArchive env store key run.inst.disk).1 :=
    importArchive_ready h
  unfold syncArchive
  split_ifs
  · exact h
  · split
    all_goals
      rename_i houtcome
      rw [houtcome] at hready
      exact hready

lemma names_syncArchive {name : Text} (h : name ∈ run.inst.names) :
    name ∈ (syncArchive env store existing key run).inst.names := by
  have hround := syncArchive_happens env store existing key run
  cases hround with
  | skipped _ hinst _ _ => rwa [hinst]
  | imported _ _ hpacks _ _ =>
    rw [Instance.names, hpacks, map_append]
    exact mem_append_left _ h
  | failed _ _ hpacks _ =>
    rw [Instance.names, hpacks]
    exact h

/-- Every archive of a list that is imported into an instance is imported under its stem. -/
def UnderStems (env : SyncEnv) (store : PackStore Bytes) (keys : List Text) : Prop :=
  ∀ key ∈ keys, ∀ disk pack, UploadsReady env.uploadDir disk →
    (importArchive env store key disk).2 = .imported pack → pack.name = archiveStem key

lemma syncLoop_covers (hready : UploadsReady env.uploadDir run.inst.disk)
    (hnamed : UnderStems env store keys) (hclean : (syncLoop env store existing keys run).Clean) :
    run.Clean ∧ (∀ name ∈ run.inst.names,
      name ∈ (syncLoop env store existing keys run).inst.names) ∧
      ∀ key ∈ keys, archiveStem key ∈ existing ∨
        archiveStem key ∈ (syncLoop env store existing keys run).inst.names := by
  induction keys generalizing run with
  | nil => exact ⟨hclean, fun _ h => h, by simp⟩
  | cons key keys ih =>
    have hnext := syncLoop_cons hclean
    rw [hnext] at hclean ⊢
    obtain ⟨hclean', hkept, hcovered⟩ :=
      ih (syncArchive_ready hready) (fun k hk => hnamed k (mem_cons_of_mem _ hk)) hclean
    have hround := syncArchive_happens env store existing key run
    suffices hkey : run.Clean ∧ (archiveStem key ∈ existing ∨
        archiveStem key ∈ (syncArchive env store existing key run).inst.names) by
      refine ⟨hkey.1, fun name hname => hkept name (names_syncArchive hname), ?_⟩
      exact forall_mem_cons.2 ⟨hkey.2.imp_right (hkept _), hcovered⟩
    cases hround with
    | skipped hkey _ _ hsame => exact ⟨hsame.1 hclean', .inl hkey⟩
    | imported _ hpack hpacks _ hsame =>
      refine ⟨hsame.1 hclean', .inr ?_⟩
      rw [Instance.names, hpacks, map_append, ← hnamed key mem_cons_self _ _ hready hpack]
      simp
    | failed _ _ _ hfailed => exact absurd hclean' hfailed

/-- A sync skips its archives if the instance has a pack under every stem. -/
lemma syncLoop_skips (h : ∀ key ∈ keys, archiveStem key ∈ existing) (hclean : run.Clean) :
    (syncLoop env store existing keys run).Clean ∧
      (syncLoop env store existing keys run).inst = run.inst ∧
      (syncLoop env store existing keys run).report.imported = run.report.imported := by
  induction keys generalizing run with
  | nil => exact ⟨hclean, rfl, rfl⟩
  | cons key keys ih =>
    rw [forall_mem_cons] at h
    have hround := syncArchive_happens env store existing key run
    cases hround with
    | skipped _ hinst himported hsame =>
      rw [syncLoop_cons_of_clean (hsame.2 hclean), ← hinst, ← himported]
      exact ih h.2 (hsame.2 hclean)
    | imported hkey _ _ _ _ | failed hkey _ _ _ => exact absurd h.1 hkey

lemma skips_of_syncLoop_idle (h : (syncLoop env store existing keys run).Idle) :
    run.Idle ∧ ∀ key ∈ keys, archiveStem key ∈ existing := by
  induction keys generalizing run with
  | nil => exact ⟨h, by simp⟩
  | cons key keys ih =>
    rw [syncLoop_cons h.1] at h
    obtain ⟨hidle, hrest⟩ := ih h
    have hround := syncArchive_happens env store existing key run
    cases hround with
    | skipped hkey _ himported hsame =>
      exact ⟨⟨hsame.1 hidle.1, himported ▸ hidle.2⟩, forall_mem_cons.2 ⟨hkey, hrest⟩⟩
    | imported _ _ _ himported _ => exact absurd hidle.2 himported
    | failed _ _ _ hfailed => exact absurd hidle.1 hfailed

/-- A sync that lacks one archive imports that one, and has its name afterwards instead of the
stem. -/
lemma syncLoop_imports_one {pack : SourcePack} (hnodup : keys.Nodup)
    (hothers : ∀ k ∈ keys, k ≠ key → archiveStem k ∈ existing) (hkey : archiveStem key ∉ existing)
    (hpack : (importArchive env store key run.inst.disk).2 = .imported pack) (hclean : run.Clean) :
    (syncLoop env store existing keys run).Clean ∧
      ∀ name ∈ (syncLoop env store existing keys run).inst.names,
        name ∈ run.inst.names ∨ name = pack.name := by
  induction keys generalizing run with
  | nil => exact ⟨hclean, fun _ h => .inl h⟩
  | cons k keys ih =>
    rw [forall_mem_cons] at hothers
    rw [nodup_cons] at hnodup
    have hround := syncArchive_happens env store existing k run
    cases hround with
    | skipped _ hinst _ hsame =>
      rw [syncLoop_cons_of_clean (hsame.2 hclean), ← hinst]
      exact ih hnodup.2 hothers.2 (hinst ▸ hpack) (hsame.2 hclean)
    | @imported pack' hk hpack' hpacks _ hsame =>
      obtain rfl : k = key := by_contra fun hne => hk (hothers.1 hne)
      cases hpack.symm.trans hpack'
      have hrest : ∀ k' ∈ keys, archiveStem k' ∈ existing := fun k' hk' =>
        hothers.2 k' hk' fun heq => hnodup.1 (heq ▸ hk')
      rw [syncLoop_cons_of_clean (hsame.2 hclean)]
      obtain ⟨hdone, hinst, _⟩ : (syncLoop env store existing keys _).Clean ∧ _ ∧ _ :=
        syncLoop_skips hrest (hsame.2 hclean)
      refine ⟨hdone, fun name hname => ?_⟩
      rw [hinst, Instance.names, hpacks, map_append, mem_append] at hname
      exact hname.imp_right mem_singleton.1
    | failed hk hnone _ _ =>
      obtain rfl : k = key := by_contra fun hne => hk (hothers.1 hne)
      exact absurd hpack (hnone pack)

end

/-! ### Syncing twice -/

lemma nodup_listArchives (store : PackStore Bytes) : (listArchives store).Nodup :=
  (perm_insertionSort _ _).nodup_iff.2 (store.nodupKeys.filter _)

variable {key : Text}

lemma eq_of_archiveStem {store : PackStore Bytes} {key' : Text} (hkey : key ∈ listArchives store)
    (hkey' : key' ∈ listArchives store) (h : archiveStem key = archiveStem key') : key = key' := by
  have hwhole : ∀ k ∈ listArchives store, archiveStem k ++ archiveSuffix = k := by
    intro k hk
    have hsuffix := (mem_filter.1 ((mem_insertionSort _).1 hk)).2
    obtain ⟨stem, rfl⟩ := isSuffixOf_iff_suffix.1 hsuffix
    rw [archiveStem, length_append, Nat.add_sub_cancel, take_left]
  rw [← hwhole key hkey, ← hwhole key' hkey', h]

section

variable {env env' : SyncEnv} {store : PackStore Bytes}

lemma syncFromStore_of_lists (hlists : env.listing = none) (inst : Instance) :
    syncFromStore env store inst =
      syncLoop env store inst.names (listArchives store) { inst := inst } := by
  unfold syncFromStore
  rw [hlists]

/-- A sync has nothing to do exactly if the instance has a pack under every stem. -/
lemma syncFromStore_idle_iff (hlists : env.listing = none) {inst : Instance} :
    (syncFromStore env store inst).Idle ↔
      ∀ key ∈ listArchives store, archiveStem key ∈ inst.names := by
  rw [syncFromStore_of_lists hlists]
  refine ⟨fun h => (skips_of_syncLoop_idle h).2, fun h => ?_⟩
  have hfresh : SyncRun.Clean { inst := inst } := ⟨rfl, rfl⟩
  obtain ⟨hclean, _, himported⟩ := syncLoop_skips h hfresh
  exact ⟨hclean, himported⟩

lemma second_sync_idle_iff (hlists : env.listing = none) (hlists' : env'.listing = none) :
    (∀ inst : Instance, UploadsReady env.uploadDir inst.disk →
      (syncFromStore env store inst).Clean →
      (syncFromStore env' store (syncFromStore env store inst).inst).Idle) ↔
      UnderStems env store (listArchives store) := by
  simp only [syncFromStore_idle_iff hlists', syncFromStore_of_lists hlists]
  constructor
  · intro hidle key hkey disk pack hdisk hpack
    by_contra hne
    -- an instance that lacks this archive only
    let others := ((listArchives store).map archiveStem).filter (· ≠ archiveStem key)
    let inst : Instance := ⟨others.map fun name => { name, sourcePath := [] }, disk⟩
    have hnames : inst.names = others := by
      rw [Instance.names, map_map]
      exact map_id' others
    have hothers : ∀ k ∈ listArchives store, k ≠ key → archiveStem k ∈ inst.names := by
      intro k hk hne
      rw [hnames]
      exact mem_filter.2 ⟨mem_map_of_mem hk,
        by simpa using fun h => hne (eq_of_archiveStem hk hkey h)⟩
    have hlacks : archiveStem key ∉ inst.names := by simp [hnames, others]
    have hfresh : SyncRun.Clean { inst := inst } := ⟨rfl, rfl⟩
    obtain ⟨hclean, hleft⟩ :=
      syncLoop_imports_one (nodup_listArchives store) hothers hlacks hpack hfresh
    exact (hleft _ (hidle inst hdisk hclean key hkey)).elim hlacks fun h => hne h.symm
  · intro hnamed inst hready hclean key hkey
    obtain ⟨_, hkept, hcovered⟩ := syncLoop_covers hready hnamed hclean
    exact (hcovered key hkey).elim (hkept _) id

end

/-- From the store that packs are published to, a sync without errors leaves nothing to do for the
next one, whatever the instance, exactly if every archive is imported under its stem. An instance
that has the packs has nothing to do exactly if every stem is the name of one of them. -/
theorem sync_imports_once_iff (x : Exporter) (packs : List SourcePack) (env env' : SyncEnv)
    (hlists : env.listing = none) (hlists' : env'.listing = none) :
    ((∀ inst : Instance, UploadsReady env.uploadDir inst.disk →
      (syncFromStore env (publishAll x packs ∅) inst).Clean →
      (syncFromStore env' (publishAll x packs ∅)
        (syncFromStore env (publishAll x packs ∅) inst).inst).Idle) ↔
      UnderStems env (publishAll x packs ∅) (listArchives (publishAll x packs ∅))) ∧
    ((∀ inst : Instance, (∀ pack ∈ packs, pack.name ∈ inst.names) →
      (syncFromStore env' (publishAll x packs ∅) inst).Idle) ↔
      ∀ key ∈ listArchives (publishAll x packs ∅), ∃ pack ∈ packs,
        pack.name = archiveStem key) := by
  refine ⟨second_sync_idle_iff hlists hlists', ?_⟩
  simp only [syncFromStore_idle_iff hlists']
  constructor
  · intro hidle key hkey
    exact mem_map.1 (hidle ⟨packs, ∅⟩ (fun pack hpack => mem_map_of_mem hpack) key hkey)
  · intro hstems inst hhas key hkey
    obtain ⟨pack, hpack, heq⟩ := hstems key hkey
    exact heq ▸ hhas pack hpack

/-! ### One pack -/

/-- A pack of a `pack.yaml` alone. -/
def yamlExporter : Exporter where
  collect _ := .ok { files := [([packYamlFile], [7])], distinct := by decide, inside := by decide }
  tarGz _ := gzipMagic
  limits := ⟨1, 1, 1, 2⟩

/-- Every archive holds a `pack.yaml` with a name, in a directory. The linter asks for it. -/
def yamlEnv (directory name : String) : SyncEnv where
  upload :=
    { tar _ := .ok ([{ name := arcname [directory.toList, packYamlFile], kind := .regular,
                       stream := { chunks := [[7]] } }], false)
      zip _ := .error []
      refuses _ := false
      renames _ := true }
  limits := ⟨1, 1, 1⟩
  uploadDir := ["uploads"]
  staging key := ".extract-" ++ key
  parsePackYaml _ := .ok { name := some name.toList }
  lint disk dir :=
    if (disk.content (dir ++ [packYamlFile])).isSome then .ok {} else .error (.bundle [])
  explain _ := []

def yamlPack (name : String) : SourcePack where
  name := name.toList
  sourcePath := ["packs", name.toList]

/-- What such an archive is imported under is what its `pack.yaml` says. -/
lemma name_of_yamlEnv {directory name : String} (hne : name.toList ≠ []) {store : PackStore Bytes}
    {disk : Disk Text Bytes} {pack : SourcePack}
    (h : (importArchive (yamlEnv directory name) store key disk).2 = .imported pack) :
    pack.name = name.toList := by
  have hregister : ∀ disk dir, (registerPack (yamlEnv directory name) key disk dir).2 =
      .imported pack →
      pack.name = name.toList := by
    intro disk dir hpack
    unfold registerPack localPackMetadata at hpack
    cases hyaml : disk.content (dir ++ [packYamlFile]) with
    | none =>
      have hlint : (yamlEnv directory name).lint disk dir = .error (.bundle []) :=
        if_neg (by simp [hyaml])
      rw [hyaml, hlint] at hpack
      cases hpack
    | some bytes =>
      have hlint : (yamlEnv directory name).lint disk dir = .ok {} := if_pos (by simp [hyaml])
      have hkept : (some name.toList).filter (· ≠ []) = some name.toList :=
        Option.filter_some_pos (by simpa using hne)
      rw [hyaml, hlint] at hpack
      cases hpack
      dsimp only [importedPack]
      rw [hkept, Option.getD_some, hkept, Option.getD_some]
  unfold importArchive at h
  split at h
  · cases h
  · dsimp only at h
    split at h
    · cases h
    · exact hregister _ _ h

/-- An instance without packs imports the one that is published, and leaves nothing to do for the
next sync; an instance that has it has nothing to do. -/
theorem sync_imports_once_web :
    (syncFromStore (yamlEnv "web" "web") (publishAll yamlExporter [yamlPack "web"] ∅)
      ⟨[], emptyUploads⟩).report.imported = ["web".toList] ∧
    (syncFromStore (yamlEnv "web" "web") (publishAll yamlExporter [yamlPack "web"] ∅)
      (syncFromStore (yamlEnv "web" "web") (publishAll yamlExporter [yamlPack "web"] ∅)
        ⟨[], emptyUploads⟩).inst).Idle ∧
    (syncFromStore (yamlEnv "web" "web") (publishAll yamlExporter [yamlPack "web"] ∅)
      ⟨[yamlPack "web"], emptyUploads⟩).Idle := by
  have honce := sync_imports_once_iff yamlExporter [yamlPack "web"] (yamlEnv "web" "web")
    (yamlEnv "web" "web") rfl rfl
  have hkeys : ∀ key ∈ listArchives (publishAll yamlExporter [yamlPack "web"] ∅),
      archiveStem key = "web" := by decide +kernel
  refine ⟨by decide +kernel, honce.1.2 ?_ _ ⟨emptyUploads_rooted, by decide⟩
    ⟨by decide +kernel, by decide +kernel⟩, honce.2.2 ?_ _ (by simp [Instance.names])⟩
  · intro key hkey disk pack _ hpack
    rw [hkeys key hkey]
    exact name_of_yamlEnv (by decide) hpack
  · exact fun key hkey => ⟨_, mem_singleton_self _, (hkeys key hkey).symm⟩

/-- A name that is not its own stem: the instance that has the pack imports it once more, and so
does the next sync. -/
theorem sync_imports_again :
    (syncFromStore (yamlEnv "My-Pack" "My Pack") (publishAll yamlExporter [yamlPack "My Pack"] ∅)
      ⟨[yamlPack "My Pack"], emptyUploads⟩).report.imported = ["My Pack".toList] ∧
    (syncFromStore (yamlEnv "My-Pack" "My Pack") (publishAll yamlExporter [yamlPack "My Pack"] ∅)
      (syncFromStore (yamlEnv "My-Pack" "My Pack") (publishAll yamlExporter [yamlPack "My Pack"] ∅)
        ⟨[yamlPack "My Pack"], emptyUploads⟩).inst).report.imported = ["My Pack".toList] := by
  decide +kernel

end Stoker
