import Stoker.Packs.Extraction

/-!
# What an upload leaves

An upload that fails leaves the disk as it was. One that succeeds leaves one directory more, beside
the packs that were there, and in it the files below the root that was found, each with the bytes of
the last member of its path.
-/

open List

namespace Stoker

open Files

/-! ### A name that is free -/

lemma candidateName_injective (slug : Text) : Function.Injective (candidateName slug) := by
  intro m n h
  cases m with
  | zero =>
    cases n with
    | zero => rfl
    | succ n =>
      have := congrArg length h
      simp [candidateName] at this
  | succ m =>
    cases n with
    | zero =>
      have := congrArg length h
      simp [candidateName] at this
    | succ n =>
      have hdigits : Nat.toDigits 10 (m + 2) = Nat.toDigits 10 (n + 2) :=
        (cons.inj (append_cancel_left h)).2
      have hnumber := congrArg (Nat.ofDigitChars 10 · 0) hdigits
      simp only [Nat.ofDigitChars_toDigits (show 1 < 10 by decide) (le_refl 10)] at hnumber
      omega

lemma firstFree_spec (taken : ℕ → Bool) (tries : ℕ) {n k : ℕ} (hn : n ≤ k) (hk : k ≤ n + tries)
    (hfree : taken k = false) : taken (firstFree taken tries n) = false := by
  induction tries generalizing n with
  | zero =>
    have : k = n := by omega
    rwa [← this]
  | succ tries ih =>
    unfold firstFree
    split
    · rename_i htaken
      have hne : k ≠ n := by
        rintro rfl
        rw [hfree] at htaken
        cases htaken
      exact ih (by omega) (by omega)
    · rename_i htaken
      simpa using htaken

/-- The loop of `_unique_pack_dir` ends, at a path that is not there. -/
lemma uniquePackDir_free (disk : Disk Text Bytes) (upload : List Text) (hint : Text) :
    disk.node (uniquePackDir disk upload hint) = none := by
  have hexists : ∃ k ≤ disk.length,
      disk.node (upload ++ [candidateName (slug hint) k]) = none := by
    by_contra hall
    push Not at hall
    -- Otherwise there are more paths than entries.
    let paths := (range (disk.length + 1)).map fun k => upload ++ [candidateName (slug hint) k]
    have hnodup : paths.Nodup := by
      refine Nodup.map ?_ nodup_range
      intro i j hij
      refine candidateName_injective (slug hint) ?_
      simpa using hij
    have hsub : paths ⊆ disk.map Prod.fst := by
      intro p hp
      obtain ⟨k, hk, rfl⟩ := mem_map.mp hp
      obtain ⟨e, he, hep⟩ :=
        Disk.node_ne_none_iff.mp (hall k (Nat.lt_succ_iff.mp (mem_range.mp hk)))
      exact mem_map.mpr ⟨e, he, hep⟩
    have := (hnodup.subperm hsub).length_le
    simp [paths] at this
  obtain ⟨k, hk, hfree⟩ := hexists
  have := firstFree_spec (fun n => (disk.node (upload ++ [candidateName (slug hint) n])).isSome)
    disk.length (Nat.zero_le k) (by omega) (by simp [hfree])
  simpa [uniquePackDir] using this

/-! ### Staging -/

/-- Directories beside each other have nothing in common. -/
lemma not_isPrefix_of_beside (upload : List Text) {a b : Text} (h : a ≠ b) (r : List Text) :
    ¬ (upload ++ [a]) <+: (upload ++ [b] ++ r) := by
  intro hprefix
  have hle : (upload ++ [a]).length ≤ (upload ++ [b]).length := by simp
  have := (prefix_of_prefix_length_le hprefix (prefix_append _ r) hle).eq_of_length
    (by simp)
  exact h (by simpa using this)

section

variable {disk d : Disk Text Bytes} {staging : List Text}

lemma staging_plainBelow (hempty : ∀ e ∈ disk, ¬ staging <+: e.1) :
    (disk.put staging .dir).PlainBelow staging := by
  rintro p n ⟨r, hr, rfl⟩ hn
  have hne : staging ≠ staging ++ r := fun h => hr (by simpa using h)
  rw [Disk.node_put_of_ne _ hne] at hn
  exact absurd (prefix_append staging r) (hempty _ (Disk.node_mem hn))

lemma staging_content (hempty : ∀ e ∈ disk, ¬ staging <+: e.1) (q : List Text) :
    (disk.put staging .dir).content (staging ++ q) = none := by
  by_cases hq : q = []
  · simp [hq, Disk.content]
  · have hne : staging ≠ staging ++ q := fun h => hq (by simpa using h)
    rw [Disk.content_put_of_ne _ hne, Disk.content]
    split
    · rename_i b hb
      exact absurd (prefix_append staging q) (hempty _ (Disk.node_mem hb))
    · rfl

variable (hgrown : Disk.Grown staging (disk.put staging .dir) d)

include hgrown

lemma staged_node : d.node staging = some .dir := by
  rw [hgrown.node_of_not_below, Disk.node_put_self]
  rintro ⟨r, hr, h⟩
  exact hr (by simpa using h)

lemma staged_node_outside {p : List Text} (hp : ¬ staging <+: p) : d.node p = disk.node p := by
  rw [hgrown.node_of_not_below fun h => hp h.isPrefix, Disk.node_put_of_ne]
  rintro rfl
  exact hp (prefix_refl _)

end

/-! ### The stored pack -/

/-- The path a pack is stored under, and what is there. -/
structure StoredAt (upload : List Text) (disk disk' : Disk Text Bytes) (final : List Text)
    (contents : List Text → Option Bytes) : Prop where
  beside : ∃ name, final = upload ++ [name]
  free : disk.node final = none
  dir : disk'.node final = some .dir
  plain : ∀ r n, disk'.node (final ++ r) = some n → n.Plain
  content : ∀ r, disk'.content (final ++ r) = contents r
  others : ∀ p, ¬ final <+: p → disk'.node p = disk.node p

variable {rel : List Text}

section

variable {upload : List Text} {stagingName name : Text} {disk d : Disk Text Bytes}
  (hrooted : disk.Rooted) (hfresh : disk.node (upload ++ [stagingName]) = none)
  (hgrown : Disk.Grown (upload ++ [stagingName]) (disk.put (upload ++ [stagingName]) .dir) d)
  (hfree : d.node (upload ++ [name]) = none)

include hgrown hfree

lemma stagingName_ne : stagingName ≠ name := by
  rintro rfl
  rw [staged_node hgrown] at hfree
  cases hfree

lemma free_before : disk.node (upload ++ [name]) = none := by
  have hout := not_isPrefix_of_beside upload (stagingName_ne hgrown hfree) []
  rw [append_nil] at hout
  rw [← staged_node_outside hgrown hout]
  exact hfree

include hrooted in
lemma nothing_under_free : ∀ e ∈ d, ¬ (upload ++ [name]) <+: e.1 := by
  rintro e he ⟨r, hr⟩
  have hnode : disk.node e.1 ≠ none := by
    rw [← hr, ← staged_node_outside hgrown
      (not_isPrefix_of_beside upload (stagingName_ne hgrown hfree) r), hr]
    exact Disk.node_ne_none_iff.mpr ⟨e, he, rfl⟩
  obtain ⟨e', he', heq⟩ := Disk.node_ne_none_iff.mp hnode
  exact hrooted.not_isPrefix (free_before hgrown hfree) e' he' ⟨r, by rw [hr, heq]⟩

include hrooted in
lemma node_renamed (rel r : List Text) :
    ((d.rename (upload ++ [stagingName] ++ rel) (upload ++ [name])).removeTree
      (upload ++ [stagingName])).node (upload ++ [name] ++ r) =
      d.node (upload ++ [stagingName] ++ rel ++ r) := by
  rw [Disk.node_removeTree (not_isPrefix_of_beside upload (stagingName_ne hgrown hfree) r),
    Disk.node_rename_of_moved (nothing_under_free hrooted hgrown hfree)]

include hrooted hfresh in
lemma storedAt_of_rename (hroot : d.node (upload ++ [stagingName] ++ rel) = some .dir) :
    StoredAt upload disk ((d.rename (upload ++ [stagingName] ++ rel) (upload ++ [name])).removeTree
        (upload ++ [stagingName]))
      (upload ++ [name]) fun r => d.content (upload ++ [stagingName] ++ rel ++ r) where
  beside := ⟨name, rfl⟩
  free := free_before hgrown hfree
  dir := by
    have hmoved := node_renamed hrooted hgrown hfree rel []
    rw [append_nil, append_nil] at hmoved
    rw [hmoved]
    exact hroot
  plain := by
    intro r n hn
    rw [node_renamed hrooted hgrown hfree] at hn
    by_cases hrel : rel ++ r = []
    · rw [append_assoc, hrel, append_nil, staged_node hgrown] at hn
      cases hn
      trivial
    · have hplain := hgrown.plainBelow (staging_plainBelow (hrooted.not_isPrefix hfresh))
      exact hplain _ n ⟨rel ++ r, hrel, by simp⟩ hn
  content := fun r => Disk.content_congr (node_renamed hrooted hgrown hfree rel r)
  others := by
    intro p hp
    by_cases hs : (upload ++ [stagingName]) <+: p
    · rw [Disk.node_removeTree_of_isPrefix hs]
      by_contra hnode
      obtain ⟨e, he, rfl⟩ := Disk.node_ne_none_iff.mp (Ne.symm hnode)
      exact hrooted.not_isPrefix hfresh e he hs
    · have hr : ¬ (upload ++ [stagingName] ++ rel) <+: p :=
        fun h => hs ((prefix_append _ rel).trans h)
      rw [Disk.node_removeTree hs, Disk.node_rename_of_other hr hp, staged_node_outside hgrown hs]

end

variable {staging : List Text}

lemma findPackRoot_node {d : Disk Text Bytes} (hstaging : d.node staging = some .dir)
    (h : findPackRoot d staging = .ok rel) : d.node (staging ++ rel) = some .dir := by
  unfold findPackRoot at h
  split at h
  · cases h
    rwa [append_nil]
  · split at h
    · rename_i n hn
      split_ifs at h
      cases h
      have hmem : n ∈ (d.names staging).filter fun n =>
          !isJunk n && decide (d.node (staging ++ [n]) = some .dir) := by
        rw [hn]
        exact mem_singleton_self n
      have hdir := (mem_filter.mp hmem).2
      rw [Bool.and_eq_true] at hdir
      exact of_decide_eq_true hdir.2
    · cases h

lemma Wrote.content_staged {limits : UploadLimits} {disk : Disk Text Bytes} {s : Extraction}
    {ws members : List (List Text × Bytes)}
    (h : Wrote limits staging 0 { disk := disk.put staging .dir } s ws)
    (hempty : ∀ e ∈ disk, ¬ staging <+: e.1)
    (hall : ws = members.map fun w => (staging ++ w.1, w.2)) :
    (fun r => s.disk.content (staging ++ rel ++ r)) = fun r => lastWritten members (rel ++ r) := by
  funext r
  rw [h.content, append_assoc, staging_content hempty, hall]
  exact lastWritten_below staging members (rel ++ r)

/-- What an upload should do. -/
structure Confined (env : UploadEnv) (limits : UploadLimits) (upload : List Text)
    (stagingName : Text) (data : Bytes) (disk : Disk Text Bytes) (out : StoredUpload) : Prop where
  /-- Extraction makes the staging directory, and plain files and directories strictly below it. -/
  below : out.extracted.disk = disk ∨ Disk.Grown (upload ++ [stagingName])
    (disk.put (upload ++ [stagingName]) .dir) out.extracted.disk
  perFile : ∀ w ∈ out.extracted.written, w.2.length ≤ limits.maxMemberBytes.toNat
  inAll : bytesOf out.extracted.written ≤ limits.maxTotalBytes.toNat
  files : out.extracted.written.length ≤ limits.maxMembers.toNat
  /-- A success leaves one directory more, with the last bytes of each path below the root. -/
  success : ∀ final, out.result = .ok final → ∃ format rel, detectFormat data = some format ∧
    findPackRoot out.extracted.disk (upload ++ [stagingName]) = .ok rel ∧
    StoredAt upload disk out.disk final fun r => lastWritten (memberWrites env format data)
      (rel ++ r)
  failure : ∀ e, out.result = .error e → out.disk = disk

section

variable {env : UploadEnv} {limits : UploadLimits} {upload : List Text} {stagingName : Text}
  {data : Bytes} {disk : Disk Text Bytes}

lemma confined_of_untouched (e : UploadError) :
    Confined env limits upload stagingName data disk
      { extracted := { disk }, disk, result := .error e } where
  below := .inl rfl
  perFile := by simp
  inAll := by simp [bytesOf]
  files := by simp
  success := by rintro final ⟨⟩
  failure := fun _ _ => rfl

/-- An upload that ends after extraction, well or not. -/
lemma confined_of_wrote {s : Extraction} {ws : List (List Text × Bytes)} {disk' : Disk Text Bytes}
    {result : Except UploadError (List Text)}
    (hwrote : Wrote limits (upload ++ [stagingName]) 0
      { disk := disk.put (upload ++ [stagingName]) .dir } s ws)
    (hfew : ws.length ≤ limits.maxMembers.toNat)
    (hok : ∀ final, result = .ok final → ∃ format rel, detectFormat data = some format ∧
      findPackRoot s.disk (upload ++ [stagingName]) = .ok rel ∧
      StoredAt upload disk disk' final fun r => lastWritten (memberWrites env format data)
        (rel ++ r))
    (herror : ∀ e, result = .error e → disk' = disk) :
    Confined env limits upload stagingName data disk { extracted := s, disk := disk', result } where
  below := .inr hwrote.grown
  perFile := by
    intro w hw
    rw [hwrote.written] at hw
    exact hwrote.perFile w hw
  inAll := by
    have := hwrote.inAll (Nat.zero_le _)
    rw [hwrote.written]
    simpa using this
  files := by
    rw [hwrote.written]
    exact hfew
  success := hok
  failure := herror

end

/-- What an upload comes to: it ends before anything is made, or after extraction, or it stores the
pack under a name that is free. -/
inductive StoreHappens (env : UploadEnv) (limits : UploadLimits) (upload : List Text)
    (stagingName : Text) (data : Bytes) (disk : Disk Text Bytes) : StoredUpload → Prop where
  | untouched (e : UploadError) :
      StoreHappens env limits upload stagingName data disk
        { extracted := { disk }, disk, result := .error e }
  | removed {format : ArchiveFormat} {s : Extraction} {failure : Option UploadError}
      (hfresh : disk.node (upload ++ [stagingName]) = none)
      (hextract : extractArchive env limits (upload ++ [stagingName]) format data
        { disk := disk.put (upload ++ [stagingName]) .dir } = (s, failure)) (e : UploadError) :
      StoreHappens env limits upload stagingName data disk
        { extracted := s, disk := s.disk.removeTree (upload ++ [stagingName]), result := .error e }
  | stored {format : ArchiveFormat} {s : Extraction} {rel : List Text} {name : Text}
      (hformat : detectFormat data = some format)
      (hfresh : disk.node (upload ++ [stagingName]) = none)
      (hextract : extractArchive env limits (upload ++ [stagingName]) format data
        { disk := disk.put (upload ++ [stagingName]) .dir } = (s, none))
      (hrel : findPackRoot s.disk (upload ++ [stagingName]) = .ok rel)
      (hfree : s.disk.node (upload ++ [name]) = none) :
      StoreHappens env limits upload stagingName data disk
        { extracted := s
          disk := (s.disk.rename (upload ++ [stagingName] ++ rel) (upload ++ [name])).removeTree
            (upload ++ [stagingName])
          result := .ok (upload ++ [name]) }

lemma storeUploadedPack_happens (env : UploadEnv) (limits : UploadLimits) (upload : List Text)
    (stagingName : Text) (nameHint : Option Text) (data : Bytes) (disk : Disk Text Bytes) :
    StoreHappens env limits upload stagingName data disk
      (storeUploadedPack env limits upload stagingName nameHint data disk) := by
  simp only [storeUploadedPack]
  split
  · exact .untouched _
  · rename_i format hformat
    split
    · exact .untouched _
    · rename_i hmade
      rw [not_or, not_not] at hmade
      rcases hextract : extractArchive env limits (upload ++ [stagingName]) format data
        { disk := disk.put (upload ++ [stagingName]) .dir } with ⟨s, failure⟩
      dsimp only
      split
      · exact .removed hmade.2 hextract _
      · split
        · exact .removed hmade.2 hextract _
        · rename_i rel hrel
          split
          · exact .stored hformat hmade.2 hextract hrel (uniquePackDir_free _ upload _)
          · exact .removed hmade.2 hextract _

theorem upload_confined (env : UploadEnv) (limits : UploadLimits) (upload : List Text)
    (stagingName : Text) (nameHint : Option Text) (data : Bytes) (disk : Disk Text Bytes)
    (hrooted : disk.Rooted) :
    Confined env limits upload stagingName data disk
      (storeUploadedPack env limits upload stagingName nameHint data disk) := by
  have hout := storeUploadedPack_happens env limits upload stagingName nameHint data disk
  generalize storeUploadedPack env limits upload stagingName nameHint data disk = out at hout ⊢
  cases hout with
  | untouched e => exact confined_of_untouched e
  | @removed format s failure hfresh hextract e =>
    have hempty := hrooted.not_isPrefix hfresh
    obtain ⟨ws, hwrote, hfew, _⟩ :=
      extractArchive_wrote env limits format data (staging_plainBelow hempty)
        (s := { disk := disk.put (upload ++ [stagingName]) .dir })
    rw [hextract] at hwrote
    exact confined_of_wrote hwrote hfew (by rintro _ ⟨⟩) fun _ _ => hwrote.grown.removeTree hempty
  | @stored format s rel name hformat hfresh hextract hrel hfree =>
    have hempty := hrooted.not_isPrefix hfresh
    obtain ⟨ws, hwrote, hfew, hall⟩ :=
      extractArchive_wrote env limits format data (staging_plainBelow hempty)
        (s := { disk := disk.put (upload ++ [stagingName]) .dir })
    rw [hextract] at hwrote hall
    refine confined_of_wrote hwrote hfew ?_ (by rintro _ ⟨⟩)
    rintro final ⟨⟩
    refine ⟨format, rel, hformat, hrel, ?_⟩
    rw [← hwrote.content_staged hempty (hall rfl)]
    exact storedAt_of_rename hrooted hfresh hwrote.grown hfree
      (findPackRoot_node (staged_node hwrote.grown) hrel)

/-! ### A folder with a file that is packed twice -/

def emptyUploads : Disk Text Bytes := [([], .dir), (["uploads"], .dir)]

lemma emptyUploads_rooted : emptyUploads.Rooted := by
  intro p c h
  obtain ⟨e, he, hp⟩ := Disk.node_ne_none_iff.mp h
  simp only [emptyUploads, mem_cons, not_mem_nil, or_false] at he
  rcases he with rfl | rfl
  · simp at hp
  · have : p = [] := by
      cases p with
      | nil => rfl
      | cons a p => simp at hp
    rw [this]
    rfl

def folderMembers : List TarMember :=
  [{ name := "web", kind := .dir },
   { name := "web/pack.yaml", kind := .regular, stream := { chunks := [[1, 2], [3]] } },
   { name := "web/samples/a", kind := .regular, stream := { chunks := [[4]] } },
   { name := "web/./pack.yaml", kind := .regular, stream := { chunks := [[5]] } }]

def folderEnv : UploadEnv where
  tar _ := .ok (folderMembers, false)
  zip _ := .error []
  refuses _ := false
  renames _ := true

def folderLimits : UploadLimits where
  maxMembers := 4
  maxMemberBytes := 3
  maxTotalBytes := 5

def folderStored : StoredUpload :=
  storeUploadedPack folderEnv folderLimits ["uploads"] ".extract-1" none gzipMagic
    emptyUploads

theorem upload_confined_folder :
    Confined folderEnv folderLimits ["uploads"] ".extract-1" gzipMagic emptyUploads
      folderStored ∧
    folderStored.disk.node ["uploads", "web"] = some .dir ∧
    folderStored.disk.content ["uploads", "web", "pack.yaml"] = some [5] :=
  ⟨upload_confined folderEnv folderLimits _ _ none gzipMagic emptyUploads emptyUploads_rooted,
    by decide +kernel, by decide +kernel⟩

end Stoker
