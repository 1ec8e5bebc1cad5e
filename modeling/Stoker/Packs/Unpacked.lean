import Stoker.Packs.Stored

/-!
# Uploads, one after the other

An upload leaves the disk such that another one can follow: everything on it is in a directory
again, and the directory of uploads is there.
-/

open List

open Files

namespace Stoker

/-! ### The staging directory -/

variable {name : Text}

section

variable (env : UploadEnv) (limits : UploadLimits) {staging : List Text} {s : Extraction}

/-- A disk on which extraction into the staging directory goes on. -/
structure Staged (staging : List Text) (disk : Disk Text Bytes) : Prop where
  rooted : disk.Rooted
  plain : disk.PlainBelow staging
  dir : disk.node staging = some .dir

lemma Staged.of_grown {disk disk' : Disk Text Bytes} (h : Staged staging disk)
    (hgrown : Disk.Grown staging disk disk') (hrooted : disk'.Rooted) : Staged staging disk' where
  rooted := hrooted
  plain := hgrown.plainBelow h.plain
  dir := by
    rw [hgrown.node_of_not_below, h.dir]
    rintro ⟨r, hr, hself⟩
    exact hr (by simpa using hself)

lemma Staged.makedirs (h : Staged staging s.disk) (refuses : List Text → Bool) (parts : List Text) :
    Staged staging (s.disk.makedirs refuses staging parts).1 ∧
      ((s.disk.makedirs refuses staging parts).2 = true →
        (s.disk.makedirs refuses staging parts).1.node (staging ++ parts) = some .dir) := by
  have hdir : s.disk.node (staging ++ []) = some .dir := by
    rw [append_nil]
    exact h.dir
  have hmade := h.rooted.makedirs h.plain refuses [] parts hdir
  have hgrown := (h.plain.makedirs refuses [] parts).1
  rw [append_nil] at hmade hgrown
  exact ⟨h.of_grown hgrown hmade.1, hmade.2⟩

variable {fault : StreamFault → UploadError} {parts : List Text} {stream : Stream} {total : ℕ}

lemma copyInto_rooted (hparts : parts ≠ []) (h : s.disk.Rooted)
    (hdir : s.disk.node (staging ++ parts.dropLast) = some .dir) :
    (copyInto env limits name stream fault (staging ++ parts) total s).1.disk.Rooted := by
  have hdest : staging ++ parts = staging ++ parts.dropLast ++ [parts.getLast hparts] := by
    rw [append_assoc, dropLast_append_getLast]
  unfold copyInto
  rw [hdest]
  split
  · exact h
  · rename_i hfree
    rw [not_or] at hfree
    have hput := h.put (n := .file (copyChunks limits name total stream.chunks []).1) hdir
      fun hthere => absurd hthere hfree.1
    dsimp only
    split
    · exact hput
    · exact hput
    · exact hput

lemma copyCapped_staged (hparts : parts ≠ []) (h : Staged staging s.disk) :
    Staged staging (copyCapped env limits staging name stream fault parts total s).1.disk := by
  obtain ⟨hmade, hlast⟩ := h.makedirs env.refuses parts.dropLast
  obtain ⟨ws, hwrote, _⟩ := copyCapped_wrote env limits name stream fault h.plain hparts total
  refine h.of_grown hwrote.grown ?_
  unfold copyCapped
  dsimp only
  split
  · rename_i hok
    rw [hmade.plain.realpath]
    exact copyInto_rooted env limits hparts hmade.rooted (hlast hok)
  · exact hmade.rooted

lemma extractMember_staged (request : MemberRequest) (total : ℕ) (h : Staged staging s.disk) :
    Staged staging (extractMember env limits staging request total s).1.disk := by
  cases request with
  | refuse e => exact h
  | mkdir name =>
    simp only [extractMember]
    split
    · exact h
    · rename_i parts _
      exact (h.makedirs env.refuses parts).1
  | write name stream fault =>
    simp only [extractMember]
    split
    · exact h
    · rename_i parts hdest
      split
      · exact h
      · exact copyCapped_staged env limits (memberParts_ne_nil (memberDest_ok hdest)) h

lemma extractLoop_staged (tooMany : ℕ → Bool) (requests : List MemberRequest) (members total : ℕ)
    (h : Staged staging s.disk) :
    Staged staging (extractLoop env limits staging tooMany requests members total s).1.disk := by
  induction requests generalizing members total s with
  | nil => exact h
  | cons request rest ih =>
    have hmember := extractMember_staged env limits request total h
    unfold extractLoop
    split
    · exact h
    · split
      · rename_i s' e hs'
        rw [hs'] at hmember
        exact hmember
      · rename_i s' total' hs'
        rw [hs'] at hmember
        exact ih _ _ hmember

lemma extractArchive_staged (format : ArchiveFormat) (data : Bytes) (h : Staged staging s.disk) :
    Staged staging (extractArchive env limits staging format data s).1.disk := by
  cases format with
  | zip =>
    simp only [extractArchive, extractZip]
    split
    · exact h
    · split
      · exact h
      · exact extractLoop_staged env limits _ _ _ _ h
  | tar =>
    simp only [extractArchive, extractTar]
    split
    · exact h
    · rename_i members broken _
      have hloop := extractLoop_staged env limits (fun n => decide (limits.maxMembers < n))
        (members.map (·.request)) 0 0 h
      split
      · rename_i s' e hs'
        rw [hs'] at hloop
        exact hloop
      · rename_i s' hs'
        rw [hs'] at hloop
        exact hloop

end

/-! ### An upload that succeeds -/

lemma rooted_renamed {upload : List Text} {stagingName : Text} {disk d : Disk Text Bytes}
    (hrooted : disk.Rooted) (hfresh : disk.node (upload ++ [stagingName]) = none)
    (hgrown : Disk.Grown (upload ++ [stagingName]) (disk.put (upload ++ [stagingName]) .dir) d)
    (hfree : d.node (upload ++ [name]) = none) (hd : d.Rooted)
    (hupload : disk.node upload = some .dir)
    {rel : List Text} (hroot : d.node (upload ++ [stagingName] ++ rel) = some .dir) :
    ((d.rename (upload ++ [stagingName] ++ rel) (upload ++ [name])).removeTree
      (upload ++ [stagingName])).Rooted := by
  have hstored := storedAt_of_rename hrooted hfresh hgrown hfree hroot
  intro p c hpc
  by_cases hin : upload ++ [name] <+: p
  · obtain ⟨r, rfl⟩ := hin
    rw [append_assoc (upload ++ [name]), node_renamed hrooted hgrown hfree rel] at hpc
    rw [node_renamed hrooted hgrown hfree rel]
    exact hd _ c (by simpa using hpc)
  · by_cases hself : upload ++ [name] = p ++ [c]
    · obtain ⟨rfl, _⟩ := append_inj' hself rfl
      rw [hstored.others _ hin]
      exact hupload
    · have hout : ¬ upload ++ [name] <+: p ++ [c] := by
        rw [prefix_concat_iff, not_or]
        exact ⟨hself, hin⟩
      rw [hstored.others _ hout] at hpc
      rw [hstored.others _ hin]
      exact hrooted p c hpc

structure UploadsReady (upload : List Text) (disk : Disk Text Bytes) : Prop where
  rooted : disk.Rooted
  dir : disk.node upload = some .dir

section

variable {env : UploadEnv} {limits : UploadLimits} {upload : List Text} {stagingName : Text}
  {data : Bytes} {disk : Disk Text Bytes} {out : StoredUpload}

/-- What an upload leaves: a disk for the next one, and a pack that it stores in the directory of
uploads. -/
lemma StoreHappens.ready (hout : StoreHappens env limits upload stagingName data disk out)
    (h : UploadsReady upload disk) :
    UploadsReady upload out.disk ∧ ∀ final, out.result = .ok final →
    ∃ name, final = upload ++ [name] := by
  cases hout with
  | untouched e => exact ⟨h, by rintro _ ⟨⟩⟩
  | @removed format s failure hfresh hextract e =>
    have hempty := h.rooted.not_isPrefix hfresh
    obtain ⟨ws, hwrote, _⟩ := extractArchive_wrote env limits format data
      (s := { disk := disk.put (upload ++ [stagingName]) .dir }) (staging_plainBelow hempty)
    rw [hextract] at hwrote
    refine ⟨?_, by rintro _ ⟨⟩⟩
    rw [hwrote.grown.removeTree hempty]
    exact h
  | @stored format s rel name _ hfresh hextract hrel hfree =>
    have hempty := h.rooted.not_isPrefix hfresh
    have hstart : Staged (upload ++ [stagingName]) (disk.put (upload ++ [stagingName]) .dir) :=
      ⟨h.rooted.put h.dir fun _ => rfl, staging_plainBelow hempty, Disk.node_put_self _ _ _⟩
    have hstaged := extractArchive_staged env limits format data
      (s := { disk := disk.put (upload ++ [stagingName]) .dir }) hstart
    obtain ⟨ws, hwrote, _⟩ := extractArchive_wrote env limits format data
      (s := { disk := disk.put (upload ++ [stagingName]) .dir }) hstart.plain
    rw [hextract] at hstaged hwrote
    have hroot := findPackRoot_node hstaged.dir hrel
    have hstored := storedAt_of_rename h.rooted hfresh hwrote.grown hfree hroot
    refine ⟨⟨rooted_renamed h.rooted hfresh hwrote.grown hfree hstaged.rooted h.dir hroot, ?_⟩, ?_⟩
    · rw [hstored.others upload fun hpre => absurd hpre.length_le (by simp)]
      exact h.dir
    · rintro final ⟨⟩
      exact ⟨name, rfl⟩

end

end Stoker
