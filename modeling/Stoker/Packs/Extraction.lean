import Stoker.Packs.Upload

/-!
# Extraction stays in its directory

What the members of an archive write, whether or not extraction ends well: plain files and
directories strictly below the staging directory, no more bytes in a file, bytes in all and files
than the limits allow, and in each file the bytes that were written to it last. Each member is one
`Wrote`, and the rounds of a loop compose.
-/

open List

namespace Stoker

open Files

/-- What is in a file after some writes, given what was there before. -/
def overwrite (ws : List (List Text × Bytes)) (p : List Text) (old : Option Bytes) : Option Bytes :=
  ws.foldl (fun acc w => if w.1 = p then some w.2 else acc) old

def lastWritten (ws : List (List Text × Bytes)) (p : List Text) : Option Bytes :=
  overwrite ws p none

/-- How many bytes some writes have in all. -/
def bytesOf (ws : List (List Text × Bytes)) : ℕ := (ws.map fun w => w.2.length).sum

lemma overwrite_append (ws us : List (List Text × Bytes)) (p : List Text) (old : Option Bytes) :
    overwrite (ws ++ us) p old = overwrite us p (overwrite ws p old) := foldl_append

@[simp] lemma bytesOf_append (ws us : List (List Text × Bytes)) :
    bytesOf (ws ++ us) = bytesOf ws + bytesOf us := by
  simp [bytesOf]

lemma overwrite_cons (w : List Text × Bytes) (ws : List (List Text × Bytes)) (p : List Text)
    (old : Option Bytes) : overwrite (w :: ws) p old =
      overwrite ws p (if w.1 = p then some w.2 else old) :=
  rfl

variable {p : List Text} {ws : List (List Text × Bytes)}

lemma lastWritten_below (base : List Text) (ws : List (List Text × Bytes)) (q : List Text) :
    lastWritten (ws.map fun w => (base ++ w.1, w.2)) (base ++ q) = lastWritten ws q := by
  simp only [lastWritten, overwrite, foldl_map, append_cancel_left_eq]

/-! ### Rounds of extraction -/

/-- From `s` to `s'` the writes `ws` were made, after `total` bytes. -/
structure Wrote (limits : UploadLimits) (staging : List Text) (total : ℕ) (s s' : Extraction)
    (ws : List (List Text × Bytes)) : Prop where
  grown : Disk.Grown staging s.disk s'.disk
  written : s'.written = s.written ++ ws
  content : ∀ p, s'.disk.content p = overwrite ws p (s.disk.content p)
  perFile : ∀ w ∈ ws, w.2.length ≤ limits.maxMemberBytes.toNat
  inAll : total ≤ limits.maxTotalBytes.toNat → total + bytesOf ws ≤ limits.maxTotalBytes.toNat

namespace Wrote

variable {limits : UploadLimits} {staging : List Text} {total : ℕ} {s s' s'' : Extraction}
  {ws us : List (List Text × Bytes)}

lemma refl (s : Extraction) : Wrote limits staging total s s [] where
  grown := .refl _ _
  written := (append_nil _).symm
  content _ := rfl
  perFile := by simp
  inAll h := by simpa [bytesOf] using h

lemma of_makedirs (refuses : List Text → Bool) (parts : List Text)
    (h : s.disk.PlainBelow staging) :
    Wrote limits staging total s
      { s with disk := (s.disk.makedirs refuses staging parts).1 } [] := by
  obtain ⟨hgrown, hcontent⟩ := h.makedirs refuses [] parts
  rw [append_nil] at hgrown hcontent
  have hrefl : Wrote limits staging total s s [] := refl s
  exact { hrefl with grown := hgrown, content := hcontent }

lemma trans (h : Wrote limits staging total s s' ws)
    (h' : Wrote limits staging (total + bytesOf ws) s' s'' us) :
    Wrote limits staging total s s'' (ws ++ us) where
  grown := h.grown.trans h'.grown
  written := by rw [h'.written, h.written, append_assoc]
  content p := by rw [h'.content, h.content, overwrite_append]
  perFile := by
    intro w hw
    rcases mem_append.mp hw with hw | hw
    · exact h.perFile w hw
    · exact h'.perFile w hw
  inAll ht := by
    have := h'.inAll (h.inAll ht)
    rw [bytesOf_append]
    omega

end Wrote

lemma copyChunks_spec (limits : UploadLimits) (name : Text) (total : ℕ) (chunks : List Bytes)
    (out : Bytes) (hfile : out.length ≤ limits.maxMemberBytes.toNat)
    (htotal : total ≤ limits.maxTotalBytes.toNat →
      total + out.length ≤ limits.maxTotalBytes.toNat) :
    (copyChunks limits name total chunks out).1.length ≤ limits.maxMemberBytes.toNat ∧
    (total ≤ limits.maxTotalBytes.toNat →
      total + (copyChunks limits name total chunks out).1.length ≤ limits.maxTotalBytes.toNat) ∧
    ((copyChunks limits name total chunks out).2 = none →
      (copyChunks limits name total chunks out).1 = out ++ chunks.flatten) := by
  induction chunks generalizing out with
  | nil => exact ⟨hfile, htotal, fun _ => (append_nil _).symm⟩
  | cons chunk rest ih =>
    unfold copyChunks
    split
    · exact ⟨hfile, htotal, by simp⟩
    · split
      · exact ⟨hfile, htotal, by simp⟩
      · rename_i hmember hall
        obtain ⟨h₁, h₂, h₃⟩ := ih (out ++ chunk) (by omega) (by omega)
        exact ⟨h₁, h₂, fun hnone => by rw [h₃ hnone, flatten_cons, append_assoc]⟩

/-- What a member has to write, by its path below the staging directory. -/
def MemberRequest.writes : MemberRequest → Option (List Text × Bytes)
  | .write name stream _ =>
    match memberParts name with
    | .ok parts => some (parts, stream.chunks.flatten)
    | .error _ => none
  | _ => none

variable {parts : List Text} {name : Text}

lemma memberParts_ne_nil (h : memberParts name = .ok parts) : parts ≠ [] := by
  unfold memberParts at h
  simp only at h
  split_ifs at h with h₁ h₂ h₃ h₄
  cases h
  exact h₃

lemma memberDest_ok {disk : Disk Text Bytes} {staging : List Text}
    (h : memberDest disk staging name = .ok parts) : memberParts name = .ok parts := by
  unfold memberDest at h
  split at h
  · cases h
  · rename_i found hfound
    split_ifs at h
    cases h
    exact hfound

section

variable (env : UploadEnv) (limits : UploadLimits) {staging : List Text}

lemma copyInto_wrote (name : Text) (stream : Stream) (fault : StreamFault → UploadError)
    (hparts : parts ≠ []) (total : ℕ) (s : Extraction) :
    ∃ ws, Wrote limits staging total s
        (copyInto env limits name stream fault (staging ++ parts) total s).1 ws ∧ ws.length ≤ 1 ∧
      ∀ total', (copyInto env limits name stream fault (staging ++ parts) total s).2 = .ok total' →
        total' = total + bytesOf ws ∧ ws = [(staging ++ parts, stream.chunks.flatten)] := by
  unfold copyInto
  split
  · exact ⟨[], .refl s, by simp, by rintro _ ⟨⟩⟩
  · obtain ⟨hfile, htotal, hwhole⟩ :=
      copyChunks_spec limits name total stream.chunks [] (Nat.zero_le _) (fun h => h)
    generalize copyChunks limits name total stream.chunks [] = out at *
    have hwrote : Wrote limits staging total s
        { disk := s.disk.put (staging ++ parts) (.file out.1)
          written := s.written ++ [(staging ++ parts, out.1)] } [(staging ++ parts, out.1)] :=
      { grown := .put (Disk.below_append staging hparts) trivial
        written := rfl
        content := by
          intro p
          by_cases hp : staging ++ parts = p
          · subst hp
            simp [overwrite]
          · rw [Disk.content_put_of_ne _ hp]
            simp [overwrite, hp]
        perFile := by simpa using hfile
        inAll := by simpa [bytesOf] using htotal }
    refine ⟨[(staging ++ parts, out.1)], ?_⟩
    simp only
    split
    · exact ⟨hwrote, by simp, by rintro _ ⟨⟩⟩
    · exact ⟨hwrote, by simp, by rintro _ ⟨⟩⟩
    · rename_i hnone _
      refine ⟨hwrote, by simp, ?_⟩
      rintro total' ⟨⟩
      rw [hwhole hnone]
      simp [bytesOf]

variable {s : Extraction}

lemma copyCapped_wrote (name : Text) (stream : Stream) (fault : StreamFault → UploadError)
    (hplain : s.disk.PlainBelow staging) (hparts : parts ≠ []) (total : ℕ) :
    ∃ ws, Wrote limits staging total s
        (copyCapped env limits staging name stream fault parts total s).1 ws ∧ ws.length ≤ 1 ∧
      ∀ total', (copyCapped env limits staging name stream fault parts total s).2 = .ok total' →
        total' = total + bytesOf ws ∧ ws = [(staging ++ parts, stream.chunks.flatten)] := by
  have hmade : Wrote limits staging total s
      { s with disk := (s.disk.makedirs env.refuses staging parts.dropLast).1 } [] :=
    .of_makedirs env.refuses parts.dropLast hplain
  unfold copyCapped
  simp only
  split
  · rw [(hmade.grown.plainBelow hplain).realpath]
    obtain ⟨ws, hwrote, hone, hok⟩ := copyInto_wrote env limits name stream fault hparts total
      { s with disk := (s.disk.makedirs env.refuses staging parts.dropLast).1 }
    exact ⟨ws, hmade.trans hwrote, hone, hok⟩
  · exact ⟨[], hmade, by simp, by rintro _ ⟨⟩⟩

/-- One member: what it writes, and without an error all that it has to write. -/
lemma extractMember_wrote (request : MemberRequest) (hplain : s.disk.PlainBelow staging)
    (total : ℕ) :
    ∃ ws, Wrote limits staging total s
        (extractMember env limits staging request total s).1 ws ∧ ws.length ≤ 1 ∧
      ∀ total', (extractMember env limits staging request total s).2 = .ok total' →
        total' = total + bytesOf ws ∧
          ws = (request.writes.toList.map fun w => (staging ++ w.1, w.2)) := by
  cases request with
  | refuse e => exact ⟨[], .refl s, by simp, by rintro _ ⟨⟩⟩
  | mkdir name =>
    simp only [extractMember]
    split
    · exact ⟨[], .refl s, by simp, by rintro _ ⟨⟩⟩
    · rename_i parts _
      refine ⟨[], .of_makedirs env.refuses parts hplain, by simp, ?_⟩
      intro total' htotal
      split_ifs at htotal
      cases htotal
      simp [bytesOf, MemberRequest.writes]
  | write name stream fault =>
    simp only [extractMember]
    split
    · exact ⟨[], .refl s, by simp, by rintro _ ⟨⟩⟩
    · rename_i parts hdest
      have hparts := memberDest_ok hdest
      split
      · exact ⟨[], .refl s, by simp, by rintro _ ⟨⟩⟩
      · obtain ⟨ws, hwrote, hone, hok⟩ :=
          copyCapped_wrote env limits name stream fault hplain (memberParts_ne_nil hparts) total
        refine ⟨ws, hwrote, hone, fun total' htotal => ?_⟩
        obtain ⟨hsum, hws⟩ := hok total' htotal
        refine ⟨hsum, ?_⟩
        rw [hws, MemberRequest.writes, hparts]
        rfl

/-- The loop: what it writes, in how many files, and when it ends well all that there is to
write. -/
lemma extractLoop_wrote (tooMany : ℕ → Bool) (requests : List MemberRequest) (members total : ℕ)
    (hplain : s.disk.PlainBelow staging) :
    ∃ ws, Wrote limits staging total s
        (extractLoop env limits staging tooMany requests members total s).1 ws ∧
      ws.length ≤ requests.length ∧
      (∀ bound, (∀ n, tooMany n = false → n ≤ bound) → members ≤ bound →
        members + ws.length ≤ bound) ∧
      ((extractLoop env limits staging tooMany requests members total s).2 = none →
        ws = (requests.filterMap MemberRequest.writes).map fun w => (staging ++ w.1, w.2)) := by
  induction requests generalizing members total s with
  | nil => exact ⟨[], .refl s, by simp, by simp, by simp⟩
  | cons request rest ih =>
    unfold extractLoop
    split
    · exact ⟨[], .refl s, by simp, by simp, by rintro ⟨⟩⟩
    · rename_i hmany
      obtain ⟨ws, hwrote, hone, hok⟩ :=
        extractMember_wrote env limits request hplain total
      split
      · rename_i s' e hs'
        rw [hs'] at hwrote
        refine ⟨ws, hwrote, by simp; omega, ?_, by rintro ⟨⟩⟩
        intro bound hbound _
        have := hbound (members + 1) (by simpa using hmany)
        omega
      · rename_i s' total' hs'
        rw [hs'] at hwrote hok
        obtain ⟨rfl, hws⟩ := hok total' rfl
        obtain ⟨us, hrest, hlength, hcount, hall⟩ :=
          ih (members + 1) (total + bytesOf ws) (hwrote.grown.plainBelow hplain)
        refine ⟨ws ++ us, hwrote.trans hrest, by simp; omega, ?_, ?_⟩
        · intro bound hbound _
          have := hcount bound hbound (hbound (members + 1) (by simpa using hmany))
          rw [length_append]
          omega
        · intro hnone
          rw [hall hnone, hws]
          cases hw : request.writes with
          | none | some w => simp [hw]

/-- The members of an archive, as far as they can be read. -/
def archiveRequests (format : ArchiveFormat) (data : Bytes) : List MemberRequest :=
  match format with
  | .zip => match env.zip data with
    | .ok infos => infos.map (·.request)
    | .error _ => []
  | .tar => match env.tar data with
    | .ok (members, _) => members.map (·.request)
    | .error _ => []

def memberWrites (format : ArchiveFormat) (data : Bytes) : List (List Text × Bytes) :=
  (archiveRequests env format data).filterMap MemberRequest.writes

lemma extractArchive_wrote (format : ArchiveFormat) (data : Bytes)
    (hplain : s.disk.PlainBelow staging) :
    ∃ ws, Wrote limits staging 0 s (extractArchive env limits staging format data s).1 ws ∧
      ws.length ≤ limits.maxMembers.toNat ∧
      ((extractArchive env limits staging format data s).2 = none →
        ws = (memberWrites env format data).map fun w => (staging ++ w.1, w.2)) := by
  cases format with
  | zip =>
    simp only [extractArchive, extractZip, memberWrites, archiveRequests]
    split
    · exact ⟨[], .refl s, by simp, by rintro ⟨⟩⟩
    · rename_i infos hinfos
      split
      · exact ⟨[], .refl s, by simp, by rintro ⟨⟩⟩
      · obtain ⟨ws, hwrote, hlength, -, hall⟩ :=
          extractLoop_wrote env limits (fun _ => false) (infos.map (·.request)) 0 0 hplain
        refine ⟨ws, hwrote, ?_, by simpa only [hinfos] using hall⟩
        rw [length_map] at hlength
        omega
  | tar =>
    simp only [extractArchive, extractTar, memberWrites, archiveRequests]
    split
    · exact ⟨[], .refl s, by simp, by rintro ⟨⟩⟩
    · rename_i members broken hmembers
      obtain ⟨ws, hwrote, -, hcount, hall⟩ := extractLoop_wrote env limits
        (fun n => decide (limits.maxMembers < n)) (members.map (·.request)) 0 0 hplain
      have hfew : ws.length ≤ limits.maxMembers.toNat := by
        have hbound : ∀ n : ℕ, decide (limits.maxMembers < n) = false →
            n ≤ limits.maxMembers.toNat := by
          intro n hn
          rw [decide_eq_false_iff_not] at hn
          omega
        simpa using hcount _ hbound (Nat.zero_le _)
      split
      · rename_i s' e hs'
        rw [hs'] at hwrote
        exact ⟨ws, hwrote, hfew, by rintro ⟨⟩⟩
      · rename_i s' hs'
        rw [hs'] at hwrote hall
        exact ⟨ws, hwrote, hfew, fun _ => by simpa only [hmembers] using hall rfl⟩

end

end Stoker
