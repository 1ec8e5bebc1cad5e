import Stoker.PackBuilder.Build
import Stoker.PackBuilder.Tokens

/-!
# Originals that survive

A build is refused when the residual scan finds an original of five characters or more outside the
ranges that were written. It looks for the normalised originals only, and passes over what a found
one covers, also when that one is too short to refuse the build or is masked. So a survivor is
noticed when the originals are in normal form and none of them can cover another.
-/

open List

namespace Stoker

open Rewriting Transition

/-! ### What refuses a build -/

section Problems

/-- The field and size class a finding is listed under. -/
def Finding.key (f : Finding) : Text × Bool :=
  (f.field.getD [], decide (residualMinRefuse ≤ f.value.length))

def Listed (f : Finding) (d : List ((Text × Bool) × Places)) : Prop :=
  ∃ p, d.lookup f.key = some p ∧ (p.inEvents ≠ [] ∨ p.inConfig ≠ [])

def listFinding (d : List ((Text × Bool) × Places)) (f : Finding) : List ((Text × Bool) × Places) :=
  Dict.set f.key (((d.lookup f.key).getD {}).note f) d

lemma byField_eq (fs : List Finding) : byField fs = fs.foldl listFinding [] := rfl

lemma Places.note_ne (f : Finding) (p : Places) :
    (p.note f).inEvents ≠ [] ∨ (p.note f).inConfig ≠ [] := by
  unfold Places.note
  cases f.inConfig with
  | true =>
    right
    rw [if_pos rfl]
    split_ifs with h
    · exact ne_nil_of_mem h
    · simp
  | false =>
    left
    rw [if_neg Bool.false_ne_true]
    split_ifs with h
    · exact ne_nil_of_mem h
    · simp

variable {d : List ((Text × Bool) × Places)} {fs : List Finding}

lemma Listed.foldl {f : Finding} (h : f ∈ fs ∨ Listed f d) : Listed f (fs.foldl listFinding d) := by
  induction fs generalizing d with
  | nil =>
    rcases h with h | h
    · cases h
    · exact h
  | cons g fs ih =>
    refine ih ?_
    have hkeep : f.key = g.key → Listed f (listFinding d g) := by
      intro hkey
      refine ⟨_, ?_, Places.note_ne g ((d.lookup g.key).getD {})⟩
      rw [listFinding, Dict.lookup_set, if_pos hkey]
    rcases h with h | h
    · rcases mem_cons.1 h with rfl | h
      · exact .inr (hkeep rfl)
      · exact .inl h
    · right
      by_cases hkey : f.key = g.key
      · exact hkeep hkey
      · obtain ⟨p, hp, hne⟩ := h
        refine ⟨p, ?_, hne⟩
        rw [listFinding, Dict.lookup_set, if_neg hkey]
        exact hp

/-- Every entry is that of some finding. -/
lemma mem_foldl_listFinding {x : (Text × Bool) × Places} (h : x ∈ fs.foldl listFinding d) :
    x ∈ d ∨ ∃ f ∈ fs, x.1 = f.key := by
  induction fs generalizing d with
  | nil => exact .inl h
  | cons g fs ih =>
    rcases ih h with h | ⟨f, hf, hx⟩
    · rcases Dict.mem_set h with rfl | h
      · exact .inr ⟨g, mem_cons_self, rfl⟩
      · exact .inl h
    · exact .inr ⟨f, mem_cons_of_mem _ hf, hx⟩

lemma residualProblems_blocking (fs : List Finding) :
    (residualProblems fs).1 = [] ↔ ∀ f ∈ fs, f.value.length < residualMinRefuse := by
  unfold residualProblems
  dsimp only
  rw [flatMap_eq_nil_iff, byField_eq]
  constructor
  · intro h f hf
    by_contra hlong
    obtain ⟨p, hp, hne⟩ := Listed.foldl (d := []) (.inl hf)
    obtain ⟨front, back, heq, _⟩ := lookup_eq_some_iff.1 hp
    have hmem : (f.key, p) ∈ fs.foldl listFinding [] := by
      rw [heq]
      exact mem_append_right _ mem_cons_self
    have hnone := h (f.key, p) ((mem_insertionSort _).2 hmem)
    have hkey : f.key.2 = true := decide_eq_true (not_lt.1 hlong)
    rw [hkey, if_pos rfl, append_eq_nil_iff] at hnone
    rcases hne with hne | hne
    · rw [if_neg hne] at hnone
      exact cons_ne_nil _ _ hnone.1
    · rw [if_neg hne] at hnone
      exact cons_ne_nil _ _ hnone.2
  · intro h x hx
    rcases mem_foldl_listFinding ((mem_insertionSort _).1 hx) with hx | ⟨f, hf, hx⟩
    · cases hx
    · have hshort : x.1.2 = false := by
        rw [hx]
        exact decide_eq_false (not_le.2 (h f hf))
      rw [hshort, if_neg Bool.false_ne_true]

end Problems

/-! ### Survivors -/

/-- A text stands in an event as a whole token, outside the ranges that were written. -/
def Survives (w : Text) (e : Masked) : Prop :=
  ∃ i, tokenAt false e.text i w ∧ ∀ r ∈ e.ranges, r.2 ≤ i ∨ i + w.length ≤ r.1

/-- The scan looks for the normal forms of the originals. -/
def Report.Seeks (nfc : Text → Text) (originals : List Text) (report : Report) : Prop :=
  ∀ k, k ∈ report.tables.mapping.map (·.1) ↔ ∃ w ∈ originals, nfc w = k

/-- Whatever was replaced among some texts, in events with any ranges written: when the scan does
not refuse the build, no original of five characters or more survives. -/
def Noticed (nfc : Text → Text) (texts : Set Text) : Prop :=
  ∀ (originals : List Text) (report : Report) (settings : List (Text × Text)) (wanted : List Text)
    (scanned : Report) (found : List Finding),
    (∀ w ∈ originals, w ∈ texts) → report.Seeks nfc originals →
    scanResiduals report settings wanted = some (scanned, found) → (residualProblems found).1 = [] →
    ∀ e ∈ scanned.events, ∀ w ∈ originals, residualMinRefuse ≤ w.length → ¬Survives w e

/-- The texts of five characters or more are in normal form, and no text, in its normal form, covers
one of them. -/
structure Apart (nfc : Text → Text) (texts : Set Text) : Prop where
  normal : ∀ w ∈ texts, residualMinRefuse ≤ w.length → nfc w = w
  uncovered : ∀ v ∈ texts, ∀ w ∈ texts, residualMinRefuse ≤ w.length → ¬Covers (nfc v) w

variable {w v : Text} {h : Hit}

lemma ne_nil_of_long (h : residualMinRefuse ≤ w.length) : w ≠ [] := by
  rintro rfl
  cases h

/-- Whatever the scan hits is reported. -/
lemma mem_findings {t : Tables} (place : Text) (inConfig : Bool) {text : Text}
    {masked : List (ℕ × ℕ)} (hh : h ∈ findResiduals (t.mapping.map (·.1)) text masked) :
    ∃ f ∈ findings t place inConfig text masked, f.value = h.value := by
  have hkey : h.value ∈ t.mapping.map (·.1) :=
    (residualScan_tokenAt _ 0 false 0 text h (mem_filter.1 hh).1).1
  have hsome : (t.mapping.lookup h.value).isSome = true := by
    obtain ⟨p, hp, hval⟩ := mem_map.1 hkey
    rw [lookup_isSome_iff]
    exact ⟨p, hp, by simp [hval]⟩
  refine ⟨⟨place, h.value, t.origin.lookup h.value, inConfig⟩, ?_, rfl⟩
  refine mem_filterMap.2 ⟨h, hh, ?_⟩
  rw [if_pos hsome]

variable {report : Report}

lemma scanResiduals_finds {scanned : Report} {settings : List (Text × Text)} {wanted : List Text}
    {found : List Finding} (hs : scanResiduals report settings wanted = some (scanned, found))
    (hm : report.tables.mapping ≠ []) {e : Masked} (he : e ∈ scanned.events)
    (hh : h ∈ findResiduals (report.tables.mapping.map (·.1)) e.text e.ranges) :
    ∃ f ∈ found, f.value = h.value := by
  unfold scanResiduals at hs
  rw [if_neg hm] at hs
  obtain ⟨events, _, hs⟩ := Option.bind_eq_some_iff.1 hs
  cases hs
  obtain ⟨i, hi, rfl⟩ := mem_iff_getElem.1 he
  obtain ⟨f, hf, hval⟩ := mem_findings ("event " ++ decimal (i + 1)) false hh
  refine ⟨f, mem_append_left _ (mem_flatMap.2 ⟨(events[i], i), ?_, hf⟩), hval⟩
  exact mem_zipIdx_iff_getElem?.2 (getElem?_eq_getElem hi)

theorem Apart.noticed {nfc : Text → Text} {texts : Set Text} (h : Apart nfc texts) :
    Noticed nfc texts := by
  rintro originals report settings wanted scanned found htexts hseeks hscan hblock e he w hw hlong
    ⟨i, htok, hclear⟩
  have hkey : w ∈ report.tables.mapping.map (·.1) :=
    (hseeks w).2 ⟨w, hw, h.normal w (htexts w hw) hlong⟩
  have hcovers : ∀ v ∈ report.tables.mapping.map (·.1), ¬Covers v w := by
    intro v hv
    obtain ⟨original, horiginal, rfl⟩ := (hseeks v).1 hv
    exact h.uncovered original (htexts original horiginal) w (htexts w hw) hlong
  have hhit := mem_findResiduals hkey (ne_nil_of_long hlong) hcovers htok hclear
  have hm : report.tables.mapping ≠ [] := by
    intro hnil
    rw [hnil] at hkey
    cases hkey
  obtain ⟨f, hf, hval⟩ := scanResiduals_finds hscan hm he hhit
  have hshort := (residualProblems_blocking found).1 hblock f hf
  rw [hval] at hshort
  exact absurd hlong (not_le.2 hshort)

/-! ### Texts that are not apart -/

section

variable {nfc : Text → Text} {texts : Set Text}

lemma Noticed.not_survives (h : Noticed nfc texts) (originals keys : List Text) (e : Masked)
    (htexts : ∀ w ∈ originals, w ∈ texts) (hkeys : ∀ k, k ∈ keys ↔ ∃ w ∈ originals, nfc w = k)
    (hhits : ∀ x ∈ findResiduals keys e.text e.ranges, x.value.length < residualMinRefuse) :
    ∀ w ∈ originals, residualMinRefuse ≤ w.length → ¬Survives w e := by
  intro w hw
  have hmapping : (keys.map fun k => (k, ([] : Text))).map (·.1) = keys := by
    rw [map_map]
    exact map_id keys
  let report : Report := { events := [e], tables := { mapping := keys.map fun k => (k, []) } }
  have hne : report.tables.mapping ≠ [] := by
    intro hnil
    have hmem := (hkeys (nfc w)).2 ⟨w, hw, rfl⟩
    rw [map_eq_nil_iff.1 hnil] at hmem
    cases hmem
  -- without fields to rewrite the event stays as it is
  have hloop : rewriteEverywhere report.tables [] (e.text.length + 1) e = some e := by
    rw [rewriteEverywhere]
    exact if_pos (.inl rfl)
  have hscan : ∃ found, scanResiduals report [] [] = some (report, found) ∧
      ∀ f ∈ found, f.value.length < residualMinRefuse := by
    refine ⟨findings report.tables ("event " ++ decimal 1) false e.text e.ranges, ?_, ?_⟩
    · have hevents : report.events = [e] := rfl
      unfold scanResiduals
      rw [if_neg hne, hevents, mapM_cons, mapM_nil, hloop]
      simp [report]
    · intro f hf
      obtain ⟨x, hx, hfx⟩ := mem_filterMap.1 hf
      split_ifs at hfx
      cases hfx
      rw [hmapping] at hx
      exact hhits x hx
  obtain ⟨found, hscan, hshort⟩ := hscan
  refine h originals report [] [] report found htexts ?_ hscan
    ((residualProblems_blocking found).2 hshort) e mem_cons_self w hw
  intro k
  rw [hmapping]
  exact hkeys k

/-- A long text that is not in normal form survives unnoticed: its normal form does not stand in
it. -/
lemma Noticed.normal (h : Noticed nfc texts) (hnfc : ∀ t, nfc t <:+: t → nfc t = t) :
    ∀ w ∈ texts, residualMinRefuse ≤ w.length → nfc w = w := by
  intro w hw hlong
  by_contra hdiff
  refine h.not_survives [w] [nfc w] { text := w } ?_ ?_ ?_ w ?_ hlong ?_
  · simpa using hw
  · simp [eq_comm]
  · intro x hx
    obtain ⟨hmem, _, _, i, _, _, htok⟩ :=
      residualScan_tokenAt [nfc w] 0 false 0 w x (mem_filter.1 hx).1
    rw [mem_singleton.1 hmem] at htok
    exact absurd (hnfc w (htok.isPrefix.isInfix.trans (drop_suffix i w).isInfix)) hdiff
  · exact mem_cons_self
  · exact ⟨0, tokenAt_zero.2 ⟨rfl, prefix_rfl, by simp [endsToken]⟩, by simp⟩

/-- With one text covering another at the beginning of an event, and everything masked but the other
one, that one is noticed only through the first standing within it. -/
lemma Noticed.within (h : Noticed nfc texts) {v w t : Text} {i : ℕ} (hv : v ∈ texts)
    (hw : w ∈ texts)
    (hlong : residualMinRefuse ≤ w.length) (hnormal : nfc w = w) (htv : tokenAt false t 0 (nfc v))
    (htw : tokenAt false t i w) (hi : i < (nfc v).length)
    (hlonger : i = 0 → w.length < (nfc v).length) :
    residualMinRefuse ≤ (nfc v).length ∧
      ∃ k, 0 < k ∧ k + (nfc v).length ≤ w.length ∧ tokenAt false w k (nfc v) := by
  have hhits := findResiduals_covered [nfc v, w] (by simp) (by simp) htv hi hlonger
  by_contra hnot
  refine h.not_survives [v, w] [nfc v, w] ⟨t, [(0, i), (i + w.length, t.length)]⟩ ?_ ?_ ?_ w ?_
    hlong ?_
  · simp [hv, hw]
  · intro k
    simp [hnormal, eq_comm]
  · intro x hx
    obtain ⟨hval, hstart, hstop, htok⟩ := hhits x hx
    rw [hval]
    by_contra hge
    refine hnot ⟨not_lt.1 hge, x.start - i, by omega, by omega, ?_⟩
    rw [hval] at htok
    refine htw.within ?_ (by omega)
    rwa [Nat.add_sub_cancel' hstart.le]
  · simp
  · refine ⟨i, htw, fun r hr => ?_⟩
    rcases mem_cons.1 hr with rfl | hr
    · exact .inl le_rfl
    · obtain rfl := mem_singleton.1 hr
      exact .inr le_rfl

lemma Noticed.apart (h : Noticed nfc texts) (hnfc : ∀ t, nfc t <:+: t → nfc t = t)
    (hshort : ∀ t ∈ texts, t.length < residualMinRefuse → (nfc t).length < residualMinRefuse) :
    Apart nfc texts := by
  have hnormal := h.normal hnfc
  refine ⟨hnormal, ?_⟩
  rintro v hv w hw hlong ⟨t, a, i, htv, htw, hai, hi, hlonger⟩
  obtain ⟨htv, htw⟩ := htv.cut htw hai
  obtain ⟨hvlong, k, hk, hkw, htok⟩ := h.within hv hw hlong (hnormal w hw hlong) htv htw (by omega)
    fun h0 => hlonger (by omega)
  -- the covering text stands within the covered one: then that one covers it
  have hvlong' : residualMinRefuse ≤ v.length := by
    by_contra hlt
    exact absurd hvlong (not_le.2 (hshort v hv (not_le.1 hlt)))
  have hv' := hnormal v hv hvlong'
  have hw' := hnormal w hw hlong
  rw [hv'] at htok hkw hvlong
  have hwhole : tokenAt false w 0 (nfc w) := by
    rw [hw']
    exact tokenAt_zero.2 ⟨rfl, prefix_rfl, by simp [endsToken]⟩
  have hpos : 0 < v.length := length_pos_of_ne_nil (ne_nil_of_long hvlong)
  obtain ⟨_, k', hk', hle, _⟩ := h.within hw hv hvlong' hv' hwhole htok (by rw [hw']; omega)
    fun h0 => absurd h0 hk.ne'
  rw [hw'] at hle
  omega

end

/-! ### What a build replaces -/

def Compiled.replacedBy (libs : Libs) (key : List UInt8) (c : Compiled) (event : Text) (m : Match) :
    Option Text :=
  match c.rx.locate m with
  | none => none
  | some (s, e) =>
    if s < e ∧ (pseudonym libs key c.widen (slice event s e)).isSome then some (slice event s e)
      else none

def replacedTexts (libs : Libs) (key : List UInt8) (compiled : List Compiled) (events : List Text) :
    List Text :=
  events.flatMap fun event => compiled.flatMap fun c =>
    (c.rx.finditer event).filterMap (c.replacedBy libs key event)

section Keys

variable {libs : Libs} {key : List UInt8} {compiled : List Compiled} {events : List Text}

lemma map_replacedBy (c : Compiled) (event : Text) (m : Match) :
    (c.replacedBy libs key event m).toList.map libs.nfc =
      (replacedBy libs key event c m).toList.map Replaced.normalised := by
  unfold Compiled.replacedBy replacedBy
  cases c.rx.locate m with
  | none => rfl
  | some place =>
    obtain ⟨s, e⟩ := place
    by_cases hse : e ≤ s
    · simp [hse, hse.not_gt]
    · cases hp : pseudonym libs key c.widen (slice event s e) with
      | none => simp [hse, hp]
      | some standIn => simp [hse, not_le.1 hse, hp]

lemma map_replacedTexts : (replacedTexts libs key compiled events).map libs.nfc =
    (replacements libs key compiled events).map Replaced.normalised := by
  simp only [replacedTexts, replacements, replacementsIn, filterMap_eq_flatMap_toList, map_flatMap,
    map_replacedBy]

/-- The scan looks for the normal forms of what the pass replaced. -/
theorem pseudonymiseEvents_seeks {fields : List PseudonymField}
    (hc : fields.mapM (PseudonymField.compile libs) = .ok compiled)
    (h : pseudonymiseEvents libs key fields events = .ok report) :
    report.Seeks libs.nfc (replacedTexts libs key compiled events) := by
  intro k
  obtain ⟨hentered, -⟩ := pseudonymiseEvents_replaced hc h
  rw [← mem_map, map_replacedTexts, mem_map, mem_map]
  constructor
  · rintro ⟨p, hp, rfl⟩
    rcases hentered.stored p hp with hp | ⟨r, hr, rfl⟩
    · cases hp
    · exact ⟨r, hr, rfl⟩
  · rintro ⟨r, hr, rfl⟩
    have hne : replacementsOf (replacements libs key compiled events) r.normalised ≠ [] :=
      ne_nil_of_mem (mem_replacementsOf hr)
    have hlookup := hentered.mapping r.normalised
    rw [← replacementsOf, getLast?_eq_some_getLast hne] at hlookup
    obtain ⟨front, back, heq, -⟩ := lookup_eq_some_iff.1 hlookup
    exact ⟨_, heq ▸ mem_append_right _ mem_cons_self, rfl⟩

end Keys

/-! ### Builds -/

/-- The pass and the scan of `apply_pseudonyms`: the events with the ranges that were written, and
what the scan found. -/
def passAndScan (libs : Libs) (cfg : Config) (key : List UInt8) (already : List Text) :
    Except BuilderError (Report × List Finding) :=
  let fields := pseudonymFields cfg
  match pseudonymiseEvents libs key fields (cfg.events.filter (· ∉ already)) with
  | .error e => .error (.pseudonym e)
  | .ok report =>
    let merged := { report with events := mergeFresh already cfg.events report.events }
    let wanted := (fields.filter (·.rewriteResiduals)).map (·.field)
    match scanResiduals merged (residualTexts cfg fields) wanted with
    | none => .error .unfinished
    | some r => .ok r

/-- A scan of any events with any written ranges notices every survivor among originals that are
apart, and only among these where normal forms lie in no other text and keep short texts short.
Among originals that are apart no one of five characters or more that a build replaced survives in
its events outside the ranges it wrote, unless the build is refused. -/
theorem survivors_noticed_iff (libs : Libs) (texts : Set Text) :
    (Apart libs.nfc texts → Noticed libs.nfc texts) ∧
      ((∀ t, libs.nfc t <:+: t → libs.nfc t = t) →
        (∀ t ∈ texts, t.length < residualMinRefuse → (libs.nfc t).length < residualMinRefuse) →
        Noticed libs.nfc texts → Apart libs.nfc texts) ∧
      (Apart libs.nfc texts → ∀ cfg key already compiled scanned found,
        (pseudonymFields cfg).mapM (PseudonymField.compile libs) = .ok compiled →
        (∀ w ∈ replacedTexts libs key compiled (cfg.events.filter (· ∉ already)), w ∈ texts) →
        passAndScan libs cfg key already = .ok (scanned, found) → (residualProblems found).1 = [] →
        ∀ e ∈ scanned.events,
          ∀ w ∈ replacedTexts libs key compiled (cfg.events.filter (· ∉ already)),
          residualMinRefuse ≤ w.length → ¬Survives w e) := by
  refine ⟨Apart.noticed, fun hnfc hshort h => h.apart hnfc hshort, ?_⟩
  intro hapart cfg key already compiled scanned found hcompiled htexts hbuild hblock
  unfold passAndScan at hbuild
  dsimp only at hbuild
  split at hbuild
  · cases hbuild
  · next report hpass =>
    split at hbuild
    · cases hbuild
    · next r hscan =>
      cases hbuild
      have hseeks : Report.Seeks libs.nfc
          (replacedTexts libs key compiled (cfg.events.filter (· ∉ already)))
          { report with events := mergeFresh already cfg.events report.events } := by
        have hpassed := pseudonymiseEvents_seeks hcompiled hpass
        exact hpassed
      exact hapart.noticed _ _ _ _ scanned found htexts hseeks hscan hblock

/-! ### Words are apart -/

/-- No token begins within a word. -/
lemma not_tokenAt_in_word {inWord : Bool} {rest : Text} {i : ℕ}
    (hv : ∀ c ∈ v, c.isAlphanum = true) (hi : 0 < i) (hle : i ≤ v.length) :
    ¬tokenAt inWord (v ++ rest) i w := by
  induction v generalizing inWord i with
  | nil =>
    rw [length_nil] at hle
    omega
  | cons c v ih =>
    intro htok
    obtain ⟨i, rfl⟩ : ∃ i', i = i' + 1 := ⟨i - 1, by omega⟩
    have htok : tokenAt c.isAlphanum (v ++ rest) i w := htok
    rw [hv c mem_cons_self] at htok
    cases i with
    | zero => exact absurd (tokenAt_zero.1 htok).1 (by simp)
    | succ i =>
      refine ih (fun d hd => hv d (mem_cons_of_mem _ hd)) (Nat.succ_pos i) ?_ htok
      rw [length_cons] at hle
      omega

/-- Texts of letters and digits do not cover anything. -/
lemma not_covers_of_word (hv : ∀ c ∈ v, c.isAlphanum = true) : ¬Covers v w := by
  rintro ⟨t, a, i, htv, htw, hai, hi, hlonger⟩
  obtain ⟨htv, htw⟩ := htv.cut htw hai
  obtain ⟨rest, hrest⟩ := (tokenAt_zero.1 htv).2.1
  rw [← hrest] at htw
  rcases Nat.eq_zero_or_pos (i - a) with h0 | hpos
  · -- the shorter one would end in front of a letter or digit
    have hlt : w.length < v.length := hlonger (by omega)
    rw [h0] at htw
    have hend := (tokenAt_zero.1 htw).2.2
    rw [drop_append_of_le_length hlt.le, drop_eq_getElem_cons hlt, cons_append,
      endsToken, hv _ (getElem_mem hlt)] at hend
    cases hend
  · exact not_tokenAt_in_word hv hpos (by omega) htw

/-- The texts of letters and digits. -/
def words : Set Text := { w | ∀ c ∈ w, c.isAlphanum = true }

lemma words_apart : Apart id words :=
  ⟨fun _ _ _ => rfl, fun _ hv _ _ _ => not_covers_of_word hv⟩

/-- Where normal forms are the texts themselves, every surviving word is noticed. -/
theorem survivors_noticed_words : Noticed sampleLibs.nfc words :=
  (survivors_noticed_iff sampleLibs words).1 words_apart

/-! ### Survivors nobody notices -/

/-- An accent that follows its letter is joined to it. -/
def joinAccents : Text → Text
  | 'e' :: '\u0301' :: t => 'é' :: joinAccents t
  | c :: t => c :: joinAccents t
  | [] => []

def accentLibs : Libs := { sampleLibs with nfc := joinAccents }

/-- Some events with a pseudonym field for what stands behind `user=`. -/
def usersConfig (events : List String) : Config where
  name := "users"
  events := events.map String.toList
  tokens := [{ field := "user", pattern := "user=(\\S+)",
               replacement := .pseudonym none false }]

def userField (libs : Libs) : Compiled where
  row := { field := "user", pattern := "user=(\\S+)" }
  rx := libs.regex "user=(\\S+)"
  widen := none

/-- A build that is not refused, and an original of five characters or more that survives in one of
its events. -/
def Leaks (libs : Libs) (events : List String) (event : ℕ) (w : Text) : Prop :=
  (pseudonymFields (usersConfig events)).mapM (PseudonymField.compile libs) = .ok [userField libs] ∧
    ∃ e, (passAndScan libs (usersConfig events) [1] []).toOption.map
        (fun r => (r.1.events[event]?, (residualProblems r.2).1)) = some (some e, []) ∧
      w ∈ replacedTexts libs [1] [userField libs] (usersConfig events).events ∧
      residualMinRefuse ≤ w.length ∧ Survives w e

/-- The first name is searched for with its accent joined to the letter, and stands in the second
event as it did in the first. In the second build the search finds `1-22` in the last event, which
is too short to refuse the build, and goes on behind it, within `22-333`. -/
theorem survivors_unnoticed :
    Leaks accentLibs ["user=rene\u0301e5 in", "path /rene\u0301e5/ end"] 1 "rene\u0301e5" ∧
      Leaks sampleLibs ["user=1-22 in", "user=22-333 in", "path 1-22-333 end"] 2 "22-333" := by
  refine ⟨⟨rfl, { text := "path /rene\u0301e5/ end" }, by decide +kernel, by decide +kernel,
      by decide +kernel, 6, by decide +kernel, by simp⟩,
    ⟨rfl, { text := "path 1-22-333 end" }, by decide +kernel, by decide +kernel,
      by decide +kernel, 7, by decide +kernel, by simp⟩⟩

end Stoker
