import Stoker.PackBuilder.Replacements
import Stoker.PackBuilder.Residuals
import Stoker.Server.Rows
import Stoker.Transition.Runs

/-!
# Building and rebuilding a pack

`apply_pseudonyms`, `write_pack` and the two requests that save a pack. A rebuild compares the
events it is given with those on disk: what is on disk was written by a build before and is not
pseudonymised again, everything else is taken as raw sample. What a build can say about an event it
found on disk is therefore what an earlier build, with the fields it had, made of it.
-/

open List

namespace Stoker

open Rewriting Transition

/-! ### Configs -/

/-- How a field is varied; what the other kinds draw is of no matter here. -/
inductive Replacement where
  | pseudonym (widen : Option Widen) (rewriteResiduals : Bool)
  | values (values : List Text)
  | static (value : Text)
  | other
  deriving DecidableEq

/-- A field of the sample; `rotate` is the one of its replacement, which only pseudonyms have. -/
structure Token where
  field : Text
  pattern : Text
  enabled : Bool := true
  replacement : Replacement
  rotate : Bool := false
  deriving DecidableEq

/-- How a pack's stand-ins move from replay to replay. -/
structure PackRotation where
  scope : RotationScope
  fields : List Text
  period : Option ℤ := none
  deriving DecidableEq

/-- A validated builder config. -/
structure Config where
  name : Text
  description : Text := []
  events : List Text
  tokens : List Token := []
  rotation : Option PackRotation := none
  deriving DecidableEq

def pseudonymFields (cfg : Config) : List PseudonymField :=
  cfg.tokens.filterMap fun t =>
    match t.replacement with
    | .pseudonym widen rewrite =>
      if t.enabled then some ⟨t.field, t.pattern, widen, rewrite⟩ else none
    | _ => none

/-- `_residual_texts`: everything besides the events that carries the operator's text. -/
def residualTexts (cfg : Config) (fields : List PseudonymField) : List (Text × Text) :=
  [("the pack name".toList, cfg.name), ("the description".toList, cfg.description)] ++
    cfg.tokens.flatMap fun t =>
      let label := if t.field ≠ [] then t.field else if t.pattern ≠ [] then t.pattern
        else "a field".toList
      (if t.pattern ∈ fields.map (·.pattern) then []
        else [("the pattern of " ++ label, t.pattern)]) ++
      [("the name of " ++ label, t.field)] ++
      match t.replacement with
      | .values values =>
        [("the listed values of ".toList ++ label, ("\n".toList).intercalate values)]
      | .static value => [("the fixed value of " ++ label, value)]
      | _ => []

/-! ### One build -/

/-- Why a build is refused; `unfinished` stands for a scan that does not end. -/
inductive BuilderError where
  | keyMissing
  | pseudonym (e : PseudonymError)
  | residuals (blocking : List Text)
  | unfinished
  deriving DecidableEq

/-- Put what the pass made of the fresh events back between those that were done. -/
def mergeFresh (done : List Text) : List Text → List Masked → List Masked
  | [], _ => []
  | e :: es, outs =>
    if e ∈ done then { text := e } :: mergeFresh done es outs
    else
      match outs with
      | out :: outs => out :: mergeFresh done es outs
      | [] => { text := e } :: mergeFresh done es []

/-- What a build makes of a config: the events that are stored, the stand-ins it wrote, and what the
operator is warned about. -/
structure BuildResult where
  events : List Text
  standIns : List Text := []
  warnings : List Text := []
  deriving DecidableEq

/-- `apply_pseudonyms`, as `write_pack` calls it. -/
def applyPseudonyms (libs : Libs) (cfg : Config) (subkey : Option (List UInt8))
    (already : List Text) : Except BuilderError BuildResult :=
  let fields := pseudonymFields cfg
  if fields = [] then .ok { events := cfg.events }
  else
    match subkey with
    | none => .error .keyMissing
    | some key =>
      match pseudonymiseEvents libs key fields (cfg.events.filter (· ∉ already)) with
      | .error e => .error (.pseudonym e)
      | .ok report =>
        let merged := { report with events := mergeFresh already cfg.events report.events }
        let wanted := (fields.filter (·.rewriteResiduals)).map (·.field)
        match scanResiduals merged (residualTexts cfg fields) wanted with
        | none => .error .unfinished
        | some (scanned, found) =>
          let (blocking, warnings) := residualProblems found
          if blocking ≠ [] then .error (.residuals blocking)
          else .ok {
            events := scanned.events.map (·.text)
            standIns := report.tables.outputs.map (·.1)
            warnings := report.tables.warnings ++ warnings }

/-! ### Saving packs -/

/-- A request to save a pack. The name may be taken, the key out of reach, and the lint may fail. -/
structure Request where
  config : Config
  subkey : Option (List UInt8) := none
  nameTaken : Bool := false
  lintFails : Bool := false
  deriving DecidableEq

/-- A pack on disk: its builder config. -/
structure Pack where
  config : Config
  deriving DecidableEq

/-- The pack being worked on, once it was created, and the stand-ins written so far. -/
structure Desk where
  pack : Option Pack := none
  standIns : List Text := []
  deriving DecidableEq

def Desk.events (d : Desk) : List Text :=
  match d.pack with
  | none => []
  | some p => p.config.events

/-- `create_pack`, and `update_pack` once there is a pack: an update replaces the directory before
it is linted, a pack that fails its first lint is removed. -/
def Desk.save (libs : Libs) (r : Request) (d : Desk) : Desk :=
  if r.nameTaken then d
  else if pseudonymFields r.config ≠ [] ∧ r.subkey = none then d
  else
    match applyPseudonyms libs r.config r.subkey d.events with
    | .error _ => d
    | .ok out =>
      if d.pack = none ∧ r.lintFails then d
      else
        { pack := some { config := { r.config with events := out.events } }
          standIns := d.standIns ++ out.standIns }

/-! ### What a build makes of an event -/

section

variable {libs : Libs} {key : List UInt8} {compiled : List Compiled} {event : Text}
  {p q : Patched Char} {t : Tables}

lemma Patchwork.extend (h : Patchwork libs key compiled event p)
    (ht : MapsStandIns libs key compiled t.mapping) (hq : p.Extends t.Maps q) :
    Patchwork libs key compiled event q := by
  refine ⟨hq.source.trans h.source, fun x hx => ?_⟩
  rcases hq.patches x hx with hx | hx
  · exact h.standIns x hx
  · obtain ⟨front, back, hm, _⟩ := lookup_eq_some_iff.1 hx
    refine ht (x.2.1, x.2.2) ?_
    rw [hm]
    exact mem_append_right _ mem_cons_self

lemma Rewrote.extend (h : Rewrote libs key compiled event p)
    (ht : MapsStandIns libs key compiled t.mapping) (hq : p.Extends t.Maps q) :
    Rewrote libs key compiled event q := by
  refine ⟨h.toPatchwork.extend ht hq, fun c hc m hm => ?_⟩
  obtain ⟨s, e, hl, hplace⟩ := h.replaced c hc m hm
  refine ⟨s, e, hl, fun hse => ?_⟩
  rcases hplace hse with hp | ⟨new, hp, hmem⟩
  · exact .inl hp
  · exact .inr ⟨new, hp, hq.kept _ hmem⟩

lemma patchwork_plain (libs : Libs) (key : List UInt8) (compiled : List Compiled) (event : Text) :
    Patchwork libs key compiled event (.plain event) :=
  ⟨rfl, fun _ hx => absurd hx not_mem_nil⟩

/-- What is stored for a sample event: a patchwork of it, with everything replaced that a field
matches if the event is not one of those done before. -/
def Stored (libs : Libs) (key : List UInt8) (compiled : List Compiled) (already : List Text)
    (raw e : Text) : Prop :=
  ∃ p : Patched Char, p.text = e ∧
    if raw ∈ already then Patchwork libs key compiled raw p else Rewrote libs key compiled raw p

end

lemma mergeFresh_spec {R : Text → Masked → Prop} {done events : List Text} {outs : List Masked}
    (h : List.Forall₂ R (events.filter (· ∉ done)) outs) :
    List.Forall₂ (fun raw m => if raw ∈ done then m = { text := raw } else R raw m) events
      (mergeFresh done events outs) := by
  induction events generalizing outs with
  | nil => exact .nil
  | cons e es ih =>
    rw [mergeFresh.eq_def]
    dsimp only
    by_cases he : e ∈ done
    · rw [filter_cons_of_neg (by simpa using he)] at h
      rw [if_pos he]
      refine .cons ?_ (ih h)
      rw [if_pos he]
    · rw [filter_cons_of_pos (by simpa using he)] at h
      rw [if_neg he]
      cases h with
      | cons hout hrest =>
        refine .cons ?_ (ih hrest)
        rw [if_neg he]
        exact hout

variable {already : List Text} {libs : Libs}

/-- The text of an event that was done before, or of one that was just rewritten, is shown by a text
with patches. -/
lemma exists_shows {key : List UInt8} {compiled : List Compiled} {raw : Text} {m : Masked}
    (h : if raw ∈ already then m = { text := raw } else ∃ p, Rewrote libs key compiled raw p ∧
      p.text = m.text ∧ p.ranges 0 = m.ranges) :
    ∃ p : Patched Char, Shows p m ∧
      if raw ∈ already then Patchwork libs key compiled raw p
        else Rewrote libs key compiled raw p := by
  split_ifs at h ⊢
  · rw [h]
    exact ⟨.plain raw, ⟨rfl, fun _ hr => absurd hr not_mem_nil⟩,
      patchwork_plain libs key compiled raw⟩
  · obtain ⟨p, hp, htext, hranges⟩ := h
    exact ⟨p, ⟨htext, fun r hr => hranges ▸ hr⟩, hp⟩

/-- A build that is not refused: no scan is left unfinished, and every event is stored as a
patchwork of the one it was given. -/
theorem applyPseudonyms_ok {cfg : Config} {subkey : Option (List UInt8)} {out : BuildResult}
    (h : applyPseudonyms libs cfg subkey already = .ok out) :
    ∃ key compiled, (pseudonymFields cfg).mapM (PseudonymField.compile libs) = .ok compiled ∧
      (pseudonymFields cfg = [] ∨ subkey = some key) ∧
      List.Forall₂ (Stored libs key compiled already) cfg.events out.events := by
  unfold applyPseudonyms at h
  by_cases hf : pseudonymFields cfg = []
  · rw [if_pos hf] at h
    cases h
    refine ⟨[], [], by rw [hf]; rfl, .inl hf, forall₂_same.2 fun e _ => ⟨.plain e, rfl, ?_⟩⟩
    split_ifs
    · exact patchwork_plain libs [] [] e
    · exact ⟨patchwork_plain libs [] [] e, fun _ hc => absurd hc not_mem_nil⟩
  rw [if_neg hf] at h
  cases subkey with
  | none => cases h
  | some key =>
    dsimp only at h
    cases hp : pseudonymiseEvents libs key (pseudonymFields cfg)
        (cfg.events.filter (· ∉ already)) with
    | error e =>
      rw [hp] at h
      cases h
    | ok report =>
      rw [hp] at h
      dsimp only at h
      obtain ⟨compiled, hc, hm, hall⟩ := pseudonymiseEvents_ok hp
      refine ⟨key, compiled, hc, .inr rfl, ?_⟩
      -- the events as the scan finds them: done before, or just rewritten
      have hmerged := mergeFresh_spec hall
      have hall' : ∀ m ∈ mergeFresh already cfg.events report.events, ∃ p, Shows p m := by
        intro m hm'
        obtain ⟨raw, _, hraw⟩ := forall₂_exists_of_mem hmerged hm'
        obtain ⟨p, hp, _⟩ := exists_shows hraw
        exact ⟨p, hp⟩
      obtain ⟨scanned, found, hscan, hrest⟩ := scanResiduals_ends
        { report with events := mergeFresh already cfg.events report.events }
        (residualTexts cfg (pseudonymFields cfg))
        (((pseudonymFields cfg).filter (·.rewriteResiduals)).map (·.field)) hall'
      rw [hscan] at h
      dsimp only at h
      split_ifs at h
      cases h
      refine forall₂_map_right_iff.2 (forall₂_comp ?_ hmerged hrest)
      intro raw m e hraw hext
      obtain ⟨p, hp, hwork⟩ := exists_shows hraw
      obtain ⟨q, hq, htext, _⟩ := hext p hp
      refine ⟨q, htext, ?_⟩
      split_ifs at hwork ⊢
      · exact hwork.extend hm hq
      · exact hwork.extend hm hq

/-! ### Histories -/

def Desk.after (libs : Libs) (rs : List Request) : Desk := exec (Desk.save libs) {} rs

lemma Desk.after_snoc (libs : Libs) (rs : List Request) (r : Request) :
    Desk.after libs (rs ++ [r]) = (Desk.after libs rs).save libs r := by
  simp [Desk.after, exec]

/-- A request saves its pack, or it leaves the desk as it was. -/
lemma Desk.save_cases (libs : Libs) (r : Request) (d : Desk) :
    d.save libs r = d ∨ ∃ out, applyPseudonyms libs r.config r.subkey d.events = .ok out ∧
      (d.save libs r).events = out.events := by
  unfold Desk.save
  by_cases hname : r.nameTaken = true
  · rw [if_pos hname]
    exact .inl rfl
  rw [if_neg hname]
  by_cases hkey : pseudonymFields r.config ≠ [] ∧ r.subkey = none
  · rw [if_pos hkey]
    exact .inl rfl
  rw [if_neg hkey]
  cases hout : applyPseudonyms libs r.config r.subkey d.events with
  | error e => exact .inl rfl
  | ok out =>
    split_ifs
    · exact .inl rfl
    · exact .inr ⟨out, rfl, rfl⟩

structure Request.Uses (libs : Libs) (r : Request) (key : List UInt8) (compiled : List Compiled) :
    Prop where
  fields : (pseudonymFields r.config).mapM (PseudonymField.compile libs) = .ok compiled
  subkey : pseudonymFields r.config = [] ∨ r.subkey = some key

/-- Where an event of the pack comes from. It was given to a build that did not find it on disk, and
that build replaced what its fields match; a build that found it on disk took it over, with
stand-ins of its own values in place of what it found of them; or the last request saved nothing. -/
inductive Accounted (libs : Libs) : List Request → Text → Prop where
  | fresh {rs : List Request} {r : Request} {key : List UInt8} {compiled : List Compiled}
      {raw : Text} {p : Patched Char} (given : raw ∈ r.config.events)
      (new : raw ∉ (Desk.after libs rs).events) (uses : r.Uses libs key compiled)
      (rewrote : Rewrote libs key compiled raw p) : Accounted libs (rs ++ [r]) p.text
  | kept {rs : List Request} {r : Request} {key : List UInt8} {compiled : List Compiled}
      {raw : Text} {p : Patched Char} (given : raw ∈ r.config.events)
      (found : raw ∈ (Desk.after libs rs).events) (earlier : Accounted libs rs raw)
      (uses : r.Uses libs key compiled) (patchwork : Patchwork libs key compiled raw p) :
      Accounted libs (rs ++ [r]) p.text
  | unsaved {rs : List Request} {r : Request} {e : Text} (earlier : Accounted libs rs e)
      (same : Desk.after libs (rs ++ [r]) = Desk.after libs rs) : Accounted libs (rs ++ [r]) e

/-- After any requests, every event of the pack on disk is accounted for: some build took it as raw
sample and replaced, in place, every text that one of the fields it had matches, unless that text
has nothing to vary, by the stand-in the field gives it, and nothing but stand-ins was written into
it then or later. -/
theorem rebuilt_events_accounted (libs : Libs) (rs : List Request) :
    ∀ e ∈ (Desk.after libs rs).events, Accounted libs rs e := by
  induction rs using reverseRecOn with
  | nil => exact fun e he => absurd he not_mem_nil
  | append_singleton rs r ih =>
    intro e he
    have hsave := Desk.after_snoc libs rs r
    rcases (Desk.after libs rs).save_cases libs r with hsame | ⟨out, hout, hevents⟩
    · rw [hsave, hsame] at he
      exact .unsaved (ih e he) (hsave.trans hsame)
    · rw [hsave, hevents] at he
      obtain ⟨key, compiled, hfields, hkey, hall⟩ := applyPseudonyms_ok hout
      obtain ⟨raw, hraw, p, rfl, hp⟩ := forall₂_exists_of_mem hall he
      split_ifs at hp with hfound
      · exact .kept hraw hfound (ih raw hfound) ⟨hfields, hkey⟩ hp
      · exact .fresh hraw hfound ⟨hfields, hkey⟩ hp

/-! ### What the fields match in a saved pack -/

def matchedTexts (libs : Libs) (f : PseudonymField) (e : Text) : List Text :=
  ((libs.regex f.pattern).finditer e).filterMap fun m =>
    match (libs.regex f.pattern).locate m with
    | none => none
    | some (s, t) => if s < t then some (slice e s t) else none

/-- Every text that an enabled pseudonym field matches in the pack on disk is a stand-in that some
build of the pack wrote. -/
def Desk.Clean (libs : Libs) (d : Desk) : Prop :=
  ∀ p ∈ d.pack, ∀ f ∈ pseudonymFields p.config, ∀ e ∈ p.config.events, ∀ x ∈ matchedTexts libs f e,
    x ∈ d.standIns

instance (libs : Libs) (d : Desk) : Decidable (d.Clean libs) :=
  inferInstanceAs (Decidable (∀ p ∈ d.pack, _))

/-- What a pattern finds that is a fixed text and a group behind it: `value` gives the text of the
group, and none is found where that is empty. -/
def keyedMatches (front : Text) (value : Text → Text) : ℕ → ℕ → Text → List Match
  | _, _, [] => []
  | skip + 1, pos, _ :: t => keyedMatches front value skip (pos + 1) t
  | 0, pos, c :: t =>
    let v := value ((c :: t).drop front.length)
    if front.isPrefixOf (c :: t) ∧ v ≠ [] then
      let start := pos + front.length
      ⟨pos, start + v.length, some (start, start + v.length)⟩ ::
        keyedMatches front value (front.length + v.length - 1) (pos + 1) t
    else keyedMatches front value 0 (pos + 1) t

def keyedRegex (front : Text) (value : Text → Text) : Regex where
  groups := 1
  finditer t := (keyedMatches front value 0 0 t).filter fun m =>
    decide (m.stop ≤ t.length ∧ ∀ g ∈ m.group, g.2 ≤ t.length)
  bounded := by
    intro t m hm
    simpa using (mem_filter.1 hm).2

/-- ASCII, a hash that gives every text the same number, and two patterns: the word behind `user=`,
and six digits behind it. -/
def sampleLibs : Libs where
  isAlpha := Char.isAlpha
  isUpper := Char.isUpper
  nfc := id
  hmac := fun _ _ => 123456789
  repr := fun t => '\'' :: t ++ ['\'']
  jsonParses := fun _ => false
  regex := fun pattern =>
    if pattern = "user=(\\S+)" then
      keyedRegex "user=" fun t => t.takeWhile fun c => c ≠ ' '
    else keyedRegex "user=" fun t =>
      if 6 ≤ t.length ∧ (t.take 6).all Char.isDigit then t.take 6 else []

/-- A pack of one event, with a pseudonym field `user`. -/
def userRequest (event pattern : String) (widen : Option Widen) (enabled : Bool) : Request where
  config :=
    { name := "users"
      events := [event.toList]
      tokens := [{ field := "user", pattern := pattern.toList, enabled := enabled,
                   replacement := .pseudonym widen false }] }
  subkey := some [1]

/-- An event that is kept and one that is new: both are accounted for. -/
theorem rebuilt_events_accounted_kept :
    let rs := [userRequest "user=123456 login" "user=(\\S+)" none true,
      userRequest "user=256789 login" "user=(\\S+)" none true]
    "user=256789 login".toList ∈ (Desk.after sampleLibs rs).events ∧
      Accounted sampleLibs rs "user=256789 login".toList := by
  intro rs
  exact ⟨by decide +kernel, rebuilt_events_accounted sampleLibs rs _ (by decide +kernel)⟩

/-- No text that a field matches in what a request supplies is a stand-in. -/
def RawDistinct (libs : Libs) (rs : List Request) : Prop :=
  ∀ r ∈ rs, ∀ f ∈ pseudonymFields r.config, ∀ e ∈ r.config.events, ∀ x ∈ matchedTexts libs f e,
    x ∉ (Desk.after libs rs).standIns

instance (libs : Libs) (rs : List Request) : Decidable (RawDistinct libs rs) :=
  inferInstanceAs (Decidable (∀ r ∈ rs, _))

/-- Three packs in which a field matches something that is no stand-in: a text with nothing to vary;
a stand-in of fifteen digits, of which the field's own pattern matches six; and an original, in an
event that was saved before the field was enabled and is taken over from disk. -/
theorem saved_pack_not_clean :
    let nothingToVary := [userRequest "user=--- login" "user=(\\S+)" none true]
    let widened := [userRequest "user=123456 login" "user=(\\d\\d\\d\\d\\d\\d)"
      (some { shape := .digits }) true]
    let enabledLater := [userRequest "user=123456 login" "user=(\\S+)" none false,
      userRequest "user=123456 login" "user=(\\S+)" none true]
    (RawDistinct sampleLibs nothingToVary ∧
      ¬ (Desk.after sampleLibs nothingToVary).Clean sampleLibs) ∧
    (RawDistinct sampleLibs widened ∧ ¬ (Desk.after sampleLibs widened).Clean sampleLibs) ∧
    RawDistinct sampleLibs enabledLater ∧
      ¬ (Desk.after sampleLibs enabledLater).Clean sampleLibs := by
  decide +kernel

end Stoker
