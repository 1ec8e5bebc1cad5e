import Stoker.PackBuilder.Format
import Stoker.Transition.Fallible

/-!
# The build-time pass

`pseudonymise_events`: every text that a pseudonym field matches in the sample is replaced by its
stand-in, event by event. The pass refuses what would corrupt the pack: two texts with one stand-in,
fields that match overlapping text, a group that took no part in a match, and JSON that would no
longer parse. A text with nothing to vary is left as it is, with a warning.
-/

open List

namespace Stoker

open Rewriting Transition

/-! ### Dictionaries -/

lemma lookup_cons_of_ne {κ ν : Type} [BEq κ] [LawfulBEq κ] {k : κ} {p : κ × ν} {d : List (κ × ν)}
    (h : k ≠ p.1) : (p :: d).lookup k = d.lookup k := by
  rw [lookup_cons, beq_false_of_ne h]

lemma lookup_cons_of_eq {κ ν : Type} [BEq κ] [LawfulBEq κ] {k : κ} {p : κ × ν} {d : List (κ × ν)}
    (h : k = p.1) : (p :: d).lookup k = some p.2 := by
  rw [lookup_cons, h, beq_self_eq_true]

/-- A lookup does not depend on how keys are compared. -/
lemma lookup_eq_lookup {κ ν : Type} (b b' : BEq κ) [h : @LawfulBEq κ b]
    [h' : @LawfulBEq κ b'] (k : κ)
    (d : List (κ × ν)) : @List.lookup κ ν b k d = @List.lookup κ ν b' k d := by
  induction d with
  | nil => rfl
  | cons p d ih =>
    by_cases hk : k = p.1
    · rw [@lookup_cons_of_eq κ ν b h k p d hk, @lookup_cons_of_eq κ ν b' h' k p d hk]
    · rw [@lookup_cons_of_ne κ ν b h k p d hk, @lookup_cons_of_ne κ ν b' h' k p d hk, ih]

namespace Dict

variable {κ ν : Type} [DecidableEq κ]

/-- `d[k] = v`. -/
def set (k : κ) (v : ν) : List (κ × ν) → List (κ × ν)
  | [] => [(k, v)]
  | p :: d => if p.1 = k then (k, v) :: d else p :: set k v d

/-- `d.setdefault(k, v)`. -/
def setDefault (k : κ) (v : ν) (d : List (κ × ν)) : List (κ × ν) :=
  if (d.lookup k).isSome then d else d ++ [(k, v)]

lemma mem_set {k : κ} {v : ν} {d : List (κ × ν)} {p : κ × ν} (h : p ∈ set k v d) :
    p = (k, v) ∨ p ∈ d := by
  induction d with
  | nil => exact .inl (mem_singleton.1 h)
  | cons q d ih =>
    rw [set] at h
    split_ifs at h
    · rcases mem_cons.1 h with h | h
      · exact .inl h
      · exact .inr (mem_cons_of_mem _ h)
    · rcases mem_cons.1 h with rfl | h
      · exact .inr mem_cons_self
      · exact (ih h).imp_right (mem_cons_of_mem _)

lemma lookup_set [BEq κ] [LawfulBEq κ] (k k' : κ) (v : ν) (d : List (κ × ν)) :
    (set k v d).lookup k' = if k' = k then some v else d.lookup k' := by
  induction d with
  | nil =>
    rw [set]
    split_ifs with h
    · rw [lookup_cons_of_eq h]
    · rw [lookup_cons_of_ne h]
  | cons p d ih =>
    rw [set]
    by_cases hp : p.1 = k
    · rw [if_pos hp]
      split_ifs with h
      · rw [lookup_cons_of_eq h]
      · rw [lookup_cons_of_ne h, lookup_cons_of_ne fun heq => h (heq.trans hp)]
    · rw [if_neg hp]
      by_cases h : k' = p.1
      · rw [lookup_cons_of_eq h, lookup_cons_of_eq h, if_neg fun heq => hp (h.symm.trans heq)]
      · rw [lookup_cons_of_ne h, lookup_cons_of_ne h, ih]

lemma lookup_setDefault [b : BEq κ] [LawfulBEq κ] (k k' : κ) (v : ν) (d : List (κ × ν)) :
    (setDefault k v d).lookup k' = (d.lookup k').or (if k' = k then some v else none) := by
  have hsame : @List.lookup κ ν instBEqOfDecidableEq k d = @List.lookup κ ν b k d :=
    lookup_eq_lookup instBEqOfDecidableEq b k d
  rw [setDefault, hsame]
  by_cases heq : k' = k
  · subst heq
    rw [if_pos rfl]
    cases hk : d.lookup k' with
    | some w =>
      rw [Option.isSome_some, if_pos rfl, hk]
      rfl
    | none =>
      rw [Option.isSome_none, if_neg Bool.false_ne_true, lookup_append, hk,
        lookup_cons_of_eq (p := (k', v)) rfl]
  · rw [if_neg heq, Option.or_none]
    split_ifs
    · rfl
    · rw [lookup_append, lookup_cons_of_ne heq, lookup_nil, Option.or_none]

end Dict

/-! ### Fields -/

structure PseudonymField where
  field : Text
  pattern : Text
  widen : Option Widen := none
  rewriteResiduals : Bool := false
  deriving DecidableEq

/-- A field with its pattern compiled and its format made out. -/
structure Compiled where
  row : PseudonymField
  rx : Regex
  widen : Option Format

/-- How messages name a field. -/
def PseudonymField.label (f : PseudonymField) : Text := if f.field = [] then f.pattern else f.field

def PseudonymField.compile (libs : Libs) (f : PseudonymField) : Except PseudonymError Compiled :=
  match f.widen with
  | none => .ok ⟨f, libs.regex f.pattern, none⟩
  | some widen => do
    let fmt ← widenFormat widen
    return ⟨f, libs.regex f.pattern, some fmt⟩

/-- The place a match is about: the group's, when the pattern has one. -/
def Regex.locate (rx : Regex) (m : Match) : Option (ℕ × ℕ) :=
  if 1 ≤ rx.groups then m.group else some (m.start, m.stop)

variable {t : Text} {pos : ℕ}

/-- A place that a match is about lies in the text. -/
lemma Regex.locate_le {rx : Regex} {m : Match} (hm : m ∈ rx.finditer t) {s e : ℕ}
    (h : rx.locate m = some (s, e)) : e ≤ t.length := by
  obtain ⟨hstop, hgroup⟩ := rx.bounded t m hm
  unfold Regex.locate at h
  split_ifs at h
  · exact hgroup (s, e) h
  · cases h
    exact hstop

def Shape.name : Shape → Text
  | .digits => "digits"
  | .hex => "hex"
  | .guid => "guid"
  | .mixed => "mixed"
  | .none => "none"

def decimal (n : ℕ) : Text := Nat.toDigits 10 n

/-! ### The pass -/

/-- What the pass remembers from event to event. -/
structure Tables where
  byOutput : List ((Shape × Text) × Text) := []
  mapping : List (Text × Text) := []
  origin : List (Text × Text) := []
  outputs : List (Text × Shape) := []
  warnings : List Text := []
  deriving DecidableEq

/-- An edit of an event, with the field that asked for it. -/
structure SpanEdit extends Edit Char where
  label : Text
  deriving DecidableEq

def nothingToVary (libs : Libs) (label span : Text) : Text :=
  label ++ ": " ++ libs.repr span ++ " has no variable character, so it is left as it is"

def Tables.enter (f : PseudonymField) (shape : Shape) (normalised standIn : Text) (t : Tables) :
    Tables :=
  { t with
    byOutput := Dict.set (shape, standIn) normalised t.byOutput
    mapping := Dict.set normalised standIn t.mapping
    origin := Dict.setDefault normalised f.field t.origin
    outputs := Dict.set standIn shape t.outputs }

section

variable (libs : Libs) (key : List UInt8)

def applyMatch (index : ℕ) (event : Text) (c : Compiled) (st : Tables × List SpanEdit) (m : Match) :
    Except PseudonymError (Tables × List SpanEdit) :=
  match c.rx.locate m with
  | none => .error (.groupMissing c.row.label (index + 1))
  | some (s, e) =>
    if e ≤ s then .ok st
    else
      let span := slice event s e
      let normalised := libs.nfc span
      let shape := (standInFormat c.widen normalised).shape
      match pseudonym libs key c.widen span with
      | none =>
        let note := nothingToVary libs c.row.label span
        .ok (if note ∈ st.1.warnings then st
          else ({ st.1 with warnings := st.1.warnings ++ [note] }, st.2))
      | some standIn =>
        let clash := st.1.byOutput.lookup (shape, standIn)
        if clash ≠ none ∧ clash ≠ some normalised then .error (.merged c.row.label standIn)
        else .ok (st.1.enter c.row shape normalised standIn,
          st.2 ++ [{ start := s, stop := e, new := standIn, label := c.row.label }])

def applyField (index : ℕ) (event : Text) (st : Tables × List SpanEdit) (c : Compiled) :
    Except PseudonymError (Tables × List SpanEdit) :=
  (c.rx.finditer event).foldlM (applyMatch libs key index event c) st

/-- The first two neighbouring edits that overlap. -/
def overlapping : List SpanEdit → Option (SpanEdit × SpanEdit)
  | a :: b :: rest => if b.start < a.stop then some (a, b) else overlapping (b :: rest)
  | _ => none

/-- The ranges that edits write; so far `pos` characters were read and `written` ones written. -/
def spansOut : ℕ → ℕ → List (Edit Char) → List (ℕ × ℕ)
  | _, _, [] => []
  | pos, written, e :: es =>
    (written + (e.start - pos), written + (e.start - pos) + e.new.length) ::
      spansOut e.stop (written + (e.start - pos) + e.new.length) es

/-- A rewritten event, with the ranges that were written. -/
structure Masked where
  text : Text
  ranges : List (ℕ × ℕ) := []
  deriving DecidableEq

def rewriteEvent (compiled : List Compiled) (tables : Tables) (index : ℕ) (event : Text) :
    Except PseudonymError (Tables × Masked) := do
  let (tables, found) ← compiled.foldlM (applyField libs key index event) (tables, [])
  let sorted := found.insertionSort fun a b =>
    a.start < b.start ∨ (a.start = b.start ∧ a.stop ≤ b.stop)
  let edits := sorted.map SpanEdit.toEdit
  match overlapping sorted with
  | some (a, b) => throw (.overlap a.label b.label (index + 1))
  | none =>
    if edits = [] then return (tables, { text := event })
    else
      let text := splice event 0 edits
      if libs.jsonParses event ∧ ¬ libs.jsonParses text then throw (.notJson (index + 1))
      else return (tables, { text := text, ranges := spansOut 0 0 edits })

/-- The outcome of the pass. -/
structure Report where
  events : List Masked
  tables : Tables := {}
  deriving DecidableEq

def rewriteEvents (compiled : List Compiled) : Tables → ℕ → List Text →
    Except PseudonymError Report
  | tables, _, [] => .ok { events := [], tables := tables }
  | tables, index, event :: events => do
    let (tables, out) ← rewriteEvent libs key compiled tables index event
    let report ← rewriteEvents compiled tables (index + 1) events
    return { report with events := out :: report.events }

def pseudonymiseEvents (fields : List PseudonymField) (events : List Text) :
    Except PseudonymError Report := do
  let compiled ← fields.mapM (PseudonymField.compile libs)
  if compiled = [] then return { events := events.map fun e => { text := e } }
  else rewriteEvents libs key compiled {} 0 events

end

lemma ordered_of_overlapping {n : ℕ} {es : List SpanEdit} (h : overlapping es = none)
    (hes : ∀ e ∈ es, e.start < e.stop ∧ e.stop ≤ n) (hpos : ∀ e ∈ es.head?, pos ≤ e.start) :
    Ordered n pos (es.map SpanEdit.toEdit) := by
  induction es generalizing pos with
  | nil => trivial
  | cons a es ih =>
    obtain ⟨h₁, h₂⟩ := hes a mem_cons_self
    refine ⟨hpos a rfl, h₁, h₂, ?_⟩
    have hrest := fun e he => hes e (mem_cons_of_mem _ he)
    cases es with
    | nil => trivial
    | cons b es =>
      rw [overlapping] at h
      split_ifs at h with hab
      refine ih h hrest fun e he => ?_
      cases he
      exact Nat.not_lt.1 hab

lemma ofEdits_ranges {es : List (Edit Char)} (h : Ordered t.length pos es) (written : ℕ) :
    (Patched.ofEdits t pos es).ranges written = spansOut pos written es := by
  induction es generalizing pos written with
  | nil => rfl
  | cons e es ih =>
    obtain ⟨_, h₂, h₃, h₄⟩ := h
    rw [Patched.ofEdits, Patched.ranges, spansOut, slice_length (h₂.le.trans h₃), ih h₄]

end Stoker
