import Mathlib.Data.Prod.Lex
import Mathlib.Data.List.Lex
import Mathlib.Data.String.Basic
import Stoker.Server.Quotas

/-!
# The work of a slot

Two kinds of packs have work that does not come out of a rate. A metrics pack declares dimensions,
and their cross product is a list of series of which a worker takes every `total_workers`-th, from
its slot on (`worker/engines/metrics/stoker_metrics/engine.py`). A pack with its own counts has each
count split by largest remainder (`worker/stoker_agent/confrewrite.py`). Both use nothing but the
slot and the total of the slice the worker was given.
-/

open List

namespace Stoker

open Dealing

/-! ### Series -/

section

variable {V : Type}

/-- A dimension of a metrics pack; a missing key reads as the empty one, missing values as none. -/
structure Dimension (V : Type) where
  key : String
  values : List V
  deriving DecidableEq

/-- A series: the value of each of its dimensions, in the order they were set. -/
abbrev Series (V : Type) := List (String × V)

/-- Set a dimension; one that is set already keeps its place. -/
def Series.set (key : String) (value : V) : Series V → Series V
  | [] => [(key, value)]
  | (k, v) :: s => if k = key then (k, value) :: s else (k, v) :: Series.set key value s

/-- The dimensions that have a key and values. -/
def seriesAxes (dims : List (Dimension V)) : List (String × List V) :=
  dims.filterMap fun d =>
    if d.key ≠ "" ∧ d.values.isEmpty = false then some (d.key, d.values) else none

/-- `itertools.product`: one value of every axis, the last axis moving fastest. -/
def product : List (String × List V) → List (List (String × V))
  | [] => [[]]
  | (key, values) :: axes => values.flatMap fun v => (product axes).map fun combo =>
      (key, v) :: combo

variable [LinearOrder V]

/-- What series are sorted by: their sorted items. -/
def seriesOrder (s : Series V) : List (String ×ₗ V) := (s.map toLex).insertionSort (· ≤ ·)

def buildSeries (dims : List (Dimension V)) : List (Series V) :=
  let axes := seriesAxes dims
  if axes.isEmpty then [[]]
  else
    let series := (product axes).map fun combo =>
      combo.foldl (fun s (kv : String × V) => Series.set kv.1 kv.2 s) []
    series.insertionSort fun s t => seriesOrder s ≤ seriesOrder t

/-- The series of a metrics engine, once its configuration is accepted. -/
def metricsSeries (slot total : ℕ) (dims : List (Dimension V)) : Except String (List (Series V)) :=
  if total ≤ slot then
    .error ("STOKER_METRICS_SLOT (" ++ toString slot ++ ") must be < TOTAL_WORKERS (" ++
      toString total ++ ")")
  else .ok (deal slot total (buildSeries dims))

end

/-! ### Counts -/

/-- A sample stanza of a conf, with the count it declares if that reads as a number. -/
structure Stanza where
  name : String
  replay : Bool := false
  count : Option ℚ := none
  deriving DecidableEq

def countShare (slot total : ℕ) (count : ℚ) : Except String ℤ :=
  match largestRemainder ⌊count⌋ (replicate total 1) with
  | .error e => .error e
  | .ok shares =>
    match shares[slot]? with
    | none => .error "list index out of range"
    | some share => .ok share

/-- One round of `_rewrite_count_interval`: a stanza without a count, or with a negative one (the
whole sample), is left alone; so is a replay, which is not among the paced stanzas. -/
def rewriteStanza (slot total : ℕ) (stanza : Stanza) : Except String Stanza :=
  match stanza.count with
  | none => .ok stanza
  | some count =>
    if stanza.replay = true ∨ count < 0 then .ok stanza
    else
      match countShare slot total count with
      | .error e => .error e
      | .ok share => .ok { stanza with count := some share }

def rewriteCountInterval (slot total : ℕ) (conf : List Stanza) : Except String (List Stanza) :=
  if total ≤ slot then
    .error ("slot " ++ toString slot ++ " out of range for " ++ toString total ++ " workers")
  else conf.mapM (rewriteStanza slot total)

/-- The count of a stanza that the workers split, if they split it. -/
def Stanza.declared (stanza : Stanza) : Option ℕ :=
  match stanza.count with
  | none => none
  | some count => if stanza.replay = true ∨ count < 0 then none else some ⌊count⌋.toNat

variable {stanza : Stanza} {n : ℕ}

lemma Stanza.declared_whole (hr : stanza.replay = false) (hc : stanza.count = some (n : ℚ)) :
    stanza.declared = some n := by
  have hneg : ¬ (stanza.replay = true ∨ (n : ℚ) < 0) := by simp [hr]
  simp only [declared, hc, if_neg hneg]
  simp

/-! ### What a slot takes of a count -/

/-- Where nothing fails, a list is mapped. -/
lemma mapM_ok {ε α β : Type} {f : α → Except ε β} {g : α → β} {l : List α}
    (h : ∀ x ∈ l, f x = .ok (g x)) : l.mapM f = .ok (l.map g) := by
  induction l with
  | nil => rfl
  | cons x l ih =>
    have hrest := ih fun y hy => h y (mem_cons_of_mem _ hy)
    rw [mapM_cons, h x mem_cons_self, hrest]
    rfl

section

variable {slot total : ℕ}

lemma countShare_ok (h : slot < total) {count : ℚ} (hc : 0 ≤ count) :
    countShare slot total count = .ok (evenPart ⌊count⌋.toNat total slot) := by
  have hfloor : (⌊count⌋.toNat : ℤ) = ⌊count⌋ := Int.toNat_of_nonneg (Int.floor_nonneg.2 hc)
  have heven := largestRemainder_even ⌊count⌋.toNat (n := total) (by omega)
  rw [hfloor] at heven
  unfold countShare
  rw [heven]
  simp [h]

def Stanza.part (slot total : ℕ) (stanza : Stanza) : Stanza :=
  match stanza.declared with
  | none => stanza
  | some n => { stanza with count := some (evenPart n total slot : ℚ) }

lemma rewriteStanza_ok (h : slot < total) (stanza : Stanza) :
    rewriteStanza slot total stanza = .ok (stanza.part slot total) := by
  unfold rewriteStanza Stanza.part Stanza.declared
  cases hc : stanza.count with
  | none => rfl
  | some count =>
    dsimp only
    by_cases hs : stanza.replay = true ∨ count < 0
    · rw [if_pos hs, if_pos hs]
    · rw [if_neg hs, if_neg hs, countShare_ok h (by rw [not_or] at hs; exact not_lt.1 hs.2)]
      simp

lemma rewriteCountInterval_ok (h : slot < total) (conf : List Stanza) :
    rewriteCountInterval slot total conf = .ok (conf.map (Stanza.part slot total)) := by
  unfold rewriteCountInterval
  rw [if_neg (by omega)]
  exact mapM_ok fun stanza _ => rewriteStanza_ok h stanza

lemma metricsSeries_ok {V : Type} [LinearOrder V] (h : slot < total) (dims : List (Dimension V)) :
    metricsSeries slot total dims = .ok (deal slot total (buildSeries dims)) := by
  unfold metricsSeries
  rw [if_neg (by omega)]

end

/-! ### What the slots take together -/

def countAt (i : ℕ) (conf : List Stanza) : ℚ := (conf[i]?.bind (·.count)).getD 0

lemma countAt_part {conf : List Stanza} {i : ℕ} (hi : conf[i]? = some stanza)
    (hn : stanza.declared = some n) (slot total : ℕ) :
    countAt i (conf.map (Stanza.part slot total)) = (evenPart n total slot : ℚ) := by
  simp [countAt, hi, Stanza.part, hn]

lemma sum_evenPart_cast (n total : ℕ) (slots : List ℕ) :
    (slots.map fun slot => (evenPart n total slot : ℚ)).sum =
      ((slots.map (evenPart n total)).sum : ℕ) := by
  rw [Nat.cast_list_sum, map_map]
  rfl

end Stoker
