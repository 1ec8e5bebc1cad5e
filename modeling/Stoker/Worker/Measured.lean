import Stoker.Worker.MetricsHistory

/-!
# The measurements of a history

`MetricsEngine` keeps a state for each of its series and each metric name: a random generator whose
seed comes from the config, the series and the name, and what the value patterns store beside it.
Every point of a backfill takes its values from the states of its series and leaves new ones. A
series thus gives the same points on every worker, and the workers of a fleet of any size together
send the same history.
-/

open List

namespace Stoker

open Dealing

/-- A metric of a pack: its name, if it has one, and what its pattern reads. -/
structure Metric (P : Type) where
  name : Option String
  pattern : P

structure MetricsSpec (V P : Type) where
  dimensions : List (Dimension V)
  metrics : List (Metric P)
  seed : String

/-- Python's texts and generators, and the value patterns: the value at a time, and the state it
leaves. -/
structure MetricsLibs (V P St X : Type) where
  str : V → String
  stableSeed : List String → ℕ
  random : ℕ → St
  value : P → Series V → ℚ → St → X × St

section

variable {V P St X : Type} [LinearOrder V] (libs : MetricsLibs V P St X)

/-- `_series_key`. -/
def seriesKey (s : Series V) : String :=
  "|".intercalate ((seriesOrder s).map fun kv => (ofLex kv).1 ++ "=" ++ libs.str (ofLex kv).2)

variable (spec : MetricsSpec V P)

/-- A series as the engine is created, with its states by the names of the metrics. -/
def startSeries (s : Series V) : Series V × (Option String → St) :=
  (s, fun name => libs.random (libs.stableSeed [spec.seed, seriesKey libs s, name.getD "None"]))

/-- One round of `_fields_for`; a metric without a name is passed over. -/
def addField (s : Series V) (tick : ℚ) (acc : Series (V ⊕ X) × (Option String → St))
    (metric : Metric P) : Series (V ⊕ X) × (Option String → St) :=
  let name := metric.name.getD ""
  if name = "" then acc
  else
    let (x, st) := libs.value metric.pattern s tick (acc.2 metric.name)
    (Series.set ("metric_name:" ++ name) (.inr x) acc.1, Function.update acc.2 metric.name st)

/-- `_fields_for`: the dimensions and measurements of a point, and the states it leaves. -/
def fieldsFor (tick : ℚ) (c : Series V × (Option String → St)) :
    Series (V ⊕ X) × (Option String → St) :=
  spec.metrics.foldl (addField libs c.1 tick) (c.1.map fun kv => (kv.1, .inl kv.2), c.2)

/-- The loop of `_run_backfill` on a socket that stays open; `none` when it has not ended after so
many steps. -/
def measureLoop (res endS : ℚ) :
    ℕ → ℚ → List (Series V × (Option String → St)) → Option (List (ℚ × Series (V ⊕ X)))
  | 0, _, _ => none
  | fuel + 1, tick, cells =>
    if tick < endS then
      (measureLoop res endS fuel (tick + res)
        (cells.map fun c => (c.1, (fieldsFor libs spec tick c).2))).map
        ((cells.map fun c => (tick, (fieldsFor libs spec tick c).1)) ++ ·)
    else some []

/-- What the engine of a slot sends for a window. -/
def measureHistory (w : MetricsWindow) (slot total : ℕ) :
    Except String (Option (List (ℚ × Series (V ⊕ X)))) :=
  (metricsSeries slot total spec.dimensions).map fun series =>
    if series.isEmpty then some []
    else measureLoop libs spec w.step w.backfillEndS
      (gridSteps w.step w.backfillEndS w.first + 1) w.first
      (series.map (startSeries libs spec))

/-! ### Series by series -/

/-- The points of one series. -/
def seriesPoints (res : ℚ) : ℕ → ℚ → Series V × (Option String → St) → List (ℚ × Series (V ⊕ X))
  | 0, _, _ => []
  | n + 1, tick, c => (tick, (fieldsFor libs spec tick c).1) ::
      seriesPoints res n (tick + res) (c.1, (fieldsFor libs spec tick c).2)

omit [LinearOrder V] in
/-- The points of a worker are those of its series, in another order. -/
lemma measureLoop_perm {res endS tick : ℚ} (hres : 0 < res) {fuel : ℕ}
    (hfuel : gridSteps res endS tick < fuel) (cells : List (Series V × (Option String → St))) :
    ∃ points, measureLoop libs spec res endS fuel tick cells = some points ∧
      points.Perm (cells.flatMap (seriesPoints libs spec res (gridSteps res endS tick) tick)) := by
  induction fuel generalizing tick cells with
  | zero => exact absurd hfuel (Nat.not_lt_zero _)
  | succ fuel ih =>
    have hiff := gridSteps_pos_iff endS tick hres
    have hnext := gridSteps_next endS tick hres
    rw [measureLoop]
    cases hn : gridSteps res endS tick with
    | zero =>
      rw [if_neg fun hlt => absurd (hiff.2 hlt) (by omega)]
      exact ⟨[], rfl, by simp [seriesPoints]⟩
    | succ n =>
      rw [if_pos (hiff.1 (by omega))]
      rw [hn, Nat.add_sub_cancel] at hnext
      have hfew : gridSteps res endS (tick + res) < fuel := by omega
      obtain ⟨later, hlater, hperm⟩ := ih hfew
        (cells.map fun c => (c.1, (fieldsFor libs spec tick c).2))
      refine ⟨_, by rw [hlater]; rfl, ?_⟩
      rw [hnext, flatMap_map] at hperm
      exact (hperm.append_left _).trans (map_append_flatMap_perm _ _ _)

/-- The points of one series over a window. -/
def historyOf (w : MetricsWindow) (s : Series V) : List (ℚ × Series (V ⊕ X)) :=
  seriesPoints libs spec w.step (gridSteps w.step w.backfillEndS w.first) w.first
    (startSeries libs spec s)

/-- The workers of a fleet together send the points of all series. -/
lemma measureHistory_perm {w : MetricsWindow} (hres : 0 < w.step) {total : ℕ} (htotal : 0 < total) :
    ∃ points : ℕ → List (ℚ × Series (V ⊕ X)),
      (∀ slot < total, measureHistory libs spec w slot total = .ok (some (points slot))) ∧
      ((range total).flatMap points).Perm
        ((buildSeries spec.dimensions).flatMap (historyOf libs spec w)) := by
  have hslot : ∀ slot < total, ∃ points, measureHistory libs spec w slot total = .ok (some points) ∧
      points.Perm ((deal slot total (buildSeries spec.dimensions)).flatMap
        (historyOf libs spec w)) := by
    intro slot hlt
    obtain ⟨points, hloop, hperm⟩ := measureLoop_perm libs spec hres
      (Nat.lt_succ_self (gridSteps w.step w.backfillEndS w.first))
      ((deal slot total (buildSeries spec.dimensions)).map (startSeries libs spec))
    rw [flatMap_map] at hperm
    rw [measureHistory, metricsSeries_ok hlt]
    cases hseries : deal slot total (buildSeries spec.dimensions) with
    | nil => exact ⟨[], rfl, .refl _⟩
    | cons s series =>
      rw [hseries] at hloop hperm
      exact ⟨points, congrArg Except.ok hloop, hperm⟩
  choose! points hok hperm using hslot
  refine ⟨points, hok, ?_⟩
  have hall := Perm.flatMap_left (range total) fun slot hlt => hperm slot (mem_range.1 hlt)
  rw [← flatMap_assoc] at hall
  exact hall.trans ((deal_perm htotal _).flatMap_right _)

end

/-- The history of a metrics run does not depend on the size of its fleet: whatever the values are
made of, the workers together send the points that a single worker sends. -/
theorem metrics_history_of_any_fleet {V P St X : Type} [LinearOrder V] (libs : MetricsLibs V P St X)
    (spec : MetricsSpec V P) {w : MetricsWindow} (hres : 0 < w.step) {total : ℕ}
    (htotal : 0 < total) :
    ∃ (whole : List (ℚ × Series (V ⊕ X))) (points : ℕ → List (ℚ × Series (V ⊕ X))),
      measureHistory libs spec w 0 1 = .ok (some whole) ∧
      (∀ slot < total, measureHistory libs spec w slot total = .ok (some (points slot))) ∧
      ((range total).flatMap points).Perm whole := by
  obtain ⟨alone, hone, hwhole⟩ := measureHistory_perm libs spec hres Nat.one_pos
  obtain ⟨points, hok, hperm⟩ := measureHistory_perm libs spec hres htotal
  refine ⟨alone 0, points, hone 0 Nat.one_pos, hok, hperm.trans ?_⟩
  simpa using hwhole.symm

/-- A counter on two hosts, over twenty seconds, on two workers. -/
theorem metrics_history_of_two_workers :
    let libs : MetricsLibs String Unit ℕ ℕ :=
      { str := id, stableSeed := length, random := id, value := fun _ _ _ st => (st, st + 1) }
    let spec : MetricsSpec String Unit := ⟨[⟨"host", ["a", "b"]⟩], [⟨some "requests", ()⟩], "1234"⟩
    ∃ (whole : List (ℚ × Series (String ⊕ ℕ))) (points : ℕ → List (ℚ × Series (String ⊕ ℕ))),
      measureHistory libs spec ⟨10, 0, 20, none⟩ 0 1 = .ok (some whole) ∧
      (∀ slot < 2, measureHistory libs spec ⟨10, 0, 20, none⟩ slot 2 = .ok (some (points slot))) ∧
      ((range 2).flatMap points).Perm whole :=
  metrics_history_of_any_fleet _ _ (by decide +kernel) (by decide)

end Stoker
