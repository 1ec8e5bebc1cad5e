import Stoker.Server.Apportion

/-!
# Per-worker ceilings

`server/engines/ceilings.py`: the bounds on one worker's share, resolved from the built-in table,
the environment and the fleet, and the check of a share against them. A bound that is switched off
is `none`.
-/

namespace Stoker

/-! ### Optional numbers -/

/-- A number that is not zero: what `x or y` takes for an answer. -/
def truthy (x : Option ℚ) : Option ℚ := x.filter (· ≠ 0)

/-- A number that is positive: what `x and x > 0` asks for. -/
def positive (x : Option ℚ) : Option ℚ := x.filter (0 < ·)

@[simp] lemma truthy_none : truthy none = none := rfl

@[simp] lemma positive_none : positive none = none := rfl

variable {x : ℚ}

lemma truthy_some (h : x ≠ 0) :
    truthy (some x) = some x := Option.filter_some_pos (by simpa using h)

@[simp] lemma truthy_zero : truthy (some 0) = none := Option.filter_some_neg (by simp)

lemma positive_some (h : 0 < x) : positive (some x) = some x :=
  Option.filter_some_pos (by simpa using h)

lemma positive_of_nonpos (h : x ≤ 0) : positive (some x) = none :=
  Option.filter_some_neg (by simpa using h)

/-! ### Bounds -/

inductive CeilingKey where
  | maxGbDayPerWorker
  | maxEpsPerWorker
  deriving DecidableEq

/-- The resolved bounds of an engine. -/
structure Bounds where
  maxGbDay : Option ℚ
  maxEps : Option ℚ
  deriving DecidableEq

def Bounds.set (key : CeilingKey) (bound : Option ℚ) (b : Bounds) : Bounds :=
  match key with
  | .maxGbDayPerWorker => { b with maxGbDay := bound }
  | .maxEpsPerWorker => { b with maxEps := bound }

/-- `CEILINGS` and `PYTHON_EVENTGEN_CEILINGS`: metrics has no table. -/
def builtInCeilings (engine : Engine) (impl : Option EngineImpl) : Option Bounds :=
  match engine with
  | .eventgen => if impl = some .python then some ⟨some 25, some 5000⟩
      else some ⟨some 250, some 10000⟩
  | .rawreplay => some ⟨some 25, some 5000⟩
  | .metrics => none

/-- What the environment configures. -/
structure CapSettings where
  maxGbDayPerWorker : Option ℚ := none
  maxEpsPerWorker : Option ℚ := none
  perEngineCeilings : List (Engine × CeilingKey × ℚ) := []
  backfillCapEps : Option ℚ := none
  deriving DecidableEq

/-- What a fleet's row configures. -/
structure FleetCaps where
  maxGbDayPerWorker : Option ℚ := none
  maxEpsPerWorker : Option ℚ := none
  deriving DecidableEq

/-- `_normalise_bound`: zero and less switch the bound off. -/
def normaliseBound (value : ℚ) : Option ℚ := if 0 < value then some value else none

/-- A layer that sets a bound replaces it, one that does not leaves it. -/
def Bounds.layer (key : CeilingKey) (value : Option ℚ) (b : Bounds) : Bounds :=
  match value with
  | some v => b.set key (normaliseBound v)
  | none => b

/-- `resolve_ceilings`: the fleet over the engine's settings over the global ones over the table. -/
def resolveCeilings (engine : Engine) (settings : CapSettings) (fleet : Option FleetCaps)
    (impl : Option EngineImpl) : Option Bounds :=
  (builtInCeilings engine impl).map fun table =>
    let env := (table.layer .maxGbDayPerWorker settings.maxGbDayPerWorker).layer .maxEpsPerWorker
      settings.maxEpsPerWorker
    let perEngine := (settings.perEngineCeilings.filter (·.1 = engine)).foldl
      (fun b entry => b.set entry.2.1 (normaliseBound entry.2.2)) env
    match fleet with
    | none => perEngine
    | some caps => (perEngine.layer .maxGbDayPerWorker caps.maxGbDayPerWorker).layer
        .maxEpsPerWorker
        caps.maxEpsPerWorker

/-! ### Units -/

/-- `eps_to_gb_day`, unknown without a positive estimate of the bytes of an event. -/
def epsToGbDay (eps : ℚ) (bytesPerEvent : Option ℚ) : Option ℚ :=
  (positive bytesPerEvent).map fun b => eps * b * 86400 / 1000000000

def gbDayToEps (gbDay : ℚ) (bytesPerEvent : Option ℚ) : Option ℚ :=
  (positive bytesPerEvent).map fun b => gbDay * 1000000000 / b / 86400

/-! ### The check -/

inductive LimitingFactor where
  | eps
  | gbDay
  deriving DecidableEq

/-- `CeilingCheck`; `none` when the share is within the ceilings. -/
structure Exceeded where
  suggestedWorkers : ℤ
  limitingFactor : LimitingFactor
  deriving DecidableEq

def exceeded (factor : LimitingFactor) (value ceiling : ℚ) : Exceeded :=
  ⟨max 2 ⌈value / ceiling⌉, factor⟩

/-- A value against a bound that may be switched off. -/
def exceeds (factor : LimitingFactor) (value : Option ℚ) (bound : Option ℚ) : Option Exceeded :=
  match value, bound with
  | some v, some b => if b < v then some (exceeded factor v b) else none
  | _, _ => none

/-- `check_slice`: the bound in the unit of the mode first. -/
def checkSlice (mode : RateMode) (perWorker : Option ℚ) (bytesPerEvent : Option ℚ)
    (ceilings : Option Bounds) : Option Exceeded :=
  match ceilings, perWorker with
  | some b, some v =>
    if v ≤ 0 then none
    else
      match mode with
      | .countInterval => none
      | .eps => (exceeds .eps (some v) b.maxEps).or
          (exceeds .gbDay (epsToGbDay v bytesPerEvent) b.maxGbDay)
      | .perDayGb =>
        (exceeds .gbDay (some v) b.maxGbDay).or (exceeds .eps (gbDayToEps v bytesPerEvent) b.maxEps)
  | _, _ => none

/-- `_per_worker_share`: the largest share of a worker. -/
def perWorkerShare (mode : RateMode) (rate : Option ℚ) (workers : ℕ) : Option ℚ :=
  match mode with
  | .countInterval => none
  | .eps | .perDayGb =>
    match positive rate with
    | none => none
    | some r =>
      match buildShareList mode (some r) (max 1 workers) with
      | .error _ => none
      | .ok shares => some ((shares.map fun s => (s.lookup mode.key).getD 0).max?.getD 0)

/-! ### What a passed check means -/

def WithinBounds (b : Bounds) (bytesPerEvent : Option ℚ) (eps : ℚ) : Prop :=
  (∀ m ∈ b.maxEps, eps ≤ m) ∧ ∀ m ∈ b.maxGbDay, ∀ gb ∈ epsToGbDay eps bytesPerEvent, gb ≤ m

lemma exceeds_eq_none {factor : LimitingFactor} {value bound : Option ℚ} :
    exceeds factor value bound = none ↔ ∀ m ∈ bound, ∀ v ∈ value, v ≤ m := by
  cases value <;> cases bound <;> simp [exceeds]

/-- A positive eps share passes exactly when it is within the bounds. -/
lemma checkSlice_eps {b : Bounds} {bytesPerEvent : Option ℚ} {v : ℚ} (hv : 0 < v) :
    checkSlice .eps (some v) bytesPerEvent (some b) = none ↔ WithinBounds b bytesPerEvent v := by
  simp only [checkSlice, if_neg (not_le.mpr hv), Option.or_eq_none_iff, exceeds_eq_none,
    WithinBounds]
  simp

lemma perWorkerShare_eq {mode : RateMode} (hm : mode.paced = true) {rate : ℚ} (hr : 0 < rate)
    (workers : ℕ) :
    perWorkerShare mode (some rate) workers = some (rate / (max 1 workers : ℕ)) := by
  have hn : 0 < max 1 workers := by omega
  have hmax : ((List.replicate (max 1 workers) [(mode.key, rate / (max 1 workers : ℕ))]).map
      fun s => (s.lookup mode.key).getD 0).max?.getD 0 = rate / (max 1 workers : ℕ) := by
    obtain ⟨k, hk⟩ : ∃ k, max 1 workers = k + 1 := ⟨max 1 workers - 1, by omega⟩
    simp [hk]
  cases mode with
  | countInterval => cases hm
  | eps | perDayGb =>
    simp only [perWorkerShare, positive_some hr, buildShareList_rate hm hr hn, hmax]

end Stoker
