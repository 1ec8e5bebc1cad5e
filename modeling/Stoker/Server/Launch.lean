import Stoker.Server.Ceilings
import Stoker.Server.System
import Stoker.Transition.Fallible

/-!
# Launching a run

The launch request (`run_spec` in `server/routes/api.py`) and the plan of a backfill
(`plan_backfill` in `server/lifecycle.py`). A backfill does not deliver at the rate of its spec: the
route reads the rate it is to deliver at from the request and checks that one against the ceilings,
and `plan_backfill` then works the rate out once more, with rules of its own for values that are not
positive or less than one.
-/

namespace Stoker

open Transition

structure RunLaunch where
  backfillWindowS : Option ℚ := none
  backfillStartS : Option ℚ := none
  backfillEndS : Option ℚ := none
  backfillResolutionS : Option ℚ := none
  backfillCapEps : Option ℚ := none
  deriving DecidableEq

def defaultBackfillCapEps : ℚ := 5000

/-! ### The plan of a backfill -/

structure BackfillPlan where
  startS : ℚ
  endS : ℚ
  windowS : ℚ
  resolutionS : Option ℚ
  capEps : ℚ
  deliverEps : ℚ
  densityEps : ℚ
  events : ℤ
  durationS : ℚ
  seconds : ℚ
  deriving DecidableEq

/-- The delivery cap of a plan: the launch's own, else the deployment's, else the default, and at
least one event a second. -/
def planCap (capEps deploymentCap : Option ℚ) : ℚ :=
  let fallback := (positive deploymentCap).getD defaultBackfillCapEps
  max 1 ((positive capEps).getD fallback)

/-- The window of a plan: an explicit range wins over the last seconds. -/
def planWindow (now : Time) (windowS startS endS : Option ℚ) : Except String (ℚ × ℚ × ℚ) :=
  match startS, endS with
  | some s, some e =>
    if e ≤ s then .error "backfill end must be after start" else .ok (s, e, e - s)
  | _, _ =>
    let window := windowS.getD 0
    if window ≤ 0 then .error "a backfill needs a window, or a start and end"
    else .ok (now - window, now, window)

def planBackfill (engine : Engine) (seriesCount : ℕ) (liveEps windowS resolutionS capEps : Option ℚ)
    (now : Time) (deploymentCap startS endS : Option ℚ) : Except String BackfillPlan :=
  match planWindow now windowS startS endS with
  | .error e => .error e
  | .ok (s, e, window) =>
    let cap := planCap capEps deploymentCap
    let density := (positive liveEps).getD cap
    let resolution := (positive resolutionS).getD 10
    let events : ℤ :=
      if engine = .metrics then ⌈window / resolution⌉ * max 1 (seriesCount : ℤ)
      else ⌈window * density⌉
    let seconds := (events : ℚ) / cap
    .ok { startS := s
          endS := e
          windowS := window
          resolutionS := if engine = .metrics then some resolution else none
          capEps := cap
          deliverEps := cap
          densityEps := density
          events := events
          durationS := max 15 (⌈seconds * (3 / 2)⌉ + 15)
          seconds := seconds }

/-! ### The request -/

/-- What a launch finds: the outcome of the gates on the packs, what the packs declare, the fleet,
whether every worker gets work, the target and the runs that are active on it, and whether the
driver can be found. -/
structure LaunchWorld where
  packs : Except HttpError Unit := .ok ()
  replayPack : Bool := false
  bytesPerEvent : Option ℚ := none
  mergedBytesPerEvent : Option ℚ := none
  seriesCount : ℕ := 0
  packResolutionS : Option ℚ := none
  impl : Option EngineImpl := none
  fleet : Option FleetCaps := none
  shardable : Bool := true
  maxConcurrentGbDay : Option ℚ := none
  activeGbDay : ℚ := 0
  healthRed : Bool := false
  driver : Bool := true

/-- The bytes of an event that the checks use: the merged estimate when there is one. -/
def LaunchWorld.checkedBytes (world : LaunchWorld) : Option ℚ :=
  world.mergedBytesPerEvent.or world.bytesPerEvent

def isReplayRun (spec : Snapshot) (world : LaunchWorld) : Bool :=
  decide (spec.engine = .rawreplay) || world.replayPack

/-- `_rate_to_gb_day`, and `_run_gb_day` of a spec. -/
def rateToGbDay (mode : RateMode) (rate : Option ℚ) (bytesPerEvent : Option ℚ) : Option ℚ :=
  match mode, truthy rate with
  | .perDayGb, some r => some r
  | .eps, some r => epsToGbDay r bytesPerEvent
  | _, _ => none

/-- `_target_headroom_gb_day`: unknown without a cap or a volume. -/
def targetHeadroomGbDay (spec : Snapshot) (world : LaunchWorld) : Option ℚ :=
  match positive world.maxConcurrentGbDay,
      rateToGbDay spec.rateMode spec.rateValue world.checkedBytes with
  | some cap, some gb => some (cap - world.activeGbDay - gb)
  | _, _ => none

/-- A request for a backfill: a positive window or an explicit range. -/
def RunLaunch.isBackfill (body : RunLaunch) : Bool :=
  decide (0 < body.backfillWindowS.getD 0) ||
    (body.backfillStartS.isSome && body.backfillEndS.isSome)

/-- The rate the route takes a backfill to deliver at. -/
def requestedEps (capEps deploymentCap : Option ℚ) : ℚ :=
  ((truthy capEps).or (truthy deploymentCap)).getD defaultBackfillCapEps

def launchGates (body : RunLaunch) (spec : Snapshot) (settings : CapSettings)
    (world : LaunchWorld) :
    Except HttpError Unit := do
  world.packs
  if isReplayRun spec world = true ∧ spec.workers ≠ 1 then throw ⟨409, "replay_single_worker"⟩
  let ceilings := resolveCeilings spec.engine settings world.fleet world.impl
  if (checkSlice spec.rateMode (perWorkerShare spec.rateMode spec.rateValue spec.workers)
      world.checkedBytes ceilings).isSome then
    throw ⟨422, "slice_exceeds_ceiling"⟩
  if world.shardable = false then throw ⟨422, "workers_exceed_shardable_work"⟩
  if (targetHeadroomGbDay spec world).any (· < 0) then throw ⟨409, "target_cap_exceeded"⟩
  if world.healthRed then throw ⟨409, "target_unhealthy"⟩
  if body.isBackfill then
    let deliver := requestedEps body.backfillCapEps settings.backfillCapEps
    if (checkSlice .eps (perWorkerShare .eps (some deliver) spec.workers) world.checkedBytes
        ceilings).isSome then
      throw ⟨422, "backfill_exceeds_ceiling"⟩
  if world.driver = false then throw ⟨422, "fleet_unavailable"⟩

/-- What is provisioned: the snapshot, with the effective rate and worker count, and the plan of a
backfill. -/
structure Launched where
  snapshot : Snapshot
  plan : Option BackfillPlan
  deriving DecidableEq

def effectiveSpec (now : Time) (body : RunLaunch) (spec : Snapshot) (settings : CapSettings)
    (world : LaunchWorld) : Except HttpError Launched :=
  let sized := { spec with workers := effectiveWorkers spec.engine spec.workers }
  if body.isBackfill then
    match planBackfill spec.engine world.seriesCount
        (if spec.rateMode = .eps then spec.rateValue else none) body.backfillWindowS
        ((truthy body.backfillResolutionS).or world.packResolutionS) body.backfillCapEps now
        settings.backfillCapEps body.backfillStartS body.backfillEndS with
    | .error e => .error ⟨500, e⟩
    | .ok plan =>
      .ok { snapshot := { sized with rateMode := .eps
                                     rateValue := some plan.deliverEps
                                     durationS := some plan.durationS }
            plan := some plan }
  else .ok { snapshot := sized, plan := none }

def runSpec (now : Time) (body : RunLaunch) (spec : Snapshot) (settings : CapSettings)
    (world : LaunchWorld) : Except HttpError Launched := do
  launchGates body spec settings world
  effectiveSpec now body spec settings world

/-! ### What an accepted launch has passed -/

section Gates

variable {now : Time} {body : RunLaunch} {spec : Snapshot} {settings : CapSettings}
  {world : LaunchWorld}

lemma launchGates_ok_iff : launchGates body spec settings world = .ok () ↔
    world.packs = .ok () ∧
      (isReplayRun spec world = true → spec.workers = 1) ∧
      checkSlice spec.rateMode (perWorkerShare spec.rateMode spec.rateValue spec.workers)
        world.checkedBytes (resolveCeilings spec.engine settings world.fleet world.impl) = none ∧
      world.shardable = true ∧
      (∀ x ∈ targetHeadroomGbDay spec world, 0 ≤ x) ∧
      world.healthRed = false ∧
      (body.isBackfill = true →
        checkSlice .eps
          (perWorkerShare .eps (some (requestedEps body.backfillCapEps settings.backfillCapEps))
            spec.workers)
          world.checkedBytes (resolveCeilings spec.engine settings world.fleet world.impl) = none) ∧
      world.driver = true := by
  have hroom : ¬(targetHeadroomGbDay spec world).any (· < 0) = true ↔
      ∀ x ∈ targetHeadroomGbDay spec world, 0 ≤ x := by
    cases targetHeadroomGbDay spec world <;> simp
  unfold launchGates
  rw [check_ok_iff]
  simp only [unless_ok_iff, if_unless_ok_iff, throw_ok_iff, hroom, not_and, ne_eq, not_not,
    Bool.not_eq_false, Bool.not_eq_true, Option.isSome_eq_false_iff, Option.isNone_iff_eq_none]

variable {l : Launched}

lemma runSpec_ok_iff : runSpec now body spec settings world = .ok l ↔
    launchGates body spec settings world = .ok () ∧
      effectiveSpec now body spec settings world = .ok l :=
  check_ok_iff

lemma planBackfill_deliverEps {engine : Engine} {series : ℕ}
    {live window res cap deployment s e : Option ℚ} {plan : BackfillPlan}
    (h : planBackfill engine series live window res cap now deployment s e = .ok plan) :
    plan.deliverEps = planCap cap deployment := by
  unfold planBackfill at h
  split at h
  · cases h
  · cases h
    rfl

/-- What is provisioned: the run's size, and for a backfill the plan's rate in place of the
spec's. -/
lemma effectiveSpec_ok (h : effectiveSpec now body spec settings world = .ok l) :
    l.snapshot.workers = effectiveWorkers spec.engine spec.workers ∧
      ((body.isBackfill = false ∧ l.plan = none ∧ l.snapshot.rateMode = spec.rateMode ∧
          l.snapshot.rateValue = spec.rateValue) ∨
        (body.isBackfill = true ∧ ∃ plan, l.plan = some plan ∧
          plan.deliverEps = planCap body.backfillCapEps settings.backfillCapEps ∧
          l.snapshot.rateMode = .eps ∧ l.snapshot.rateValue = some plan.deliverEps)) := by
  unfold effectiveSpec at h
  split at h
  · next hb =>
    split at h
    · cases h
    · next plan hplan =>
      cases h
      exact ⟨rfl, .inr ⟨hb, plan, rfl, planBackfill_deliverEps hplan, rfl, rfl⟩⟩
  · next hb =>
    cases h
    exact ⟨rfl, .inl ⟨by simpa using hb, rfl, rfl, rfl⟩⟩

end Gates

end Stoker
