import Stoker.Server.Operator

/-!
# The supervisor

One pass of the background loop over a run (`supervisor_tick`), and the pass made when the control
plane starts (`reconcile_on_boot`). An exception inside a pass is caught and logged, and what was
done before it is committed, so the steps of a pass are chained with `Outcome.andThen`.
-/

namespace Stoker

inductive BackpressureAction where
  | stepDown | drain
  deriving DecidableEq

/-- The supervisor's settings, all of them about backpressure. -/
structure Settings where
  backpressureDrainEnabled : Bool := false
  backpressureAction : BackpressureAction := .stepDown
  backpressureMinFailedFraction : ℚ := 1 / 2
  backpressureSustainedS : Time := 60
  backpressureStepFactor : ℚ := 1 / 2
  backpressureMinRateFraction : ℚ := 1 / 10
  deriving DecidableEq

/-! ### Lease lapse -/

/-- A live lease whose heartbeat deadline has passed. -/
def stale (boot now : Time) (run : Run) (l : Lease) : Bool :=
  l.state.live &&
    decide (max (l.lastHeartbeatAt.getD run.createdAt + leaseLapseS) (boot + bootGraceS) < now)

def lapseLease (boot now : Time) (run : Run) (l : Lease) : Lease :=
  if stale boot now run l then { l with state := .lost } else l

def lapseStaleLeases (boot now : Time) (db : Db) : Db :=
  { db with
    leases := db.leases.map (lapseLease boot now db.run)
    events := db.events ++
      (db.leases.filter (stale boot now db.run)).map fun l => ⟨now, .leaseLost l.slot⟩ }

/-! ### The checks of a pass -/

/-- `_destroy_fleet`: best effort. -/
def destroyFleet (now : Time) (why : DestroyReason) (env : Env) (db : Db) : Db :=
  if db.run.driverRef.isSome = true ∧ env.driver = true then
    db.appendEvent now (if env.destroyOk then .fleetDestroyed why else .driverError .destroy)
  else db

/-- The release timeout of a provisioning run: release what is ready, or fail a run none of whose
slots can get ready any more. -/
def releaseTimeout (now : Time) (env : Env) (db : Db) : Outcome Bool :=
  if db.run.state = .provisioning ∧ db.run.t0 = none ∧
    provisionTimeoutS < now - db.run.createdAt then
    if db.leases.any (·.state = .ready) then evaluateRelease now true db
    else if !db.leases.any (·.state.pending) then
      ⟨destroyFleet now .provisionTimeout env
        (transitionRun now .failed (some .provisionTimeout) db), .ok false⟩
    else ⟨db, .ok false⟩
  else ⟨db, .ok false⟩

/-- `_check_duration`: a run past its duration, pauses not counted, begins draining. -/
def checkDuration (now : Time) (db : Db) : Db :=
  if db.run.state = .running ∨ db.run.state = .releasing then
    match db.run.t0, db.run.snapshot.durationS.filter (· ≠ 0) with
    | some t0, some duration =>
      if t0 + duration + pausedSeconds now db.run ≤ now then
        transitionRun now .draining (some .durationComplete) db
      else db
    | _, _ => db
  else db

/-- The lost leases that count for the auto-abort: those that have been heard from. -/
def lostRunning (leases : List Lease) : List Lease :=
  leases.filter fun l => l.state = .lost ∧ l.lastHeartbeatAt.isSome = true

/-- More than half the fleet of a released run is lost, and has been for the abort window. -/
def abortLost (now : Time) (db : Db) : Bool :=
  let lost := lostRunning db.leases
  db.run.t0.isSome && decide (autoAbortLostFraction * db.leases.length < lost.length) &&
    lost.all fun l => decide (autoAbortLostS ≤ now - l.lastHeartbeatAt.getD now)

def authFailedSlots (db : Db) : List ℕ :=
  (db.events.filterMap fun e => match e.kind with
    | .hecAuthFailed slot => some slot
    | _ => none).dedup

def checkAutoAbort (now : Time) (env : Env) (db : Db) : Db :=
  let auth := authFailedSlots db
  if db.run.state.terminal = true ∨ db.run.state = .draining then db
  else if db.leases.length < 1 then db
  else if abortLost now db then
    destroyFleet now .autoAbortLost env (transitionRun now .failed (some .autoAbortLost) db)
  else if auth ≠ [] ∧ max 1 (db.leases.length / 2) ≤ auth.length then
    destroyFleet now .autoAbortAuth env (transitionRun now .failed (some .autoAbortAuth) db)
  else db

/-- The check does nothing, or it fails a run that is not stopping yet and destroys its fleet, for
lost leases or for refused tokens. -/
lemma checkAutoAbort_cases (now : Time) (env : Env) (db : Db) :
    checkAutoAbort now env db = db ∨
    ∃ why reason, db.run.state.terminal = false ∧ db.run.state ≠ .draining ∧
      (reason = .autoAbortLost ∧ abortLost now db = true ∨
        reason = .autoAbortAuth ∧ max 1 (db.leases.length / 2) ≤ (authFailedSlots db).length) ∧
      checkAutoAbort now env db =
        destroyFleet now why env (transitionRun now .failed (some reason) db) := by
  unfold checkAutoAbort
  dsimp only
  split_ifs with hstop _ hlost hauth
  · exact .inl rfl
  · exact .inl rfl
  · rw [not_or] at hstop
    exact .inr ⟨_, _, by simpa using hstop.1, hstop.2, .inl ⟨rfl, hlost⟩, rfl⟩
  · rw [not_or] at hstop
    exact .inr ⟨_, _, by simpa using hstop.1, hstop.2, .inr ⟨rfl, hauth.2⟩, rfl⟩
  · exact .inl rfl

/-! ### Backpressure -/

def lastTwoSamples (slot : ℕ) (samples : List MetricSample) : List MetricSample :=
  ((samples.filter (·.slot = slot)).insertionSort fun a b => b.ts ≤ a.ts).take 2

/-- `_recent_delivery_deltas`: the accepted and the failed sends between the last two samples of
each live slot. -/
def recentDeliveryDeltas (slots : List ℕ) (samples : List MetricSample) : ℤ × ℤ :=
  slots.foldl (fun acc slot =>
    match lastTwoSamples slot samples with
    | [latest, prev] =>
      let failed (s : MetricSample) := s.counters.hec5xx.getD 0 + s.counters.hecTimeouts.getD 0
      (acc.1 + max 0 (latest.counters.hec2xx.getD 0 - prev.counters.hec2xx.getD 0),
       acc.2 + max 0 (failed latest - failed prev))
    | _ => acc) (0, 0)

/-- `_open_backpressure_since`: the start of the streak that nothing has answered yet. -/
def openBackpressureSince (events : List RunEvent) : Option Time :=
  (events.insertionSort fun a b => a.ts ≤ b.ts).foldl (fun since e =>
    match e.kind with
    | .backpressureCleared => none
    | .backpressureStepDown _ _ => none
    | .backpressureDetected => some (since.getD e.ts)
    | _ => since) none

/-- The rate first asked for: recorded at the first step-down. -/
def originalRate (snap : Snapshot) (current : ℚ) : ℚ :=
  (snap.backpressureOriginalRate.filter (· ≠ 0)).getD current

/-- Record the rate first asked for, before it is rewritten. -/
def noteOriginalRate (current : ℚ) (db : Db) : Db :=
  { db with run := { db.run with snapshot := { db.run.snapshot with
      backpressureOriginalRate := some (originalRate db.run.snapshot current) } } }

/-- `_step_down_for_backpressure`. The result tells whether the rate was stepped down. -/
def stepDownForBackpressure (now : Time) (cfg : Settings) (db : Db) : Outcome Bool :=
  match db.run.snapshot.rateMode, db.run.snapshot.rateValue with
  | .countInterval, _ => ⟨db, .ok false⟩
  | _, none => ⟨db, .ok false⟩
  | _, some current =>
    let rate := current * cfg.backpressureStepFactor
    let floor := originalRate db.run.snapshot current * cfg.backpressureMinRateFraction
    if current ≤ 0 ∨ rate < floor then ⟨db, .ok false⟩
    else
      match rescaleRun now (some rate) (noteOriginalRate current db) with
      | .error e => ⟨noteOriginalRate current db, .error e⟩
      | .ok db' =>
        ⟨{ db' with run := { db'.run with degraded := true } }.appendEvent now
          (.backpressureStepDown current rate), .ok true⟩

def checkBackpressure (now : Time) (cfg : Settings) (db : Db) : Outcome Unit :=
  let live := (db.leases.filter (·.state.live)).map (·.slot)
  let (ok, failed) := recentDeliveryDeltas live db.samples
  let failing := decide (0 < ok + failed) &&
    decide (cfg.backpressureMinFailedFraction ≤ (failed : ℚ) / (ok + failed : ℤ))
  if cfg.backpressureDrainEnabled = false then ⟨db, .ok ()⟩
  else if (db.run.state ≠ .running ∧ db.run.state ≠ .releasing) ∨ db.run.t0 = none then ⟨db, .ok ()⟩
  else if live.isEmpty then ⟨db, .ok ()⟩
  else
    match failing, openBackpressureSince db.events with
    | false, none => ⟨db, .ok ()⟩
    | false, some _ => ⟨db.appendEvent now .backpressureCleared, .ok ()⟩
    | true, none => ⟨db.appendEvent now .backpressureDetected, .ok ()⟩
    | true, some since =>
      if now - since < cfg.backpressureSustainedS then ⟨db, .ok ()⟩
      else
        let stepped := match cfg.backpressureAction with
          | .stepDown => stepDownForBackpressure now cfg db
          | .drain => ⟨db, .ok false⟩
        match stepped.result with
        | .error e => ⟨stepped.db, .error e⟩
        | .ok true => ⟨stepped.db, .ok ()⟩
        | .ok false => ⟨transitionRun now .draining (some .backpressureDrain) stepped.db, .ok ()⟩

/-! ### Draining and ended runs -/

/-- `_last_state_ts`: the instant of the latest change to a state. -/
def lastStateTs (state : RunState) (events : List RunEvent) : Option Time :=
  (events.filterMap fun e => match e.kind with
    | .state _ new _ => if new = state then some e.ts else none
    | _ => none).foldl (fun last ts => some (last.elim ts (max ts))) none

/-- A lease without a final outcome is given up. -/
def giveUpLease (l : Lease) : Lease :=
  if l.state = .done ∨ l.state = .lost then l else { l with state := .lost }

/-- `_reap_draining`: after the stop grace, destroy the fleet and give up its leases. -/
def reapDraining (now : Time) (env : Env) (db : Db) : Db :=
  if db.run.state ≠ .draining then db
  else
    match lastStateTs .draining db.events with
    | none => db
    | some since =>
      if now - since < stopGraceS then db
      else
        let destroyed := destroyFleet now .stopGrace env db
        let given := destroyed.leases.filter fun l => l.state ≠ .done ∧ l.state ≠ .lost
        { destroyed.mapLeases giveUpLease with
          events := destroyed.events ++ given.map fun l => ⟨now, .leaseLost l.slot⟩ }

def reapTerminalFleet (now : Time) (env : Env) (db : Db) : Db :=
  let destroyed := db.events.any fun e => match e.kind with
    | .fleetDestroyed _ => true
    | _ => false
  match db.run.endedAt with
  | none => db
  | some ended =>
    if ended < now - terminalReapWindowS ∨ db.run.driverRef = none ∨ destroyed = true then db
    else destroyFleet now .postCompletionReap env db

/-! ### The pass -/

def superviseRun (cfg : Settings) (boot now : Time) (env : Env) (db : Db) : Outcome Unit :=
  (releaseTimeout now env (lapseStaleLeases boot now db)).andThen fun released =>
    (checkBackpressure now cfg (checkAutoAbort now env (checkDuration now released))).andThen
      fun checked => ⟨maybeCompleteRun now (reapDraining now env checked), .ok ()⟩

def RunState.supervised : RunState → Bool
  | .provisioning | .releasing | .running | .paused | .draining | .preparing => true
  | _ => false

def supervisorTick (cfg : Settings) (boot now : Time) (env : Env) (db : Db) : Db :=
  if db.run.state.supervised then (superviseRun cfg boot now env db).db
  else if db.run.state.terminal then reapTerminalFleet now env db
  else db

/-- `reconcile_on_boot`, for one run: adopt it when its workload is still there, fail it when it
never had one or the workload is gone. -/
def reconcileOnBoot (now : Time) (env : Env) (db : Db) : Db :=
  if db.run.state.terminal then db
  else if db.run.driverRef = none then transitionRun now .failed (some .orphaned) db
  else if env.driver = false then db
  else
    match env.status with
    | none => db
    | some (running, desired) =>
      if running ≤ 0 ∧ desired ≤ 0 then
        (transitionRun now .failed (some .orphaned) db).mapLeases giveUpLease
      else db.appendEvent now .adopted

/-! ### What the checks can do -/

/-- The leases without a final outcome are given up. -/
def giveUpLeases (now : Time) (db : Db) : Db :=
  { db.mapLeases giveUpLease with
    events := db.events ++ (db.leases.filter fun l => l.state ≠ .done ∧ l.state ≠ .lost).map
      fun l => ⟨now, .leaseLost l.slot⟩ }

/-- The rows as the duration check leaves them: what the later checks of a pass are made on. -/
def passChecked (boot now : Time) (env : Env) (db : Db) : Db :=
  checkDuration now (releaseTimeout now env (lapseStaleLeases boot now db)).db

section

variable (now : Time) (env : Env) (db : Db)

lemma destroyFleet_cases (why : DestroyReason) :
    destroyFleet now why env db = db ∨
      ∃ k, (k = .fleetDestroyed why ∨ k = .driverError .destroy) ∧
        destroyFleet now why env db = db.appendEvent now k := by
  unfold destroyFleet
  split_ifs
  · exact .inr ⟨_, .inl rfl, rfl⟩
  · exact .inr ⟨_, .inr rfl, rfl⟩
  · exact .inl rfl

lemma releaseTimeout_cases :
    releaseTimeout now env db = ⟨db, .ok false⟩ ∨
      db.run.state = .provisioning ∧ db.run.t0 = none ∧
        ((∃ l ∈ db.leases, l.state = .ready) ∧
            releaseTimeout now env db = evaluateRelease now true db ∨
          releaseTimeout now env db = ⟨destroyFleet now .provisionTimeout env
            (transitionRun now .failed (some .provisionTimeout) db), .ok false⟩) := by
  unfold releaseTimeout
  split_ifs with h hready
  · exact .inr ⟨h.1, h.2.1, .inl ⟨by simpa using hready, rfl⟩⟩
  · exact .inr ⟨h.1, h.2.1, .inr rfl⟩
  · exact .inl rfl
  · exact .inl rfl

lemma checkDuration_cases :
    checkDuration now db = db ∨ (db.run.state = .running ∨ db.run.state = .releasing) ∧
      checkDuration now db = transitionRun now .draining (some .durationComplete) db := by
  unfold checkDuration
  split_ifs with h
  · split
    · split_ifs
      · exact .inr ⟨h, rfl⟩
      · exact .inl rfl
    · exact .inl rfl
  · exact .inl rfl

lemma reapDraining_cases :
    reapDraining now env db = db ∨ ∃ since, db.run.state = .draining ∧
      lastStateTs .draining db.events = some since ∧ stopGraceS ≤ now - since ∧
      reapDraining now env db = giveUpLeases now (destroyFleet now .stopGrace env db) := by
  unfold reapDraining
  split_ifs with h
  · exact .inl rfl
  · split
    · exact .inl rfl
    · split_ifs with hgrace
      · exact .inl rfl
      · exact .inr ⟨_, not_not.1 h, ‹_›, not_lt.1 hgrace, rfl⟩

lemma reconcileOnBoot_cases :
    reconcileOnBoot now env db = db ∨ reconcileOnBoot now env db = db.appendEvent now .adopted ∨
      db.run.state.terminal = false ∧
        (reconcileOnBoot now env db = transitionRun now .failed (some .orphaned) db ∨
          reconcileOnBoot now env db =
            (transitionRun now .failed (some .orphaned) db).mapLeases giveUpLease) := by
  unfold reconcileOnBoot
  split_ifs with h
  · exact .inl rfl
  · exact .inr (.inr ⟨by simpa using h, .inl rfl⟩)
  · exact .inl rfl
  · split
    · exact .inl rfl
    · split_ifs
      · exact .inr (.inr ⟨by simpa using h, .inr rfl⟩)
      · exact .inr (.inl rfl)

/-- How a pass goes: it only looks at an ended fleet; a release that raises ends it; otherwise the
auto-abort and the backpressure check follow, and unless the latter raises, the reaping of a drained
fleet and the completion. -/
lemma supervisorTick_cases (cfg : Settings) (boot : Time) :
    (db.run.state.supervised = false ∧ (supervisorTick cfg boot now env db = db ∨
      supervisorTick cfg boot now env db = destroyFleet now .postCompletionReap env db)) ∨
    (db.run.state.supervised = true ∧ ∃ e,
      (releaseTimeout now env (lapseStaleLeases boot now db)).result = .error e ∧
      supervisorTick cfg boot now env db =
        (releaseTimeout now env (lapseStaleLeases boot now db)).db) ∨
    (db.run.state.supervised = true ∧ ∃ released,
      (releaseTimeout now env (lapseStaleLeases boot now db)).result = .ok released ∧ ∃ checked,
      checked = checkBackpressure now cfg (checkAutoAbort now env (passChecked boot now env db)) ∧
      (supervisorTick cfg boot now env db = checked.db ∨
        supervisorTick cfg boot now env db =
          maybeCompleteRun now (reapDraining now env checked.db))) := by
  unfold supervisorTick
  cases hs : db.run.state.supervised with
  | false =>
    refine .inl ⟨rfl, ?_⟩
    unfold reapTerminalFleet
    rw [if_neg (by simp)]
    split_ifs
    · split
      · exact .inl rfl
      · dsimp only
        split_ifs
        · exact .inl rfl
        · exact .inr rfl
    · exact .inl rfl
  | true =>
    rw [if_pos rfl]
    unfold superviseRun Outcome.andThen
    cases hr : (releaseTimeout now env (lapseStaleLeases boot now db)).result with
    | error e => exact .inr (.inl ⟨rfl, e, rfl, rfl⟩)
    | ok released =>
      refine .inr (.inr ⟨rfl, released, rfl, _, rfl, ?_⟩)
      unfold passChecked
      dsimp only
      split
      · exact .inl rfl
      · exact .inr rfl

end

end Stoker
