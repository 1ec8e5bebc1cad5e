import Stoker.Server.Heartbeat

/-!
# Operator requests

Stop, pause, resume, scale and rescale (`server/lifecycle.py`), with the checks their endpoints
make first (`server/routes/api.py`). A refused or failed request is rolled back: it leaves the
stored rows alone.
-/

namespace Stoker

/-- What the world outside the store answers during a step: whether the run's fleet driver can be
found, whether the calls on it succeed, and whether the per-worker ceiling admits the request. -/
structure Env where
  driver : Bool := true
  stopOk : Bool := true
  destroyOk : Bool := true
  scaleOk : Bool := true
  extendDeadline : Option Bool := none
  ceilingOk : Bool := true
  status : Option (ℤ × ℤ) := none
  deriving DecidableEq

/-- `_load_active_run`: an operation on a run that has ended is refused. -/
def requireActive (db : Db) : Except HttpError Unit :=
  if db.run.state.terminal then .error ⟨409, "run is already over"⟩ else .ok ()

/-- `_run_driver`. -/
def requireDriver (env : Env) : Except HttpError Unit :=
  if env.driver then .ok () else .error ⟨409, "run has no resolvable driver"⟩

def rejectIfPaused (db : Db) : Except HttpError Unit :=
  if db.run.state = .paused then .error ⟨409, "run_paused"⟩ else .ok ()

/-- A driver call on the launched fleet; a failure is recorded and the operation goes on. -/
def driverCall (now : Time) (op : DriverOp) (ok : Bool) (db : Db) : Db :=
  if db.run.driverRef.isSome = true ∧ ok = false then db.appendEvent now (.driverError op) else db

/-! ### Stop -/

/-- A forced stop finalises every lease: a live one is done, a free one is lost. -/
def forceFinal (l : Lease) : Lease :=
  if l.state.live then { l with state := .done }
  else if l.state = .free then { l with state := .lost }
  else l

def stopRun (now : Time) (force : Bool) (env : Env) (db : Db) : Except HttpError Db :=
  if db.run.state.terminal then .ok db
  else
    let draining := transitionRun now .draining (some .operatorStop)
      { db with run := endPause now db.run }
    let stopped := driverCall now .stop env.stopOk draining
    if force = false then .ok stopped
    else
      let destroyed := driverCall now .destroy env.destroyOk stopped
      match foldHeartbeatTotals destroyed with
      | .error e => .error ⟨500, e⟩
      | .ok totals =>
        .ok (maybeCompleteRun now
          ({ destroyed with run := { destroyed.run with totals := totals } }.mapLeases forceFinal))

def stopRunEndpoint (now : Time) (force : Bool) (env : Env) (db : Db) : Except HttpError Db := do
  requireActive db
  requireDriver env
  stopRun now force env db

/-! ### Pause and resume -/

/-- `_extend_driver_deadline`: a driver that cannot extend is skipped, a failure is recorded. -/
def extendDriverDeadline (now : Time) (env : Env) (db : Db) : Db :=
  match db.run.snapshot.durationS.filter (· ≠ 0), env.extendDeadline with
  | some _, some ok => driverCall now .extendDeadline (ok || !env.driver) db
  | _, _ => db

def pauseRun (now : Time) (env : Env) (db : Db) : Except HttpError Db :=
  if db.run.state ≠ .running then .error ⟨500, "only a running run can be paused"⟩
  else .ok (extendDriverDeadline now env (transitionRun now .paused none
    { db with run := { db.run with pausedAt := some now } }))

def pauseRunEndpoint (now : Time) (env : Env) (db : Db) : Except HttpError Db := do
  requireActive db
  if db.run.state ≠ .running then throw ⟨409, "not_running"⟩
  if db.run.snapshot.rateMode = .countInterval then throw ⟨409, "pause_unsupported"⟩
  pauseRun now env db

def resumeRun (now : Time) (env : Env) (db : Db) : Except HttpError Db :=
  if db.run.state ≠ .paused then .error ⟨500, "only a paused run can be resumed"⟩
  else .ok (extendDriverDeadline now env (transitionRun now .running none
    { db with run := endPause now db.run }))

def resumeRunEndpoint (now : Time) (env : Env) (db : Db) : Except HttpError Db := do
  requireActive db
  if db.run.state ≠ .paused then throw ⟨409, "not_paused"⟩
  resumeRun now env db

/-! ### Scale and rescale -/

def singleWorkerEngines : List Engine := [.rawreplay]

def effectiveWorkers (engine : Engine) (workers : ℕ) : ℕ :=
  if engine ∈ singleWorkerEngines then 1 else max 1 workers

/-- `rotation_pins_fleet`: the rotation that makes the worker count unchangeable. -/
def rotationPinsFleet (snap : Snapshot) : Option Rotation :=
  snap.rotation.filter (·.scope = .pass)

/-- The new share of one lease: a live worker is flagged to retarget, any other lease gets the bare
share. -/
def reshare (shares : List PublicShare) (l : Lease) : Lease :=
  match shares[l.slot]? with
  | none => l
  | some share =>
    if l.state.live then markRetarget share l else { l with share := ShareJson.ofPublic share }

/-- Write new shares into every lease row. -/
def reshareAll (shares : List PublicShare) (db : Db) : Db :=
  { db with
    leases := db.leases.map (reshare shares)
    hist := { split := db.leases.map (·.slot)
              silent := (db.leases.filter (!·.state.live)).map (·.leaseId) ++ db.hist.silent } }

/-- Add free leases for the new high slots, or delete the excess ones. -/
def resizeLeases (workers : ℕ) (db : Db) : Db :=
  let current := db.leases.length
  let added := (List.range (workers - current)).map fun i =>
    { id := db.nextId + i, slot := current + i, share := { pub := [] },
      leaseId := db.nextId + i : Lease }
  { db with
    leases := if current < workers then db.leases ++ added
      else db.leases.filter (·.slot < workers)
    nextId := db.nextId + (workers - current) }

/-- The worker count a pinned fleet is compared with: the snapshot's, else the leases'. -/
def knownWorkers (db : Db) (workers : ℕ) : ℕ :=
  if db.run.snapshot.workers ≠ 0 then db.run.snapshot.workers
  else if db.leases.length ≠ 0 then db.leases.length else workers

def scaleRun (now : Time) (workers : ℕ) (env : Env) (db : Db) : Except HttpError Db :=
  let snap := db.run.snapshot
  let workers' := effectiveWorkers snap.engine workers
  if workers < 1 then .error ⟨500, "workers must be >= 1"⟩
  else if db.run.state.terminal then .ok db
  else if (rotationPinsFleet snap).isSome = true ∧ workers' ≠ knownWorkers db workers' then
    .error ⟨500, "this run rotates identities per replay"⟩
  else if db.run.driverRef.isSome = true ∧ env.scaleOk = false then .error ⟨502, "scale_failed"⟩
  else
    match buildShareList snap.rateMode snap.rateValue workers' with
    | .error e => .error ⟨500, e⟩
    | .ok shares =>
      let shared := reshareAll shares (resizeLeases workers' db)
      .ok ({ shared with run := { db.run with snapshot := { snap with workers := workers' } } }
        |>.appendEvent now (.scaled workers' snap.rateMode))

def scaleRunEndpoint (now : Time) (workers : ℕ) (env : Env) (db : Db) : Except HttpError Db := do
  let snap := db.run.snapshot
  if workers < 1 then throw ⟨422, "workers must be >= 1"⟩
  requireActive db
  rejectIfPaused db
  if effectiveWorkers snap.engine workers ≠ workers then throw ⟨409, "replay_single_worker"⟩
  if (rotationPinsFleet snap).isSome = true ∧
      workers ≠ (if snap.workers ≠ 0 then snap.workers else workers) then
    throw ⟨409, "rotation_fixed_fleet"⟩
  if env.ceilingOk = false then throw ⟨422, "slice_exceeds_ceiling"⟩
  requireDriver env
  scaleRun now workers env db

def rescaleRun (now : Time) (rate : Option ℚ) (db : Db) : Except String Db :=
  let snap := db.run.snapshot
  if db.run.state.terminal then .ok db
  else if db.leases.length < 1 then .ok db
  else
    match buildShareList snap.rateMode rate db.leases.length with
    | .error e => .error e
    | .ok shares =>
      .ok ({ reshareAll shares db with
          run := { db.run with snapshot := { snap with rateValue := rate } } }
        |>.appendEvent now (.rescaled snap.rateMode rate))

def rescaleRunEndpoint (now : Time) (rate : ℚ) (env : Env) (db : Db) : Except HttpError Db := do
  requireActive db
  rejectIfPaused db
  if rate ≤ 0 then throw ⟨422, "rate_value must be > 0"⟩
  if env.ceilingOk = false then throw ⟨422, "slice_exceeds_ceiling"⟩
  requireDriver env
  match rescaleRun now (some rate) db with
  | .error e => throw ⟨500, e⟩
  | .ok db' => return db'

end Stoker
