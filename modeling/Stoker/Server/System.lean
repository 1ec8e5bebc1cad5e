import Stoker.Server.Supervisor
import Stoker.Transition.Runs

/-!
# A run as a transition system

Everything that can happen to the stored rows of one run, as separately committed steps. Most
requests are one transaction. Two are not: a launch commits the run row before it calls the driver,
and a ready post commits the ready mark before it evaluates the release. Each goes on, after its
commit, with the objects it loaded before (`expire_on_commit` is off), and then writes back only the
columns it changed. What such a handler still holds is part of the system's state, so that any other
step may come in between.

The answers sent to workers are logged in order.
-/

open List

namespace Stoker

/-! ### Writing back loaded objects -/

/-- A column written back: the stored value stays unless the handler changed the loaded one. -/
def flushColumn {α : Type} [DecidableEq α] (stored loaded new : α) : α :=
  if new = loaded then stored else new

/-- The flush of a run row: only changed columns are written. -/
def Run.flush (stored loaded new : Run) : Run where
  state := flushColumn stored.state loaded.state new.state
  snapshot := flushColumn stored.snapshot loaded.snapshot new.snapshot
  degraded := flushColumn stored.degraded loaded.degraded new.degraded
  driverRef := flushColumn stored.driverRef loaded.driverRef new.driverRef
  createdAt := flushColumn stored.createdAt loaded.createdAt new.createdAt
  t0 := flushColumn stored.t0 loaded.t0 new.t0
  endedAt := flushColumn stored.endedAt loaded.endedAt new.endedAt
  endReason := flushColumn stored.endReason loaded.endReason new.endReason
  totals := flushColumn stored.totals loaded.totals new.totals
  pausedAt := flushColumn stored.pausedAt loaded.pausedAt new.pausedAt
  pausedS := flushColumn stored.pausedS loaded.pausedS new.pausedS

/-! ### Launch -/

/-- `_validate_rate`, the check a spec passed when it was saved. -/
def validateRate (mode : RateMode) (rate : Option ℚ) : Except HttpError Unit :=
  if mode = .countInterval then .ok ()
  else
    match rate with
    | some r => if r ≤ 0 then .error ⟨422, "mode requires rate_value > 0"⟩ else .ok ()
    | none => .error ⟨422, "mode requires rate_value > 0"⟩

def seedLeases (shares : List PublicShare) : List Lease :=
  shares.mapIdx fun i share =>
    { id := i, slot := i, share := ShareJson.ofPublic share, leaseId := i }

/-- The leases are numbered as they are seeded. -/
lemma map_seedLeases {α : Type*} {f : Lease → α} {g : ℕ → α}
    (h : ∀ i share, f { id := i, slot := i, share := share, leaseId := i } = g i)
    (shares : List PublicShare) : (seedLeases shares).map f = (range shares.length).map g := by
  refine ext_getElem (by simp [seedLeases]) fun i _ _ => ?_
  simp [seedLeases, h]

lemma slots_seedLeases (shares : List PublicShare) :
    (seedLeases shares).map (·.slot) = range shares.length := by
  rw [map_seedLeases (g := id) (fun _ _ => rfl), map_id]

/-- `provision_run` up to its first commit: the run row, still `preparing`, and its free leases. -/
def provisionRun (now : Time) (spec : Snapshot) : Except HttpError Db := do
  validateRate spec.rateMode spec.rateValue
  let workers := effectiveWorkers spec.engine spec.workers
  let run : Run := { state := .pending, createdAt := now
                     snapshot := { spec with workers := workers } }
  let created := ({ run := run, leases := [] : Db }).appendEvent now (.created workers)
  let preparing := transitionRun now .preparing none created
  match buildShareList spec.rateMode spec.rateValue workers with
  | .error e => throw ⟨500, e⟩
  | .ok shares =>
    return { preparing with
      leases := seedLeases shares
      nextId := shares.length
      hist := { split := range shares.length } }

/-- The rows of a freshly provisioned run. -/
def provisionedDb (now : Time) (spec : Snapshot) (shares : List PublicShare) : Db where
  run := { state := .preparing, createdAt := now
           snapshot := { spec with workers := effectiveWorkers spec.engine spec.workers } }
  leases := seedLeases shares
  events := [⟨now, .created (effectiveWorkers spec.engine spec.workers)⟩,
    ⟨now, .state .pending .preparing none⟩]
  nextId := shares.length
  hist := { split := range shares.length }

variable {spec : Snapshot}

lemma provisionRun_ok {now : Time} {db : Db} (h : provisionRun now spec = .ok db) :
    validateRate spec.rateMode spec.rateValue = .ok () ∧ ∃ shares,
      buildShareList spec.rateMode spec.rateValue (effectiveWorkers spec.engine spec.workers) =
        .ok shares ∧
      db = provisionedDb now spec shares := by
  unfold provisionRun at h
  cases hv : validateRate spec.rateMode spec.rateValue with
  | error e =>
    rw [hv] at h
    cases h
  | ok _ =>
    rw [hv] at h
    refine ⟨rfl, ?_⟩
    cases hs : buildShareList spec.rateMode spec.rateValue
        (effectiveWorkers spec.engine spec.workers) with
    | error e =>
      simp only [hs, bind, Except.bind] at h
      cases h
    | ok shares =>
      simp only [hs, bind, Except.bind] at h
      cases h
      exact ⟨shares, rfl, rfl⟩

/-- A launch at a positive rate is committed, with the rate split evenly. -/
lemma provisionRun_paced (now : Time) {rate : ℚ} {n : ℕ} (hm : spec.rateMode.paced = true)
    (hr : spec.rateValue = some rate) (hpos : 0 < rate)
    (hn : effectiveWorkers spec.engine spec.workers = n) (hn' : 0 < n) :
    provisionRun now spec =
      .ok (provisionedDb now spec (replicate n [(spec.rateMode.key, rate / n)])) := by
  have hmode : spec.rateMode ≠ .countInterval := by
    intro h
    rw [h] at hm
    cases hm
  have hv : validateRate spec.rateMode spec.rateValue = .ok () := by
    simp [validateRate, hr, hmode, not_le.2 hpos]
  have hs : buildShareList spec.rateMode spec.rateValue
      (effectiveWorkers spec.engine spec.workers) =
      .ok (replicate n [(spec.rateMode.key, rate / n)]) := by
    rw [hr, hn]
    exact buildShareList_rate hm hpos hn'
  unfold provisionRun
  rw [hv]
  simp only [hs]
  rfl

/-- What the driver's `create` did: launched the fleet, failed with a driver error, or raised
something else, which rolls the rest of the launch back. -/
inductive LaunchResult where
  | launched (ref : DriverRef)
  | driverError
  | crashed
  deriving DecidableEq

/-- `provision_run` after the driver call, on the run row loaded before it. -/
def finishLaunch (now : Time) (result : LaunchResult) (loaded : Run) (db : Db) : Db :=
  let view := { db with run := loaded }
  let done := match result with
    | .launched ref =>
      transitionRun now .provisioning none
        { view with run := { loaded with driverRef := some ref } }
    | .driverError => transitionRun now .failed (some .provisionFailed) view
    | .crashed => view
  { done with run := Run.flush db.run loaded done.run }

/-! ### The rest of a ready post -/

/-- `mark_ready` after its commit: the release is evaluated on the run row and the own lease loaded
before, and on the other leases as they are now stored. -/
def finishReady (now : Time) (loaded : Run) (own : Lease) (db : Db) : Db :=
  let view := { db with
    run := loaded
    leases := db.leases.map fun l => if l.id = own.id then own else l }
  let done := (evaluateRelease now false view).db
  { done with run := Run.flush db.run loaded done.run, leases := db.leases }

/-! ### The system -/

/-- An answer sent to a worker. -/
inductive Answer where
  | slice (holder : String) (slice : Slice)
  | reply (slot : ℕ) (leaseId : Option LeaseId) (reply : Reply)
  deriving DecidableEq

structure Sys where
  db : Db
  launching : Option Run
  readying : List (Run × Lease) := []
  sent : List Answer := []
  deriving DecidableEq

inductive Action where
  | launch (now : Time) (result : LaunchResult)
  | claim (now : Time) (holder : String) (hintSlot : Option ℕ)
  | ready (now : Time) (slot : ℕ) (leaseId : Option LeaseId)
  | release (now : Time) (handler : ℕ)
  | heartbeat (now : Time) (hb : Heartbeat)
  | final (now : Time) (f : Final)
  | stop (now : Time) (force : Bool) (env : Env)
  | pause (now : Time) (env : Env)
  | resume (now : Time) (env : Env)
  | scale (now : Time) (workers : ℕ) (env : Env)
  | rescale (now : Time) (rate : ℚ) (env : Env)
  | tick (boot now : Time) (env : Env)
  | reconcile (now : Time) (env : Env)
  deriving DecidableEq

def Action.time : Action → Time
  | .launch now _ | .claim now _ _ | .ready now _ _ | .release now _ | .heartbeat now _
  | .final now _ | .stop now _ _ | .pause now _ | .resume now _ | .scale now _ _ | .rescale now _ _
  | .tick _ now _ | .reconcile now _ => now

namespace Sys

/-- The start: the row of a launch is committed, its workload is not created yet. -/
def start (db : Db) : Sys := { db := db, launching := some db.run }

/-- Commit what a request did; a refused or failed one is rolled back. -/
def commit (s : Sys) : Except HttpError Db → Sys
  | .error _ => s
  | .ok db => { s with db := db }

def claim (now : Time) (holder : String) (hintSlot : Option ℕ) (s : Sys) : Sys :=
  match claimLease now holder hintSlot s.db with
  | .error _ => s
  | .ok (db, slot) =>
    match db.findLease slot with
    | none => s
    | some lease =>
      { s with db := db, sent := s.sent ++ [.slice holder (buildSlice db.run lease)] }

def ready (now : Time) (slot : ℕ) (leaseId : Option LeaseId) (s : Sys) : Sys :=
  match markReady now slot leaseId s.db with
  | .error _ => s
  | .ok db =>
    match db.findLease slot with
    | none => s
    | some own => { s with db := db, readying := s.readying ++ [(s.db.run, own)] }

def release (now : Time) (handler : ℕ) (s : Sys) : Sys :=
  match s.readying[handler]? with
  | none => s
  | some (loaded, own) =>
    { s with db := finishReady now loaded own s.db, readying := s.readying.eraseIdx handler }

def heartbeat (now : Time) (hb : Heartbeat) (s : Sys) : Sys :=
  let (db, reply) := recordHeartbeat now hb s.db
  { s with db := db, sent := s.sent ++ [.reply hb.slot hb.leaseId reply] }

def launch (now : Time) (result : LaunchResult) (s : Sys) : Sys :=
  match s.launching with
  | none => s
  | some loaded => { s with db := finishLaunch now result loaded s.db, launching := none }

def step (cfg : Settings) (a : Action) (s : Sys) : Sys :=
  match a with
  | .launch now result => s.launch now result
  | .claim now holder hint => s.claim now holder hint
  | .ready now slot leaseId => s.ready now slot leaseId
  | .release now handler => s.release now handler
  | .heartbeat now hb => s.heartbeat now hb
  | .final now f => s.commit (recordFinal now f s.db)
  | .stop now force env => s.commit (stopRunEndpoint now force env s.db)
  | .pause now env => s.commit (pauseRunEndpoint now env s.db)
  | .resume now env => s.commit (resumeRunEndpoint now env s.db)
  | .scale now workers env => s.commit (scaleRunEndpoint now workers env s.db)
  | .rescale now rate env => s.commit (rescaleRunEndpoint now rate env s.db)
  | .tick boot now env => { s with db := supervisorTick cfg boot now env s.db }
  | .reconcile now env => { s with db := reconcileOnBoot now env s.db }

end Sys

/-! ### A plain run -/

/-- An eventgen run at twelve events per second. -/
def plainSpec (workers : ℕ) : Snapshot :=
  { engine := .eventgen, rateMode := .eps, rateValue := some 12, workers := workers }

/-- The rows of a plain run once its launch has been committed. -/
def plainDb (workers : ℕ) : Db :=
  provisionedDb 0 (plainSpec workers) (replicate workers [(.eps, 12 / workers)])

def swarmRun : LaunchResult := .launched ⟨"swarm", "run-1"⟩

lemma provisionRun_plain {workers : ℕ} (h : 0 < workers) :
    provisionRun 0 (plainSpec workers) = .ok (plainDb workers) :=
  provisionRun_paced 0 rfl rfl (by norm_num)
    (by simp [effectiveWorkers, plainSpec, singleWorkerEngines]; omega) h

end Stoker
