import Mathlib.Algebra.Order.Field.Rat
import Mathlib.Tactic

/-!
# The stored rows of a run

The tables a run lives in (`server/models.py`): its `runs` row, its `worker_leases` rows, its
`metric_samples` and its `run_events` audit trail. Only columns that some modelled function reads
or writes are kept. Instants and rates are exact rationals, in seconds and in events (or GB/day).

`History` is not a table. Its entries are history variables: the operations record in them what
the statements need to remember about the past, and no operation reads them.
-/

namespace Stoker

/-- An instant, or a length of time, in seconds. -/
abbrev Time := ℚ

/-- A generated lease id. Ids are handed out in order, so that none is generated twice. -/
abbrev LeaseId := ℕ

/-! ### States -/

inductive RunState where
  | pending | preparing | provisioning | releasing | running | paused
  | draining | completed | stopped | failed
  deriving DecidableEq

/-- `TERMINAL_STATES`. -/
def RunState.terminal : RunState → Bool
  | .completed | .stopped | .failed => true
  | _ => false

inductive LeaseState where
  | free | claimed | ready | running | lost | done
  deriving DecidableEq

/-- A worker holds the lease: claimed, ready or running. -/
def LeaseState.live : LeaseState → Bool
  | .claimed | .ready | .running => true
  | _ => false

inductive EndReason where
  | operatorStop | durationComplete | provisionFailed | strictReleaseTimeout | provisionTimeout
  | autoAbortLost | autoAbortAuth | allWorkersLost | orphaned | noEvents | backpressureDrain
  | completed | failed
  deriving DecidableEq

/-! ### Windows -/

/-- `RELEASE_DELAY_S`: T0 is this long after the release is decided. -/
def releaseDelayS : Time := 2

/-- `PROVISION_TIMEOUT_S`: a provisioning run with a ready slot is released after this long. -/
def provisionTimeoutS : Time := 120

/-- `LEASE_LAPSE_S`: a lease is lost after this long without a heartbeat. -/
def leaseLapseS : Time := 30

/-- `BOOT_GRACE_S`: no lease lapses this soon after the control plane started. -/
def bootGraceS : Time := 60

/-- `STOP_GRACE_S`: a draining fleet is destroyed after this long. -/
def stopGraceS : Time := 45

def autoAbortLostFraction : ℚ := 1 / 2

def autoAbortLostS : Time := 300

def terminalReapWindowS : Time := 3600

/-! ### Shares -/

inductive RateMode where
  | eps | perDayGb | countInterval
  deriving DecidableEq

inductive ShareKey where
  | eps | perDayGb | count
  deriving DecidableEq

def RateMode.key : RateMode → ShareKey
  | .eps => .eps
  | .perDayGb => .perDayGb
  | .countInterval => .count

/-- A share dictionary as it crosses the wire, in insertion order. -/
abbrev PublicShare := List (ShareKey × ℚ)

inductive Engine where
  | eventgen | rawreplay | metrics
  deriving DecidableEq

inductive EngineImpl where
  | firebox | python
  deriving DecidableEq

inductive Envelope where
  | hec | stoker
  deriving DecidableEq

/-- A lease's `share_json`: the public keys, and the private keys that start with an underscore
(`_retarget`, `_assigned_work`, `_assigned_reason`, `_engine_impl`, `_envelope`). -/
structure ShareJson where
  pub : PublicShare
  retarget : Bool := false
  assignedWork : Option ℤ := none
  assignedReason : Option String := none
  engineImpl : Option EngineImpl := none
  envelope : Option Envelope := none
  deriving DecidableEq

/-! ### Rows -/

inductive RotationScope where
  | pass | window
  deriving DecidableEq

structure Rotation where
  scope : RotationScope
  fields : List String
  deriving DecidableEq

/-- `runs.spec_snapshot_json`, as far as the lifecycle reads it. -/
structure Snapshot where
  engine : Engine
  rateMode : RateMode
  rateValue : Option ℚ
  workers : ℕ
  durationS : Option ℚ := none
  strictRelease : Bool := false
  rotation : Option Rotation := none
  backpressureOriginalRate : Option ℚ := none
  deriving DecidableEq

/-- The driver's handle on a launched fleet. -/
structure DriverRef where
  kind : String
  id : String
  deriving DecidableEq

/-- A value of a final summary, or of the folded totals. -/
inductive SummaryValue where
  | bool (b : Bool)
  | num (q : ℚ)
  | other (s : String)
  deriving DecidableEq

/-- A string-keyed dictionary, in insertion order. -/
abbrev Totals := List (String × SummaryValue)

structure Run where
  state : RunState
  snapshot : Snapshot
  degraded : Bool := false
  driverRef : Option DriverRef := none
  createdAt : Time
  t0 : Option Time := none
  endedAt : Option Time := none
  endReason : Option EndReason := none
  totals : Totals := []
  pausedAt : Option Time := none
  pausedS : Time := 0
  deriving DecidableEq

/-- A lease row; `id` is its primary key, drawn from the same counter as the lease ids. -/
structure Lease where
  id : ℕ
  slot : ℕ
  share : ShareJson
  leaseId : LeaseId
  holder : Option String := none
  state : LeaseState := .free
  lastHeartbeatAt : Option Time := none
  effectiveT0 : Option Time := none
  restarts : ℕ := 0
  finalLogTail : Option (List String) := none
  deriving DecidableEq

/-- The cumulative counters a heartbeat carries and a final summary folds. -/
structure Counters where
  eventsTotal : Option ℤ := none
  bytesTotal : Option ℤ := none
  hec2xx : Option ℤ := none
  hec4xx : Option ℤ := none
  hec5xx : Option ℤ := none
  hecTimeouts : Option ℤ := none
  retries : Option ℤ := none
  deriving DecidableEq

structure MetricSample where
  slot : ℕ
  ts : Time
  counters : Counters
  deriving DecidableEq

inductive DriverOp where
  | stop | destroy | scale | extendDeadline
  deriving DecidableEq

inductive DestroyReason where
  | provisionTimeout | autoAbortLost | autoAbortAuth | stopGrace | postCompletionReap
  deriving DecidableEq

/-- The kinds of `run_events`, each with the details that are read or shown. -/
inductive EventKind where
  | created (workers : ℕ)
  | state (old new : RunState) (endReason : Option EndReason)
  | driverError (op : DriverOp)
  | scaled (workers : ℕ) (mode : RateMode)
  | rescaled (mode : RateMode) (rate : Option ℚ)
  | leaseLost (slot : ℕ)
  | fleetDestroyed (why : DestroyReason)
  | claim (slot : ℕ) (holder : String) (reissue takeover : Bool)
  | reclaim (slot : ℕ) (holder : String)
  | reapportioned (slot : ℕ) (participants changed : List ℕ)
  | ready (slot : ℕ)
  | running (slot : ℕ)
  | hecAuthFailed (slot : ℕ)
  | final (slot : ℕ)
  | partialRelease (ready lost : List ℕ)
  | noEvents
  | backpressureDetected
  | backpressureCleared
  | backpressureStepDown (fromRate toRate : ℚ)
  | adopted
  deriving DecidableEq

structure RunEvent where
  ts : Time
  kind : EventKind
  deriving DecidableEq

/-- History variables: `split` holds the slots the rate was last split over, `silent` the lease ids
whose share was rewritten without a retarget marker because their lease was not live. -/
structure History where
  split : List ℕ := []
  silent : List LeaseId := []
  deriving DecidableEq

/-- Everything stored about one run. The lease rows are in slot order, as `get_run_leases` reads
them; `nextId` is the next lease id that will be generated. -/
structure Db where
  run : Run
  leases : List Lease
  samples : List MetricSample := []
  events : List RunEvent := []
  nextId : LeaseId := 0
  hist : History := {}
  deriving DecidableEq

namespace Db

def appendEvent (now : Time) (kind : EventKind) (db : Db) : Db :=
  { db with events := db.events ++ [⟨now, kind⟩] }

@[simp] lemma appendEvent_run (now : Time) (k : EventKind) (db : Db) :
    (db.appendEvent now k).run = db.run := rfl

@[simp] lemma appendEvent_leases (now : Time) (k : EventKind) (db : Db) :
    (db.appendEvent now k).leases = db.leases := rfl

@[simp] lemma appendEvent_samples (now : Time) (k : EventKind) (db : Db) :
    (db.appendEvent now k).samples = db.samples := rfl

@[simp] lemma appendEvent_nextId (now : Time) (k : EventKind) (db : Db) :
    (db.appendEvent now k).nextId = db.nextId := rfl

@[simp] lemma appendEvent_hist (now : Time) (k : EventKind) (db : Db) :
    (db.appendEvent now k).hist = db.hist := rfl

def findLease (slot : ℕ) (db : Db) : Option Lease :=
  db.leases.find? (·.slot = slot)

/-- Rewrite the lease rows one by one. -/
def mapLeases (f : Lease → Lease) (db : Db) : Db :=
  { db with leases := db.leases.map f }

/-- Rewrite the row of one slot. -/
def updateLease (slot : ℕ) (f : Lease → Lease) (db : Db) : Db :=
  db.mapLeases fun l => if l.slot = slot then f l else l

@[simp] lemma mapLeases_run (f : Lease → Lease) (db : Db) : (db.mapLeases f).run = db.run := rfl

@[simp] lemma mapLeases_leases (f : Lease → Lease) (db : Db) :
    (db.mapLeases f).leases = db.leases.map f := rfl

@[simp] lemma mapLeases_nextId (f : Lease → Lease) (db : Db) :
    (db.mapLeases f).nextId = db.nextId := rfl

@[simp] lemma mapLeases_hist (f : Lease → Lease) (db : Db) :
    (db.mapLeases f).hist = db.hist := rfl

@[simp] lemma updateLease_run (slot : ℕ) (f : Lease → Lease) (db : Db) :
    (db.updateLease slot f).run = db.run := rfl

@[simp] lemma updateLease_nextId (slot : ℕ) (f : Lease → Lease) (db : Db) :
    (db.updateLease slot f).nextId = db.nextId := rfl

@[simp] lemma updateLease_hist (slot : ℕ) (f : Lease → Lease) (db : Db) :
    (db.updateLease slot f).hist = db.hist := rfl

end Db

/-- `is_lease_holder`: the fencing check. -/
def isLeaseHolder (lease : Option Lease) (leaseId : Option LeaseId) : Bool :=
  match lease with
  | none => false
  | some l => some l.leaseId = leaseId

/-- `next_claimable`'s pick among equals: the row with the lowest slot, the first of them. -/
def minBySlot : List Lease → Option Lease
  | [] => none
  | l :: ls =>
    match minBySlot ls with
    | none => some l
    | some m => if m.slot < l.slot then some m else some l

end Stoker
