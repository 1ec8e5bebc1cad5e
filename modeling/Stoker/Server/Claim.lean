import Stoker.Server.Release

/-!
# Claiming a lease

`claim_lease`: a worker asks for a slot and gets a lease with a fresh id. A slot can be claimed when
its lease is free or lost; a holder that already has a live lease gets that lease back.
-/

namespace Stoker

/-- A slot whose lease a claim may take. -/
def LeaseState.claimable : LeaseState → Bool
  | .free | .lost => true
  | _ => false

/-- `_next_claimable`: the hinted slot when it can be claimed, else the lowest one that can. -/
def nextClaimable (leases : List Lease) (hintSlot : Option ℕ) : Option Lease :=
  let claimable := leases.filter (·.state.claimable)
  match claimable.find? (fun l => some l.slot = hintSlot) with
  | some l => some l
  | none => minBySlot claimable

def heldLease (leases : List Lease) (holder : String) : Option Lease :=
  leases.find? fun l => l.holder = some holder ∧ l.state.live = true

/-- The new share of one participant of a takeover: the claimer's is written in place, every other
worker is flagged to retarget, and a share that already matches is left alone. -/
def takeoverShare (slot : ℕ) (share : PublicShare) (l : Lease) : Lease :=
  if publicShare l.share = share then l
  else if l.slot = slot then writeShare share l
  else markRetarget share l

/-- `_reapportion_on_takeover`: on a degraded run, split the rate over every live slot. A snapshot
that cannot be split is skipped. -/
def reapportionOnTakeover (now : Time) (slot : ℕ) (db : Db) : Db :=
  let participants := db.leases.filter (·.state.live)
  let slots := participants.map (·.slot)
  if db.run.state.terminal = true ∨ db.run.state = .draining then db
  else if db.run.degraded = false then db
  else if participants.isEmpty then db
  else
    match buildShareList db.run.snapshot.rateMode db.run.snapshot.rateValue participants.length with
    | .error _ => db
    | .ok shares =>
      let changed := ((participants.zip shares).filter fun p => publicShare p.1.share ≠ p.2).map
        (·.1.slot)
      let db' := { db with
        leases := assignShares (takeoverShare slot) slots shares db.leases
        hist := { db.hist with split := slots } }
      if changed.isEmpty then db' else db'.appendEvent now (.reapportioned slot slots changed)

/-- What a claim writes into the lease it takes. -/
def issueLease (now : Time) (holder : String) (leaseId : LeaseId) (t0 : Option Time) (l : Lease) :
    Lease :=
  { l with
    leaseId := leaseId
    restarts := if l.state = .lost then l.restarts + 1 else l.restarts
    share := if l.state = .lost then dropAssigned l.share else l.share
    effectiveT0 := if t0.isSome then some now else t0
    holder := some holder
    state := .claimed
    lastHeartbeatAt := some now }

/-- `claim_lease`. The result is the slot whose lease the holder now has. -/
def claimLease (now : Time) (holder : String) (hintSlot : Option ℕ) (db : Db) :
    Except HttpError (Db × ℕ) :=
  if db.run.state.terminal then .error ⟨409, "run is not accepting claims"⟩
  else
    match heldLease db.leases holder with
    | some held =>
      .ok ((db.updateLease held.slot fun l =>
        { l with lastHeartbeatAt := some now }).appendEvent now
        (.reclaim held.slot holder), held.slot)
    | none =>
      match nextClaimable db.leases hintSlot with
      | none => .error ⟨409, "no free lease available"⟩
      | some lease =>
        let takingOver := decide (lease.state = .lost)
        let reissue := db.run.t0.isSome
        let issued := { db.updateLease lease.slot (issueLease now holder db.nextId db.run.t0) with
          nextId := db.nextId + 1 }
        let shared := if takingOver && reissue then reapportionOnTakeover now lease.slot issued
          else issued
        .ok (shared.appendEvent now (.claim lease.slot holder reissue takingOver), lease.slot)

/-- The work slice a claim answers with, as far as the agent's control loop reads it. -/
structure Slice where
  slot : ℕ
  totalWorkers : ℕ
  leaseId : LeaseId
  engine : Engine
  share : PublicShare
  durationS : Option ℚ
  released : Bool
  effectiveT0 : Option Time
  deriving DecidableEq

def buildSlice (run : Run) (lease : Lease) : Slice where
  slot := lease.slot
  totalWorkers := if run.snapshot.workers = 0 then 1 else run.snapshot.workers
  leaseId := lease.leaseId
  engine := run.snapshot.engine
  share := publicShare lease.share
  durationS := run.snapshot.durationS.filter (· ≠ 0)
  released := run.t0.isSome
  effectiveT0 := lease.effectiveT0

end Stoker
