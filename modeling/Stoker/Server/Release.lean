import Stoker.Server.Transition

/-!
# Release and completion

`evaluate_release` sets T0 once every slot that may still ready has done so, or when the supervisor
forces it; `maybe_complete_run` ends a run whose leases are all resolved.

Code that works on loaded rows and may raise returns an `Outcome`: the rows as they are when it
returns or raises. A request handler that raises is rolled back, while the supervisor catches and
commits what was done before.
-/

namespace Stoker

/-- A request refused with an HTTP status. -/
structure HttpError where
  status : ℕ
  detail : String
  deriving DecidableEq

/-- What running some code did to the rows, and its result. -/
structure Outcome (α : Type) where
  db : Db
  result : Except String α

/-- Go on with the rows left behind, unless the code raised. -/
def Outcome.andThen {α β : Type} (o : Outcome α) (f : Db → Outcome β) : Outcome β :=
  match o.result with
  | .error e => ⟨o.db, .error e⟩
  | .ok _ => f o.db

/-! ### evaluate_release -/

def RunState.releasable : RunState → Bool
  | .provisioning | .preparing | .releasing => true
  | _ => false

/-- A slot that may still get ready. -/
def LeaseState.pending : LeaseState → Bool
  | .free | .claimed => true
  | _ => false

/-- A straggler of a forced release is declared lost. -/
def declareLost (l : Lease) : Lease :=
  if l.state.pending then { l with state := .lost } else l

/-- The stragglers are given up and the run goes on without them. -/
def declareStragglers (db : Db) : Db :=
  { db with leases := db.leases.map declareLost, run := { db.run with degraded := true } }

/-- Hand out the shares of a split over some slots, each worker being flagged to retarget. -/
def splitOver (slots : List ℕ) (shares : List PublicShare) (db : Db) : Db :=
  { db with
    leases := assignShares markRetarget slots shares db.leases
    hist := { db.hist with split := slots } }

/-- `_reapportion_ready`: split the run's rate over the ready slots only. -/
def reapportionReady (ready : List Lease) (db : Db) : Except String Db :=
  if ready.length < 1 then .ok db
  else
    match buildShareList db.run.snapshot.rateMode db.run.snapshot.rateValue ready.length with
    | .error e => .error e
    | .ok shares => .ok (splitOver (ready.map (·.slot)) shares db)

/-- Set T0 and move the run to `releasing`. -/
def setT0 (now : Time) (db : Db) : Db :=
  transitionRun now .releasing none
    { db with run := { db.run with t0 := some (now + releaseDelayS) } }

/-- `evaluate_release`. The result tells whether T0 was set by this call. -/
def evaluateRelease (now : Time) (forcePartial : Bool) (db : Db) : Outcome Bool :=
  let ready := db.leases.filter (·.state = .ready)
  let pending := db.leases.filter (·.state.pending)
  if db.run.t0.isSome then ⟨db, .ok false⟩
  else if db.run.state.releasable = false then ⟨db, .ok false⟩
  else if ready.isEmpty then ⟨db, .ok false⟩
  else if pending.isEmpty then ⟨setT0 now db, .ok true⟩
  else if forcePartial = false then ⟨db, .ok false⟩
  else if db.run.snapshot.strictRelease then
    ⟨transitionRun now .failed (some .strictReleaseTimeout) (db.mapLeases declareLost), .ok false⟩
  else
    match reapportionReady ready (declareStragglers db) with
    | .error e => ⟨declareStragglers db, .error e⟩
    | .ok db' =>
      ⟨setT0 now (db'.appendEvent now
        (.partialRelease (ready.map (·.slot)) (pending.map (·.slot)))), .ok true⟩

/-! ### maybe_complete_run -/

/-- `_FAILED_REASONS`. -/
def EndReason.failing : EndReason → Bool
  | .provisionFailed | .strictReleaseTimeout | .autoAbortLost | .autoAbortAuth | .allWorkersLost
  | .orphaned | .noEvents => true
  | _ => false

/-- `_STOPPED_REASONS`. -/
def EndReason.stopping : EndReason → Bool
  | .operatorStop => true
  | _ => false

/-- Every resolved lease was lost: some lease is lost and none is done. -/
def allLost (leases : List Lease) : Bool :=
  leases.any (·.state = .lost) && !leases.any (·.state = .done)

def terminalStateFor (run : Run) (reason : Option EndReason) (leases : List Lease) : RunState :=
  if reason.any (·.failing) then .failed
  else if reason.any (·.stopping) then .stopped
  else if allLost leases then .failed
  else if deliveredEvents run = 0 then .failed
  else .completed

def defaultEndReason (terminal : RunState) (leases : List Lease) (run : Run) : EndReason :=
  if terminal = .completed then .completed
  else if terminal = .stopped then .operatorStop
  else if allLost leases then .allWorkersLost
  else if leases.any (·.state = .done) = true ∧ deliveredEvents run = 0 then .noEvents
  else .failed

/-- The states completion applies to: released or winding down. -/
def RunState.completable : RunState → Bool
  | .running | .releasing | .paused | .draining => true
  | _ => false

/-- `maybe_complete_run`: end the run once no lease is live and one is resolved; a run that is not
draining also needs a lease that is done. -/
def maybeCompleteRun (now : Time) (db : Db) : Db :=
  if db.run.state.terminal then db
  else if db.run.state.completable = false then db
  else if db.leases.isEmpty then db
  else if db.leases.any (·.state.live) then db
  else if !db.leases.any (fun l => l.state = .done ∨ l.state = .lost) then db
  else if db.run.state ≠ .draining ∧ db.leases.any (·.state = .done) = false then db
  else
    let terminal := terminalStateFor db.run db.run.endReason db.leases
    let reason := db.run.endReason.getD (defaultEndReason terminal db.leases db.run)
    let db' := if reason = .noEvents then db.appendEvent now .noEvents else db
    transitionRun now terminal (some reason) db'

/-! ### Frames -/

lemma terminalStateFor_terminal (run : Run) (reason : Option EndReason) (leases : List Lease) :
    (terminalStateFor run reason leases).terminal = true := by
  unfold terminalStateFor
  split_ifs <;> rfl

section

variable (now : Time) (db : Db)

@[simp] lemma setT0_state : (setT0 now db).run.state = .releasing := by simp [setT0]
@[simp] lemma setT0_t0 : (setT0 now db).run.t0 = some (now + releaseDelayS) := by simp [setT0]
@[simp] lemma setT0_degraded : (setT0 now db).run.degraded = db.run.degraded := by simp [setT0]
@[simp] lemma setT0_snapshot : (setT0 now db).run.snapshot = db.run.snapshot := by simp [setT0]
@[simp] lemma setT0_leases : (setT0 now db).leases = db.leases := by simp [setT0]
@[simp] lemma setT0_nextId : (setT0 now db).nextId = db.nextId := by simp [setT0]
@[simp] lemma setT0_hist : (setT0 now db).hist = db.hist := by simp [setT0]

/-- Completion leaves the rows alone, or it ends the run; one without events is noted first. -/
lemma maybeCompleteRun_cases :
    maybeCompleteRun now db = db ∨ db.run.state.terminal = false ∧
      ∃ terminal reason, terminal = terminalStateFor db.run db.run.endReason db.leases ∧
        reason = db.run.endReason.getD (defaultEndReason terminal db.leases db.run) ∧
        (maybeCompleteRun now db = transitionRun now terminal (some reason) db ∨
          maybeCompleteRun now db =
            transitionRun now terminal (some reason) (db.appendEvent now .noEvents)) := by
  unfold maybeCompleteRun
  dsimp only
  split_ifs with h
  iterate 6 exact .inl rfl
  · exact .inr ⟨by simpa using h, _, _, rfl, rfl, .inr rfl⟩
  · exact .inr ⟨by simpa using h, _, _, rfl, rfl, .inl rfl⟩

@[simp] lemma maybeCompleteRun_degraded :
    (maybeCompleteRun now db).run.degraded = db.run.degraded := by
  rcases maybeCompleteRun_cases now db with h | ⟨_, _, _, _, _, h | h⟩ <;> simp [h]

@[simp] lemma maybeCompleteRun_snapshot :
    (maybeCompleteRun now db).run.snapshot = db.run.snapshot := by
  rcases maybeCompleteRun_cases now db with h | ⟨_, _, _, _, _, h | h⟩ <;> simp [h]

@[simp] lemma maybeCompleteRun_leases : (maybeCompleteRun now db).leases = db.leases := by
  rcases maybeCompleteRun_cases now db with h | ⟨_, _, _, _, _, h | h⟩ <;> simp [h]

end

def readySlots (leases : List Lease) : List ℕ :=
  (leases.filter (·.state = .ready)).map (·.slot)

/-- The rows of a partial release: the stragglers are lost, the rate is split over the ready slots,
and T0 is set. -/
def partialRelease (now : Time) (shares : List PublicShare) (db : Db) : Db :=
  setT0 now ((splitOver (readySlots db.leases) shares (declareStragglers db)).appendEvent now
    (.partialRelease (readySlots db.leases) ((db.leases.filter (·.state.pending)).map (·.slot))))

section

variable (now : Time) (shares : List PublicShare) (db : Db)

@[simp] lemma partialRelease_leases : (partialRelease now shares db).leases =
    assignShares markRetarget (readySlots db.leases) shares (db.leases.map declareLost) := by
  simp [partialRelease, splitOver, declareStragglers]

@[simp] lemma partialRelease_t0 :
    (partialRelease now shares db).run.t0 = some (now + releaseDelayS) := by simp [partialRelease]

@[simp] lemma partialRelease_snapshot :
    (partialRelease now shares db).run.snapshot = db.run.snapshot := by
  simp [partialRelease, splitOver, declareStragglers]

@[simp] lemma partialRelease_nextId : (partialRelease now shares db).nextId = db.nextId := by
  simp [partialRelease, splitOver, declareStragglers]

@[simp] lemma partialRelease_hist :
    (partialRelease now shares db).hist = { db.hist with split := readySlots db.leases } := by
  simp [partialRelease, splitOver, declareStragglers]

end

variable {ready : List Lease} {db : Db}

lemma reapportionReady_error {e : String} (h : reapportionReady ready db = .error e) :
    buildShareList db.run.snapshot.rateMode db.run.snapshot.rateValue ready.length = .error e := by
  unfold reapportionReady at h
  split_ifs at h
  split at h
  · cases h
    assumption
  · cases h

/-- A split over the ready slots rewrites their shares and records them as the split. -/
lemma reapportionReady_ok {db' : Db} (h : reapportionReady ready db = .ok db') (hne : ready ≠ []) :
    ∃ shares,
      buildShareList db.run.snapshot.rateMode db.run.snapshot.rateValue ready.length = .ok shares ∧
      db' = splitOver (ready.map (·.slot)) shares db := by
  unfold reapportionReady at h
  have hlen : ¬ ready.length < 1 := by simpa [Nat.lt_one_iff] using hne
  rw [if_neg hlen] at h
  cases hs : buildShareList db.run.snapshot.rateMode db.run.snapshot.rateValue ready.length with
  | error e =>
    rw [hs] at h
    cases h
  | ok shares =>
    rw [hs] at h
    cases h
    exact ⟨shares, rfl, rfl⟩

/-- What an evaluation can do: nothing; release every slot; fail a strict run; release the ready
slots only; or raise because the rate cannot be split. -/
lemma evaluateRelease_cases (now : Time) (force : Bool) (db : Db) :
    evaluateRelease now force db = ⟨db, .ok false⟩ ∨
    (db.run.t0 = none ∧ db.run.state.releasable = true ∧ (∃ l ∈ db.leases, l.state = .ready) ∧
      ((∀ l ∈ db.leases, l.state.pending = false) ∧
          evaluateRelease now force db = ⟨setT0 now db, .ok true⟩ ∨
       force = true ∧ (∃ l ∈ db.leases, l.state.pending = true) ∧
        (evaluateRelease now force db =
            ⟨transitionRun now .failed (some .strictReleaseTimeout) (db.mapLeases declareLost),
              .ok false⟩ ∨
         (∃ e, buildShareList db.run.snapshot.rateMode db.run.snapshot.rateValue
              (readySlots db.leases).length = .error e ∧
            evaluateRelease now force db = ⟨declareStragglers db, .error e⟩) ∨
         (∃ shares, buildShareList db.run.snapshot.rateMode db.run.snapshot.rateValue
              (readySlots db.leases).length = .ok shares ∧
            evaluateRelease now force db = ⟨partialRelease now shares db, .ok true⟩)))) := by
  unfold evaluateRelease
  by_cases h₁ : db.run.t0.isSome = true
  · rw [if_pos h₁]
    exact .inl rfl
  by_cases h₂ : db.run.state.releasable = false
  · rw [if_neg h₁, if_pos h₂]
    exact .inl rfl
  by_cases h₃ : (db.leases.filter (·.state = .ready)).isEmpty = true
  · rw [if_neg h₁, if_neg h₂, if_pos h₃]
    exact .inl rfl
  rw [if_neg h₁, if_neg h₂, if_neg h₃]
  have ht : db.run.t0 = none := by simpa using h₁
  have hr : ∃ l ∈ db.leases, l.state = .ready := by simpa using h₃
  refine or_iff_not_imp_left.mpr fun hne => ⟨ht, by simpa using h₂, hr, ?_⟩
  by_cases h₄ : (db.leases.filter (·.state.pending)).isEmpty = true
  · rw [if_pos h₄]
    exact .inl ⟨by simpa using h₄, rfl⟩
  rw [if_neg h₄] at hne ⊢
  by_cases h₅ : force = false
  · rw [if_pos h₅] at hne
    exact absurd rfl hne
  rw [if_neg h₅]
  refine .inr ⟨by simpa using h₅, by simpa using h₄, ?_⟩
  by_cases h₆ : db.run.snapshot.strictRelease = true
  · rw [if_pos h₆]
    exact .inl rfl
  rw [if_neg h₆]
  have hlen : (readySlots db.leases).length = (db.leases.filter (·.state = .ready)).length := by
    simp [readySlots]
  rw [hlen]
  cases hs : reapportionReady (db.leases.filter (·.state = .ready)) (declareStragglers db) with
  | error e =>
    have hb := reapportionReady_error hs
    exact .inr (.inl ⟨e, hb, rfl⟩)
  | ok db' =>
    obtain ⟨shares, hb, rfl⟩ := reapportionReady_ok hs (by simpa using h₃)
    exact .inr (.inr ⟨shares, hb, rfl⟩)

@[simp] lemma evaluateRelease_snapshot (now : Time) (force : Bool) (db : Db) :
    (evaluateRelease now force db).db.run.snapshot = db.run.snapshot := by
  rcases evaluateRelease_cases now force db with
    h | ⟨_, _, _, ⟨_, h⟩ | ⟨_, _, h | ⟨e, _, h⟩ | ⟨shares, _, h⟩⟩⟩ <;> simp [h, declareStragglers]

end Stoker
