import Stoker.Server.Shares

/-!
# Run state, pauses and totals

`transition_run` with its bookkeeping, the pause clock, the folding of final summaries and the
totals the UI shows (`server/lifecycle.py`). Each function reads one instant `now`, the time of
the step it is part of.
-/

namespace Stoker

/-! ### transition_run -/

/-- `transition_run`: set the state and the end reason, stamp `ended_at` the first time the run
ends, and record the change unless nothing changed. -/
def transitionRun (now : Time) (new : RunState) (reason : Option EndReason) (db : Db) : Db :=
  let old := db.run.state
  let setReason := reason.isSome && decide (db.run.endReason ≠ reason)
  let stamp := new.terminal && db.run.endedAt.isNone
  if old ≠ new ∨ setReason = true ∨ stamp = true then
    { db with run := { db.run with
        state := new
        endReason := if setReason then reason else db.run.endReason
        endedAt := if stamp then some now else db.run.endedAt } }
      |>.appendEvent now (.state old new reason)
  else db

section

variable (now : Time) (new : RunState) (reason : Option EndReason) (db : Db)

@[simp] lemma transitionRun_state : (transitionRun now new reason db).run.state = new := by
  unfold transitionRun
  dsimp only
  by_cases h : db.run.state = new
  · split_ifs <;> simp [h]
  · rw [if_pos (.inl h)]
    rfl

@[simp] lemma transitionRun_t0 : (transitionRun now new reason db).run.t0 = db.run.t0 := by
  simp only [transitionRun]
  split_ifs <;> rfl

@[simp] lemma transitionRun_degraded :
    (transitionRun now new reason db).run.degraded = db.run.degraded := by
  simp only [transitionRun]
  split_ifs <;> rfl

@[simp] lemma transitionRun_snapshot :
    (transitionRun now new reason db).run.snapshot = db.run.snapshot := by
  simp only [transitionRun]
  split_ifs <;> rfl

@[simp] lemma transitionRun_leases : (transitionRun now new reason db).leases = db.leases := by
  simp only [transitionRun]
  split_ifs <;> rfl

@[simp] lemma transitionRun_nextId : (transitionRun now new reason db).nextId = db.nextId := by
  simp only [transitionRun]
  split_ifs <;> rfl

@[simp] lemma transitionRun_hist : (transitionRun now new reason db).hist = db.hist := by
  simp only [transitionRun]
  split_ifs <;> rfl

@[simp] lemma transitionRun_samples : (transitionRun now new reason db).samples = db.samples := by
  simp only [transitionRun]
  split_ifs <;> rfl

@[simp] lemma transitionRun_totals :
    (transitionRun now new reason db).run.totals = db.run.totals := by
  simp only [transitionRun]
  split_ifs <;> rfl

@[simp] lemma transitionRun_pausedAt :
    (transitionRun now new reason db).run.pausedAt = db.run.pausedAt := by
  simp only [transitionRun]
  split_ifs <;> rfl

@[simp] lemma transitionRun_pausedS :
    (transitionRun now new reason db).run.pausedS = db.run.pausedS := by
  simp only [transitionRun]
  split_ifs <;> rfl

lemma transitionRun_endReason :
    (transitionRun now new reason db).run.endReason = reason.or db.run.endReason := by
  unfold transitionRun
  dsimp only
  cases reason with
  | none => split_ifs <;> simp_all
  | some r =>
    by_cases hr : db.run.endReason = some r
    · split_ifs <;> simp [hr]
    · simp [hr]

lemma transitionRun_events :
    (transitionRun now new reason db).events = db.events ∨
      (transitionRun now new reason db).events =
        db.events ++ [⟨now, .state db.run.state new reason⟩] := by
  unfold transitionRun
  dsimp only
  split_ifs
  all_goals first
    | exact .inl rfl
    | exact .inr rfl

end

/-! ### The pause clock -/

/-- `paused_seconds`: the seconds spent paused, the pause under way included. -/
def pausedSeconds (now : Time) (run : Run) : Time :=
  match run.pausedAt with
  | none => run.pausedS
  | some since => run.pausedS + max 0 (now - since)

/-- `_end_pause`: bank the pause under way. -/
def endPause (now : Time) (run : Run) : Run :=
  match run.pausedAt with
  | none => run
  | some since => { run with pausedS := run.pausedS + max 0 (now - since), pausedAt := none }

section

variable (now : Time) (run : Run)

@[simp] lemma endPause_state : (endPause now run).state = run.state := by
  unfold endPause
  cases run.pausedAt <;> rfl

@[simp] lemma endPause_t0 : (endPause now run).t0 = run.t0 := by
  unfold endPause
  cases run.pausedAt <;> rfl

@[simp] lemma endPause_degraded : (endPause now run).degraded = run.degraded := by
  unfold endPause
  cases run.pausedAt <;> rfl

@[simp] lemma endPause_snapshot : (endPause now run).snapshot = run.snapshot := by
  unfold endPause
  cases run.pausedAt <;> rfl

end

/-! ### Totals -/

def Totals.get (key : String) (totals : Totals) : Option SummaryValue := totals.lookup key

def Totals.set (key : String) (value : SummaryValue) (totals : Totals) : Totals :=
  if totals.any (·.1 = key) then totals.map fun p => if p.1 = key then (key, value) else p
  else totals ++ [(key, value)]

/-- The number a stored value adds up as; a text does not. -/
def SummaryValue.number : SummaryValue → Option ℚ
  | .bool b => some (if b then 1 else 0)
  | .num q => some q
  | .other _ => none

/-- One key of `fold_totals`: numbers add up, everything else keeps the last writer. Adding a
number to a stored text raises. -/
def foldTotal (totals : Totals) (key : String) (value : SummaryValue) : Except String Totals :=
  match value with
  | .num q =>
    match totals.get key with
    | none => .ok (totals.set key (.num q))
    | some old =>
      match old.number with
      | none => .error "unsupported operand types for +"
      | some p => .ok (totals.set key (.num (p + q)))
  | v => .ok (totals.set key v)

def foldTotals : Totals → Totals → Except String Totals
  | totals, [] => .ok totals
  | totals, (key, value) :: summary =>
    match foldTotal totals key value with
    | .error e => .error e
    | .ok totals => foldTotals totals summary

def liveTotalKeys : List (String × (Counters → Option ℤ)) :=
  [("events_total", Counters.eventsTotal), ("bytes_total", Counters.bytesTotal),
   ("hec_2xx", Counters.hec2xx), ("hec_4xx", Counters.hec4xx), ("hec_5xx", Counters.hec5xx),
   ("hec_timeouts", Counters.hecTimeouts), ("retries", Counters.retries)]

/-- The newest sample of a slot: the latest timestamp, the first row with it. -/
def newestSample (slot : ℕ) (samples : List MetricSample) : Option MetricSample :=
  (samples.filter (·.slot = slot)).foldl
    (fun best s => match best with
      | none => some s
      | some b => if b.ts < s.ts then some s else some b) none

def addCounter (totals : Totals) (name : String) (value : Option ℤ) : Except String Totals :=
  match value with
  | none => .ok totals
  | some n => foldTotal totals name (.num n)

def addSample (totals : Totals) (sample : MetricSample) : Except String Totals :=
  liveTotalKeys.foldlM (fun t key => addCounter t key.1 (key.2 sample.counters)) totals

/-- `live_totals` for one run: the folded totals plus, for every slot whose lease is not done, the
counters of its newest heartbeat. -/
def liveTotals (db : Db) : Except String Totals :=
  (db.leases.filter (·.state ≠ .done)).foldlM
    (fun totals lease =>
      match newestSample lease.slot db.samples with
      | none => .ok totals
      | some sample => addSample totals sample)
    db.run.totals

/-- `_fold_heartbeat_totals`: fold the newest heartbeat counters of every slot that is not done. -/
def foldHeartbeatTotals (db : Db) : Except String Totals :=
  match liveTotals db with
  | .error e => .error e
  | .ok live =>
    .ok (liveTotalKeys.foldl
      (fun totals key => match live.get key.1 with
        | none => totals
        | some v => totals.set key.1 v)
      db.run.totals)

/-- `delivered_events`: the folded events as an integer, zero when absent or unreadable. -/
def deliveredEvents (run : Run) : ℤ :=
  match run.totals.get "events_total" with
  | some (.num q) => if 0 ≤ q then ⌊q⌋ else ⌈q⌉
  | some (.bool b) => if b then 1 else 0
  | some (.other s) => s.toInt?.getD 0
  | none => 0

end Stoker
