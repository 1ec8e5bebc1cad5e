import Stoker.Server.Turns

/-!
# Runs that delivered nothing

A run that ends by completion is ended by `maybe_complete_run`, on the rows a final, a forced stop
or a pass hands to it. The terminal state is chosen from the leases and the folded totals, so a run
that delivered nothing is failed; the reason is chosen only when none is recorded yet. A run that
drains because its duration is over, or for backpressure, therefore fails under that reason and not
as a run without events.
-/

namespace Stoker

open Transition

/-! ### What is handed to the completion -/

/-- The rows a step hands to `maybe_complete_run`. -/
inductive Sys.Completing (cfg : Settings) (s : Sys) : Action → Db → Prop where
  | logged {now : Time} {f : Final} (lease : Lease) (found : s.db.findLease f.slot = some lease)
      (holds : ∀ id, f.leaseId = some id → id = lease.leaseId) (done : lease.state = .done) :
      Completing cfg s (.final now f) (logFinal f s.db)
  | closed {now : Time} {f : Final} (lease : Lease) (totals : Totals)
      (found : s.db.findLease f.slot = some lease)
      (holds : ∀ id, f.leaseId = some id → id = lease.leaseId) (isOpen : lease.state ≠ .done)
      (folded : foldTotals s.db.run.totals f.summary = .ok totals) :
      Completing cfg s (.final now f) (closeFinal now f totals s.db)
  | forced {now : Time} {env : Env} {totals : Totals} (driver : env.driver = true)
      (active : s.db.run.state.terminal = false)
      (folded : foldHeartbeatTotals (driverCall now .destroy env.destroyOk
        (beginStop now env s.db)) =
        .ok totals) :
      Completing cfg s (.stop now true env) (forceStop now env totals s.db)
  | pass {boot now : Time} {env : Env} (supervised : s.db.run.state.supervised = true)
      {released : Bool}
      (release : (releaseTimeout now env (lapseStaleLeases boot now s.db)).result = .ok released)
      (backpressure : (checkBackpressure now cfg
        (checkAutoAbort now env (passChecked boot now env s.db))).result = .ok ()) :
      Completing cfg s (.tick boot now env) (reapDraining now env (checkBackpressure now cfg
        (checkAutoAbort now env (passChecked boot now env s.db))).db)

lemma not_fenced {lease : Lease} {leaseId : Option LeaseId}
    (h : ∀ id, leaseId = some id → id = lease.leaseId) :
    ¬ (leaseId.isSome = true ∧ isLeaseHolder (some lease) leaseId = false) := by
  rintro ⟨hsome, hno⟩
  obtain ⟨id, hid⟩ := Option.isSome_iff_exists.1 hsome
  rw [isLeaseHolder_some.2 (by rw [hid, h id hid])] at hno
  cases hno

variable {rows : Db} {cfg : Settings} {s : Sys} {a : Action} {run : Run} {leases : List Lease}

/-- Such a step ends with the completion of those rows. -/
lemma Sys.Completing.step_db (h : s.Completing cfg a rows) :
    (Sys.step cfg a s).db = maybeCompleteRun a.time rows := by
  cases h with
  | @logged now f lease found holds done =>
    change (s.commit (recordFinal now f s.db)).db = _
    unfold recordFinal
    rw [found]
    dsimp only
    rw [if_neg (not_fenced holds), if_pos done]
    rfl
  | @closed now f lease totals found holds isOpen folded =>
    change (s.commit (recordFinal now f s.db)).db = _
    unfold recordFinal
    rw [found]
    dsimp only
    rw [if_neg (not_fenced holds), if_neg isOpen, folded]
    rfl
  | @forced now env totals driver active folded =>
    change (s.commit (stopRunEndpoint now true env s.db)).db = _
    have hstop : stopRunEndpoint now true env s.db = stopRun now true env s.db := by
      simp [stopRunEndpoint, requireActive, requireDriver, active, driver, bind, Except.bind]
    have hrun : stopRun now true env s.db =
        .ok (maybeCompleteRun now (forceStop now env totals s.db)) := by
      have hfolded := folded
      unfold beginStop at hfolded
      unfold stopRun
      simp only [active, hfolded]
      rfl
    rw [hstop, hrun]
    rfl
  | @pass boot now env supervised released release backpressure =>
    change supervisorTick cfg boot now env s.db = _
    unfold supervisorTick superviseRun
    rw [if_pos supervised]
    unfold Outcome.andThen
    rw [release]
    dsimp only
    unfold passChecked at backpressure ⊢
    rw [backpressure]
    rfl

/-! ### State and reason -/

lemma maybeCompleteRun_ends {now : Time} (hopen : rows.run.state.terminal = false)
    (hend : (maybeCompleteRun now rows).run.state.terminal = true) :
    (maybeCompleteRun now rows).run.state =
        terminalStateFor rows.run rows.run.endReason rows.leases ∧
      (maybeCompleteRun now rows).run.endReason = some (rows.run.endReason.getD (defaultEndReason
        (terminalStateFor rows.run rows.run.endReason rows.leases) rows.leases rows.run)) := by
  rcases maybeCompleteRun_cases now rows with h | ⟨_, _, _, rfl, rfl, h | h⟩ <;> rw [h] at hend ⊢
  · exact absurd (hopen.symm.trans hend) (by decide)
  all_goals exact ⟨transitionRun_state _ _ _ _, transitionRun_endReason _ _ _ _⟩

lemma terminalStateFor_undelivered {reason : Option EndReason}
    (hstop : reason.any (·.stopping) = false) (hzero : deliveredEvents run = 0) :
    terminalStateFor run reason leases = .failed := by
  unfold terminalStateFor
  split_ifs with h₁ h₂ h₃
  · rfl
  · rw [hstop] at h₂
    cases h₂
  · rfl
  · rfl

lemma defaultEndReason_undelivered (hdone : ∃ l ∈ leases, l.state = .done)
    (hzero : deliveredEvents run = 0) : defaultEndReason .failed leases run = .noEvents := by
  have hany : leases.any (·.state = .done) = true := by simpa using hdone
  have hlost : allLost leases = false := by simp [allLost, hany]
  simp [defaultEndReason, hlost, hany, hzero]

/-- A run that ends by completion with a lease done, no delivery, and a recorded reason that is
neither an operator stop nor a failure, is shown as a run without events exactly if no reason was
recorded. -/
theorem undelivered_run_no_events_iff (hc : s.Completing cfg a rows)
    (hopen : rows.run.state.terminal = false)
    (hend : (Sys.step cfg a s).db.run.state.terminal = true)
    (hdone : ∃ l ∈ rows.leases, l.state = .done)
    (hstop : rows.run.endReason.any (·.stopping) = false)
    (hfail : rows.run.endReason.any (·.failing) = false) (hzero : deliveredEvents rows.run = 0) :
    ((Sys.step cfg a s).db.run.state = .failed ∧
      (Sys.step cfg a s).db.run.endReason = some .noEvents) ↔ rows.run.endReason = none := by
  rw [hc.step_db] at hend ⊢
  obtain ⟨hstate, hreason⟩ := maybeCompleteRun_ends hopen hend
  rw [terminalStateFor_undelivered hstop hzero] at hstate hreason
  rw [defaultEndReason_undelivered hdone hzero] at hreason
  rw [hstate, hreason]
  cases he : rows.run.endReason with
  | none => simp
  | some r =>
    rw [he] at hfail
    constructor
    · rintro ⟨_, hr⟩
      cases hr
      cases hfail
    · rintro ⟨⟩

/-- The worker of a plain run exits without having delivered anything, and the run fails for it. -/
theorem undelivered_run_no_events_plain :
    let s := exec (Sys.step {}) (Sys.start (plainDb 1))
      [.launch 1 swarmRun, .claim 2 "w0" none, .ready 3 0 (some 1),
        .release 4 0, .heartbeat 6 { slot := 0, leaseId := some 1 }]
    let a : Action := .final 9 { slot := 0, leaseId := some 1, summary := [] }
    (Sys.step {} a s).db.run.state = .failed ∧
      (Sys.step {} a s).db.run.endReason = some .noEvents := by
  intro s a
  have hc :
      s.Completing {} a (closeFinal 9 { slot := 0, leaseId := some 1, summary := [] } [] s.db) :=
    .closed (s.db.leases.head (by decide +kernel)) [] (by decide +kernel) (by decide +kernel)
      (by decide +kernel) (by decide +kernel)
  exact (undelivered_run_no_events_iff hc (by decide +kernel) (by decide +kernel)
    (by decide +kernel)
    (by decide +kernel) (by decide +kernel) (by decide +kernel)).2 (by decide +kernel)

/-- A run that lasts ten seconds after T0. -/
def timedSpec : Snapshot := { plainSpec 1 with durationS := some 10 }

/-- The rows of that run once its launch has been committed. -/
def timedDb : Db := provisionedDb 0 timedSpec [[(.eps, 12)]]

lemma provisionRun_timed : provisionRun 0 timedSpec = .ok timedDb := by
  have h : provisionRun 0 timedSpec =
      .ok (provisionedDb 0 timedSpec (List.replicate 1 [(.eps, 12 / ((1 : ℕ) : ℚ))])) :=
    provisionRun_paced 0 rfl rfl (by norm_num) rfl (by decide)
  rw [h]
  norm_num [timedDb]

/-- The run up to the pass that finds its duration over. -/
def timedUp : List Action :=
  [.launch 1 swarmRun, .claim 2 "w0" none, .ready 3 0 (some 1), .release 4 0,
    .heartbeat 6 { slot := 0, leaseId := some 1 }, .tick 0 17 {}]

/-- A final that reports no events. -/
def emptyFinal : Final := { slot := 0, leaseId := some 1, summary := [("events_total", .num 0)] }

/-- The run drains because its duration is over, and the worker's final reports no events: the run
fails as one whose duration is complete. -/
theorem undelivered_run_duration_complete :
    ¬ ∀ (cfg : Settings) (now₀ : Time) (spec : Snapshot) (db : Db) (as : List Action) (s : Sys)
      (a : Action) (rows : Db), provisionRun now₀ spec = .ok db →
      Runs (Sys.step cfg) Always (Sys.start db) as s → s.Completing cfg a rows →
      rows.run.state.terminal = false → (Sys.step cfg a s).db.run.state.terminal = true →
      (∃ l ∈ rows.leases, l.state = .done) → rows.run.endReason.any (·.stopping) = false →
      rows.run.endReason.any (·.failing) = false → deliveredEvents rows.run = 0 →
      (Sys.step cfg a s).db.run.state = .failed ∧
        (Sys.step cfg a s).db.run.endReason = some .noEvents := by
  intro h
  have hs := h {} 0 timedSpec timedDb timedUp _ (.final 18 emptyFinal) _ provisionRun_timed
    (Runs.always _ _)
    (.closed ((exec (Sys.step {}) (Sys.start timedDb) timedUp).db.leases.head (by decide +kernel))
      [("events_total", .num 0)] (by decide +kernel) (by decide +kernel) (by decide +kernel)
      (by decide +kernel))
  revert hs
  decide +kernel

end Stoker
