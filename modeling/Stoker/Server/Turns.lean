import Stoker.Server.Pass

/-!
# How a step moves the run

Every step of the system but five moves the run along its life cycle (`Run.Onward`) or leaves it
alone. The five are the operator's stop, pause and resume, and the two handlers that write back a
run row they loaded before: the end of a launch and the end of a ready post.
-/

namespace Stoker

open Relation

/-! ### Requests of workers -/

lemma recordHeartbeat_onward (now : Time) (hb : Heartbeat) (db : Db) :
    db.run.Onward (recordHeartbeat now hb db).1.run := by
  unfold recordHeartbeat
  cases db.findLease hb.slot with
  | none => exact .refl _
  | some lease =>
    dsimp only
    split_ifs with hh hc
    · exact .refl _
    · -- a lease crosses T0 only when T0 is set
      cases heartbeatCommand_answer now db.run hb.protocolVersion (renewLease now hb lease) with
      | release t0 _ ht =>
        have hstored : ∀ l, (storeHeartbeat now hb l db).run = db.run := by
          intro l
          unfold storeHeartbeat
          split_ifs <;> rfl
        unfold crossT0 maybeMarkRunning
        rw [Db.appendEvent_run, hstored]
        split_ifs with hs
        · refine .of_move ?_ (by simp [Run.pauseClock, hstored])
          have hmove : Move (.releasing, some t0) (.running, some t0) := .cross
          simpa [Run.stage, hs, ht, hstored] using hmove
        · rw [Db.appendEvent_run, hstored]
          exact .refl _
      | drain _ h | pause _ _ _ h | retarget _ _ _ _ h | continue_ _ _ _ _ h =>
        rw [h] at hc
        cases hc
    · unfold storeHeartbeat
      split_ifs <;> exact .refl _

variable {now : Time} {db db' : Db}

lemma recordFinal_onward {f : Final} (h : recordFinal now f db = .ok db') :
    db.run.Onward db'.run := by
  obtain ⟨lease, _, ⟨_, _, _, rfl⟩ | ⟨_, ⟨_, rfl⟩ | ⟨_, totals, _, rfl⟩⟩⟩ := recordFinal_ok h
  · exact .refl _
  · exact (Overseen.maybeComplete now (logFinal f db)).run
  · have hclose : db.run.Onward (closeFinal now f totals db).run := .of_eq rfl rfl
    exact hclose.trans (Overseen.maybeComplete now _).run

/-! ### The operator's requests -/

variable {env : Env}

/-- A stop that is not refused ends the pause and begins the drain; a forced one may go on to end
the run. -/
lemma stopRun_onward {force : Bool} (h : stopRun now force env db = .ok db') :
    db' = db ∨ (db.run.state.terminal = false ∧ ∃ r : Run, r.stage = (.draining, db.run.t0) ∧
      r.pauseClock = (endPause now db.run).pauseClock ∧ r.Onward db'.run) := by
  have hbegin : (beginStop now env db).run.stage = (.draining, db.run.t0) ∧
      (beginStop now env db).run.pauseClock = (endPause now db.run).pauseClock := by
    unfold beginStop
    exact ⟨by simp [Run.stage], by simp [Run.pauseClock]⟩
  rcases stopRun_ok h with ⟨_, rfl⟩ | ⟨ht, ⟨_, rfl⟩ | ⟨_, totals, _, rfl⟩⟩
  · exact .inl rfl
  · exact .inr ⟨ht, _, hbegin.1, hbegin.2, .refl _⟩
  · refine .inr ⟨ht, _, hbegin.1, hbegin.2, ?_⟩
    refine Run.Onward.trans ?_ (Overseen.maybeComplete now _).run
    refine .of_eq ?_ ?_ <;> simp [forceStop, Run.stage, Run.pauseClock]

lemma pauseRun_run (h : pauseRun now env db = .ok db') :
    db.run.state = .running ∧ db'.run.stage = (.paused, db.run.t0) ∧
      db'.run.pauseClock = (some now, db.run.pausedS) := by
  obtain ⟨hs, rfl⟩ := pauseRun_ok h
  exact ⟨hs, by simp [Run.stage], by simp [Run.pauseClock]⟩

lemma resumeRun_run (h : resumeRun now env db = .ok db') :
    db.run.state = .paused ∧ db'.run.stage = (.running, db.run.t0) ∧
      db'.run.pauseClock = (endPause now db.run).pauseClock := by
  obtain ⟨hs, rfl⟩ := resumeRun_ok h
  exact ⟨hs, by simp [Run.stage], by simp [Run.pauseClock]⟩

/-! ### Handlers that write back a loaded row -/

lemma finishReady_pauseClock (now : Time) (loaded : Run) (own : Lease) (db : Db) :
    (finishReady now loaded own db).run.pauseClock = db.run.pauseClock := by
  have hclock := (Overseen.evaluateRelease now false { db with
    run := loaded, leases := db.leases.map fun l => if l.id = own.id then own else l }).run.pauses
  simp only [Run.pauseClock, Prod.mk.injEq] at hclock ⊢
  simp [finishReady, Run.flush, hclock]

lemma finishLaunch_pauseClock (now : Time) (result : LaunchResult) (loaded : Run) (db : Db) :
    (finishLaunch now result loaded db).run.pauseClock = db.run.pauseClock := by
  cases result <;> simp [finishLaunch, Run.flush, Run.pauseClock]

/-! ### Steps -/

/-- The five steps that may take the run elsewhere than along its life cycle. -/
def Action.steers : Action → Bool
  | .launch .. | .release .. | .stop .. | .pause .. | .resume .. => true
  | _ => false

/-- How the stored rows come to follow those of a state, as far as the run is concerned. -/
inductive Sys.Turn (s : Sys) : Action → Db → Prop where
  | same {a : Action} : Turn s a s.db
  | onward {a : Action} {db : Db} (free : a.steers = false) (h : s.db.run.Onward db.run) :
      Turn s a db
  | launch {now : Time} {result : LaunchResult} {loaded : Run} (h : s.launching = some loaded) :
      Turn s (.launch now result) (finishLaunch now result loaded s.db)
  | release {now : Time} {i : ℕ} {loaded : Run} {own : Lease}
      (h : s.readying[i]? = some (loaded, own)) :
      Turn s (.release now i) (finishReady now loaded own s.db)
  | stop {now : Time} {force : Bool} {env : Env} {db : Db} {r : Run}
      (active : s.db.run.state.terminal = false) (stage : r.stage = (.draining, s.db.run.t0))
      (pauses : r.pauseClock = (endPause now s.db.run).pauseClock) (h : r.Onward db.run) :
      Turn s (.stop now force env) db
  | pause {now : Time} {env : Env} {db : Db} (running : s.db.run.state = .running)
      (stage : db.run.stage = (.paused, s.db.run.t0))
      (pauses : db.run.pauseClock = (some now, s.db.run.pausedS)) : Turn s (.pause now env) db
  | resume {now : Time} {env : Env} {db : Db} (paused : s.db.run.state = .paused)
      (stage : db.run.stage = (.running, s.db.run.t0))
      (pauses : db.run.pauseClock = (endPause now s.db.run).pauseClock) :
      Turn s (.resume now env) db

/-- How a step moves the run. -/
theorem Sys.step_turn (cfg : Settings) (a : Action) (s : Sys) : s.Turn a (Sys.step cfg a s).db := by
  have hstep := Sys.step_happens cfg a s
  generalize Sys.step cfg a s = t at hstep ⊢
  cases hstep with
  | idle => exact .same
  | launch hl => exact .launch hl
  | claim hc =>
    refine .onward rfl ?_
    rw [claimLease_run hc]
    exact .refl _
  | ready hm =>
    obtain ⟨_, _, _, _, hrun, _⟩ := markReady_ok hm
    refine .onward rfl ?_
    rw [hrun]
    exact .refl _
  | release hi => exact .release hi
  | heartbeat => exact .onward rfl (recordHeartbeat_onward _ _ s.db)
  | final h => exact .onward rfl (recordFinal_onward h)
  | stop h =>
    rcases stopRun_onward h with rfl | ⟨ht, r, hr, hp, ho⟩
    · exact .same
    · exact .stop ht hr hp ho
  | pause h =>
    obtain ⟨hs, hstage, hp⟩ := pauseRun_run h
    exact .pause hs hstage hp
  | resume h =>
    obtain ⟨hs, hstage, hp⟩ := resumeRun_run h
    exact .resume hs hstage hp
  | scale h =>
    obtain ⟨_, _, shares, _, rfl⟩ := scaleRunEndpoint_ok h
    exact .onward rfl (.of_eq rfl rfl)
  | rescale _ h => exact .onward rfl (Overseen.rescale h).run
  | tick => exact .onward rfl (supervisorTick_overseen cfg _ _ _ s.db).run
  | reconcile => exact .onward rfl (Overseen.reconcile _ _ s.db).run

end Stoker
