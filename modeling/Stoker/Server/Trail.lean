import Stoker.Server.Turns

/-!
# What the steps write to the audit trail

Every step adds events to the end of the trail, stamped with its own instant. HEC auth failures are
written by heartbeats, for slots of the fleet; what the backpressure check records is written by the
supervisor's pass; everything else is routine.
-/

namespace Stoker

/-- The kinds of events a step may write. -/
def Action.MayLog (a : Action) (db : Db) (k : EventKind) : Prop :=
  match a with
  | .heartbeat _ _ =>
    k.backpressure = false ∧ ∀ slot, k.authSlot = some slot → ∃ l ∈ db.leases, l.slot = slot
  | .tick _ _ _ => k.NoAuth
  | _ => k.Routine

namespace Logs

variable {now : Time} {db db' : Db}

lemma takeover (now : Time) (slot : ℕ) (db : Db) :
    Logs EventKind.Routine now db (reapportionOnTakeover now slot db) := by
  rcases reapportionOnTakeover_eq now slot db with h | ⟨_, _, es, _, hes, h⟩ <;> rw [h]
  · exact refl now db
  · refine ⟨es, rfl, fun e he => ?_⟩
    obtain ⟨_, _, rfl⟩ := hes e he
    exact ⟨rfl, rfl, rfl⟩

variable {slot : ℕ}

lemma claim {holder : String} {hint : Option ℕ}
    (h : claimLease now holder hint db = .ok (db', slot)) : Logs EventKind.Routine now db db' := by
  obtain ⟨_, ⟨held, _, _, _, _, rfl⟩ | ⟨lease, _, _, _, rfl⟩⟩ := claimLease_ok h
  · exact appendEvent ⟨rfl, rfl⟩ _
  · have hissued : Logs EventKind.Routine now db (issuedDb now holder slot db) := of_eq rfl
    refine Logs.trans ?_ (appendEvent ⟨rfl, rfl⟩ _)
    split_ifs
    · exact hissued.trans (takeover now slot _)
    · exact hissued

lemma ready {leaseId : Option LeaseId} (h : markReady now slot leaseId db = .ok db') :
    Logs EventKind.Routine now db db' := by
  unfold markReady at h
  cases hl : db.findLease slot with
  | none =>
    rw [hl] at h
    cases h
  | some lease =>
    rw [hl] at h
    dsimp only at h
    split_ifs at h <;> cases h
    · exact appendEvent ⟨rfl, rfl⟩ _
    · exact of_eq rfl

lemma finishReady (now : Time) (loaded : Run) (own : Lease) (db : Db) :
    Logs EventKind.Routine now db (finishReady now loaded own db) :=
  (Overseen.evaluateRelease now false { db with
    run := loaded, leases := db.leases.map fun l => if l.id = own.id then own else l }).events

lemma finishLaunch (now : Time) (result : LaunchResult) (loaded : Run) (db : Db) :
    Logs EventKind.Routine now db (finishLaunch now result loaded db) := by
  cases result with
  | launched ref =>
    exact Logs.transition now { db with run := { loaded with driverRef := some ref } }
      (.state (by simp))
  | driverError => exact Logs.transition now { db with run := loaded } (.state (by simp))
  | crashed => exact of_eq rfl

lemma crossT0 (now : Time) (slot : ℕ) (db : Db) :
    Logs EventKind.Routine now db (crossT0 now slot db) := by
  unfold Stoker.crossT0 maybeMarkRunning
  refine (appendEvent (k := .running slot) ⟨rfl, rfl⟩ _).trans ?_
  split_ifs
  · exact Logs.transition now _ (.state (by simp))
  · exact refl now _

lemma heartbeat (now : Time) (hb : Heartbeat) (db : Db) :
    Logs (Action.MayLog (.heartbeat now hb) db) now db (recordHeartbeat now hb db).1 := by
  have hroutine : ∀ k : EventKind, k.Routine → Action.MayLog (.heartbeat now hb) db k := by
    intro k hk
    refine ⟨hk.2, fun slot hs => ?_⟩
    rw [hk.1] at hs
    cases hs
  unfold recordHeartbeat
  cases hl : db.findLease hb.slot with
  | none => exact refl now db
  | some lease =>
    dsimp only
    have hstored : ∀ l, Logs (Action.MayLog (.heartbeat now hb) db) now db
        (storeHeartbeat now hb l db) := by
      intro l
      unfold storeHeartbeat
      split_ifs
      · refine appendEvent ⟨rfl, ?_⟩ _
        rintro slot ⟨⟩
        exact ⟨lease, findLease_some hl⟩
      · exact of_eq rfl
    split_ifs
    · exact refl now db
    · exact (hstored _).trans ((crossT0 now hb.slot _).mono hroutine)
    · exact hstored _

lemma driverCall (op : DriverOp) (ok : Bool) (db : Db) :
    Logs EventKind.Routine now db (driverCall now op ok db) := by
  unfold Stoker.driverCall
  split_ifs
  · exact appendEvent ⟨rfl, rfl⟩ db
  · exact refl now db

lemma extendDriverDeadline (env : Env) (db : Db) :
    Logs EventKind.Routine now db (extendDriverDeadline now env db) := by
  unfold Stoker.extendDriverDeadline
  split
  · exact driverCall _ _ db
  · exact refl now db

lemma final {f : Final} (h : recordFinal now f db = .ok db') :
    Logs EventKind.Routine now db db' := by
  obtain ⟨lease, _, ⟨_, _, _, rfl⟩ | ⟨_, ⟨_, rfl⟩ | ⟨_, totals, _, rfl⟩⟩⟩ := recordFinal_ok h
  · exact refl now _
  · have hlog : Logs EventKind.Routine now db (logFinal f db) := of_eq rfl
    exact hlog.trans (Overseen.maybeComplete now _).events
  · have hclose : Logs EventKind.Routine now db (closeFinal now f totals db) :=
      (appendEvent (k := .final f.slot) ⟨rfl, rfl⟩ db).trans (of_eq rfl)
    exact hclose.trans (Overseen.maybeComplete now _).events

lemma beginStop (env : Env) (db : Db) : Logs EventKind.Routine now db (beginStop now env db) := by
  have hend : Logs EventKind.Routine now db { db with run := endPause now db.run } := of_eq rfl
  exact (hend.trans (Logs.transition now _ (.state (by simp)))).trans (driverCall _ _ _)

variable {env : Env}

lemma stop {force : Bool} (h : stopRun now force env db = .ok db') :
    Logs EventKind.Routine now db db' := by
  rcases stopRun_ok h with ⟨_, rfl⟩ | ⟨_, ⟨_, rfl⟩ | ⟨_, totals, _, rfl⟩⟩
  · exact refl now _
  · exact beginStop env db
  · have hforce : Logs EventKind.Routine now db (forceStop now env totals db) :=
      ((beginStop env db).trans (driverCall .destroy env.destroyOk _)).trans (of_eq rfl)
    exact hforce.trans (Overseen.maybeComplete now _).events

lemma pause (h : pauseRun now env db = .ok db') : Logs EventKind.Routine now db db' := by
  obtain ⟨_, rfl⟩ := pauseRun_ok h
  have hset : Logs EventKind.Routine now db
      { db with run := { db.run with pausedAt := some now } } := of_eq rfl
  exact (hset.trans (Logs.transition now _ (.state (by simp)))).trans (extendDriverDeadline env _)

lemma resume (h : resumeRun now env db = .ok db') : Logs EventKind.Routine now db db' := by
  obtain ⟨_, rfl⟩ := resumeRun_ok h
  have hend : Logs EventKind.Routine now db { db with run := endPause now db.run } := of_eq rfl
  exact (hend.trans (Logs.transition now _ (.state (by simp)))).trans (extendDriverDeadline env _)

lemma scale {workers : ℕ} (h : scaleRunEndpoint now workers env db = .ok db') :
    Logs EventKind.Routine now db db' := by
  obtain ⟨_, _, shares, _, rfl⟩ := scaleRunEndpoint_ok h
  exact (appendEvent (k := .scaled workers db.run.snapshot.rateMode) ⟨rfl, rfl⟩ db).trans
    (of_eq rfl)

end Logs

theorem Sys.step_logs (cfg : Settings) (a : Action) (s : Sys) :
    Logs (a.MayLog s.db) a.time s.db (Sys.step cfg a s).db := by
  have hstep := Sys.step_happens cfg a s
  generalize Sys.step cfg a s = t at hstep ⊢
  cases hstep with
  | idle => exact .refl _ _
  | launch => exact .finishLaunch _ _ _ s.db
  | claim h => exact .claim h
  | ready h => exact .ready h
  | release => exact .finishReady _ _ _ s.db
  | heartbeat => exact .heartbeat _ _ s.db
  | final h => exact .final h
  | stop h => exact .stop h
  | pause h => exact .pause h
  | resume h => exact .resume h
  | scale h => exact .scale h
  | rescale _ h => exact (Overseen.rescale h).events
  | tick => exact (supervisorTick_overseen cfg _ _ _ s.db).events
  | reconcile => exact (Overseen.reconcile _ _ s.db).events

/-- The events are what an action may have written: each has its instant, HEC auth failures are a
heartbeat's and what the backpressure check records is a supervisor pass's. -/
def Action.Signs (a : Action) (es : List RunEvent) : Prop :=
  ∀ e ∈ es, e.ts = a.time ∧ (e.kind.authSlot ≠ none → ∃ now hb, a = .heartbeat now hb) ∧
    (e.kind.backpressure = true → ∃ boot now env, a = .tick boot now env)

lemma Action.MayLog.signed {a : Action} {db : Db} {k : EventKind} (h : a.MayLog db k) :
    (k.authSlot ≠ none → ∃ now hb, a = .heartbeat now hb) ∧
      (k.backpressure = true → ∃ boot now env, a = .tick boot now env) := by
  cases a with
  | heartbeat now hb => exact ⟨fun _ => ⟨now, hb, rfl⟩, fun hk => absurd hk (by simp [h.1])⟩
  | tick boot now env => exact ⟨fun hk => absurd h hk, fun _ => ⟨boot, now, env, rfl⟩⟩
  | _ => exact ⟨fun hk => absurd h.1 hk, fun hk => absurd hk (by simp [h.2])⟩

/-- The trail of a run is the one it had, followed by one block of events for each action, in the
order of the actions and signed by them; nothing that was written is ever changed or removed. -/
theorem trail_signed_blocks (cfg : Settings) (as : List Action) (s : Sys) :
    ∃ blocks, List.Forall₂ Action.Signs as blocks ∧
      (Transition.exec (Sys.step cfg) s as).db.events = s.db.events ++ blocks.flatten := by
  induction as generalizing s with
  | nil => exact ⟨[], .nil, (List.append_nil _).symm⟩
  | cons a as ih =>
    obtain ⟨blocks, hblocks, hlater⟩ := ih (Sys.step cfg a s)
    obtain ⟨es, hnow, hes⟩ := Sys.step_logs cfg a s
    refine ⟨es :: blocks, .cons (fun e he => ?_) hblocks, ?_⟩
    · exact ⟨(hes e he).1, (hes e he).2.signed⟩
    · rw [List.flatten_cons, ← List.append_assoc, ← hnow]
      exact hlater

end Stoker
