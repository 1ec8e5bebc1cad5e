import Stoker.Lifecycle.Ended
import Stoker.Lifecycle.Released
import Stoker.Server.Trail

/-!
# Backpressure

A pass that finds the fleet's deliveries failing opens a streak on the audit trail, a later healthy
pass closes it, and a streak that is open for the sustained window is answered: the rate is stepped
down, or the run is drained. A pass that is not in a position to judge, over a paused run or a fleet
without a live slot, leaves the streak open, so the window may span passes that saw no failure. In a
run in which every pass that finds a streak open can judge it, the failure is unbroken.
-/

open List

namespace Stoker

open Transition

/-! ### The streak on the audit trail -/

def streakAfter (since : Option Time) (e : RunEvent) : Option Time :=
  match e.kind with
  | .backpressureCleared => none
  | .backpressureStepDown _ _ => none
  | .backpressureDetected => some (since.getD e.ts)
  | _ => since

/-- The events are in the order of their instants, none of which lies ahead. -/
structure Chronicle (now : Time) (events : List RunEvent) : Prop where
  sorted : events.Pairwise (·.ts ≤ ·.ts)
  past : ∀ e ∈ events, e.ts ≤ now

variable {now : Time} {fs : List RunEvent} {db : Db} {cfg : Settings} {t since : Time}
  {es : List RunEvent} {db' : Db} {s : Sys}

lemma Chronicle.append (h : Chronicle t es) (ht : t ≤ now) (hf : ∀ e ∈ fs, e.ts = now) :
    Chronicle now (es ++ fs) := by
  constructor
  · refine pairwise_append.2 ⟨h.sorted, ?_, ?_⟩
    · refine pairwise_of_forall_mem_list fun e he f hf' => ?_
      rw [hf e he, hf f hf']
    · intro e he f hf'
      rw [hf f hf']
      exact (h.past e he).trans ht
  · intro e he
    rcases mem_append.1 he with he | he
    · exact (h.past e he).trans ht
    · exact (hf e he).le

lemma openBackpressureSince_eq {events : List RunEvent} (h : Chronicle now events) :
    openBackpressureSince events = events.foldl streakAfter none := by
  unfold openBackpressureSince
  rw [List.Pairwise.insertionSort_eq h.sorted]
  rfl

/-- Events written now are read after those on the trail. -/
lemma openBackpressureSince_append (h : Chronicle t es) (ht : t ≤ now) (hf : ∀ e ∈ fs, e.ts = now) :
    openBackpressureSince (es ++ fs) = fs.foldl streakAfter (openBackpressureSince es) := by
  rw [openBackpressureSince_eq (h.append ht hf), openBackpressureSince_eq h, foldl_append]

lemma streakAfter_foldl (h : ∀ e ∈ fs, e.kind.backpressure = false)
    (since : Option Time) : fs.foldl streakAfter since = since := by
  induction fs generalizing since with
  | nil => rfl
  | cons e fs ih =>
    have he : streakAfter since e = since := by
      have hk := h e mem_cons_self
      unfold streakAfter
      cases hkind : e.kind <;> rw [hkind] at hk <;> first | rfl | cases hk
    rw [foldl_cons, he]
    exact ih (fun f hf => h f (mem_cons_of_mem _ hf)) since

lemma openBackpressureSince_logs {K : EventKind → Prop} (h : Chronicle t db.events) (ht : t ≤ now)
    (hl : Logs K now db db') (hK : ∀ k, K k → k.backpressure = false) :
    Chronicle now db'.events ∧
      openBackpressureSince db'.events = openBackpressureSince db.events := by
  obtain ⟨es, he, hes⟩ := hl
  rw [he]
  refine ⟨h.append ht fun e hmem => (hes e hmem).1, ?_⟩
  rw [openBackpressureSince_append h ht fun e hmem => (hes e hmem).1]
  exact streakAfter_foldl (fun e hmem => hK _ (hes e hmem).2) _

/-! ### The check -/

def EventKind.answers : EventKind → Bool
  | .backpressureStepDown _ _ => true
  | .state _ new reason => decide (new = .draining ∧ reason = some .backpressureDrain)
  | _ => false

/-- Events are added, and none of them answers a streak. -/
def Unanswered (k : EventKind) : Prop := k.answers = false

lemma EventKind.Routine.unanswered (k : EventKind) (h : k.Routine) : Unanswered k := by
  have hb := h.2
  revert hb
  cases k <;> simp [Unanswered, EventKind.answers, EventKind.backpressure]

/-- How the check goes. It does not apply, or there is nothing to do; a healthy fleet closes the
streak; a failing one opens it; a streak that is old enough is answered, by a step-down or by a
drain. -/
inductive Judged (now : Time) (cfg : Settings) (db : Db) : Db → Prop where
  | idle {db' : Db} (same : db'.events = db.events)
      (why : cfg.backpressureDrainEnabled = false ∨ db.delivering = false ∨
        db.failing cfg = (openBackpressureSince db.events).isSome) : Judged now cfg db db'
  | cleared (judged : db.delivering = true) (well : db.failing cfg = false) :
      Judged now cfg db (db.appendEvent now .backpressureCleared)
  | detected (enabled : cfg.backpressureDrainEnabled = true) (judged : db.delivering = true)
      (ill : db.failing cfg = true) (fresh : openBackpressureSince db.events = none) :
      Judged now cfg db (db.appendEvent now .backpressureDetected)
  | steppedDown {db' : Db} {since : Time} (fromRate toRate : ℚ) {es : List RunEvent}
      (judged : db.delivering = true) (ill : db.failing cfg = true)
      (streak : openBackpressureSince db.events = some since)
      (held : cfg.backpressureSustainedS ≤ now - since)
      (events : db'.events = db.events ++ (es ++ [⟨now, .backpressureStepDown fromRate toRate⟩]))
      (routine : ∀ e ∈ es, e.ts = now ∧ e.kind.Routine) : Judged now cfg db db'
  | drained {since : Time} (judged : db.delivering = true) (ill : db.failing cfg = true)
      (streak : openBackpressureSince db.events = some since)
      (held : cfg.backpressureSustainedS ≤ now - since) :
      Judged now cfg db (transitionRun now .draining (some .backpressureDrain) db)

/-- A check that applies and has nothing to do in an open streak has found the run failing. -/
lemma failing_of_idle (he : cfg.backpressureDrainEnabled = true) (hd : db.delivering = true)
    (hopen : openBackpressureSince db.events = some since)
    (why : cfg.backpressureDrainEnabled = false ∨ db.delivering = false ∨
      db.failing cfg = (openBackpressureSince db.events).isSome) :
    db.failing cfg = true := by
  rcases why with hoff | hnot | heq
  · rw [hoff] at he
    cases he
  · rw [hnot] at hd
    cases hd
  · rw [heq, hopen]
    rfl

/-- A step-down writes nothing, or ends with the event that resets the streak. -/
lemma stepDown_judged (hd : db.delivering = true) (hf : db.failing cfg = true)
    (hopen : openBackpressureSince db.events = some since)
    (hheld : cfg.backpressureSustainedS ≤ now - since) :
    Judged now cfg db (stepDownForBackpressure now cfg db).db := by
  have hidle : db.failing cfg = (openBackpressureSince db.events).isSome := by rw [hf, hopen]; rfl
  rcases stepDown_cases now cfg db with h | ⟨current, _, _, _, h | ⟨db', hr, h⟩⟩ <;> rw [h]
  · exact .idle rfl (.inr (.inr hidle))
  · exact .idle rfl (.inr (.inr hidle))
  · obtain ⟨es, he, hes⟩ := (Overseen.rescale hr).events
    refine .steppedDown current (current * cfg.backpressureStepFactor) hd hf hopen hheld ?_ hes
    simp only [Db.appendEvent, he, append_assoc]
    rfl

theorem checkBackpressure_judged (now : Time) (cfg : Settings) (db : Db) :
    Judged now cfg db (checkBackpressure now cfg db).db := by
  have hcheck := checkBackpressure_checked now cfg db
  generalize checkBackpressure now cfg db = checked at hcheck ⊢
  cases hcheck with
  | idle why => exact .idle rfl why
  | cleared judged well => exact .cleared judged well
  | detected enabled judged ill fresh => exact .detected enabled judged ill fresh
  | steppedDown judged ill streak held => exact stepDown_judged judged ill streak held
  | drained judged ill streak held => exact .drained judged ill streak held

/-! ### The pass -/

/-- The rows the check is made on. -/
def passJudged (boot now : Time) (env : Env) (db : Db) : Db :=
  checkAutoAbort now env (passChecked boot now env db)

lemma passJudged_overseen (boot now : Time) (env : Env) (db : Db) :
    Overseen EventKind.Routine now db (passJudged boot now env db) :=
  (passChecked_overseen boot now env db).trans (Overseen.checkAutoAbort env _)

/-- The pass gets as far as the check. -/
def passReaches (boot now : Time) (env : Env) (db : Db) : Bool :=
  db.run.state.supervised && (releaseTimeout now env (lapseStaleLeases boot now db)).result.isOk

/-- The pass judged the run and found its deliveries failing. -/
def passFailing (cfg : Settings) (boot now : Time) (env : Env) (db : Db) : Bool :=
  passReaches boot now env db && (passJudged boot now env db).delivering &&
    (passJudged boot now env db).failing cfg

/-- A pass writes nothing but routine, before and after the check, if it gets that far. -/
lemma supervisorTick_judged (cfg : Settings) (boot now : Time) (env : Env) (db : Db) :
    (passReaches boot now env db = false ∧
      Overseen EventKind.Routine now db (supervisorTick cfg boot now env db)) ∨
    (passReaches boot now env db = true ∧
      ∃ checked, Judged now cfg (passJudged boot now env db) checked ∧
        (passJudged boot now env db).run.Onward checked.run ∧
        Overseen EventKind.Routine now checked (supervisorTick cfg boot now env db)) := by
  unfold passReaches
  rcases supervisorTick_cases now env db cfg boot with
    ⟨hs, h⟩ | ⟨_, e, he, h⟩ | ⟨hs, released, hr, c, rfl, h⟩
  · refine .inl ⟨by rw [hs]; rfl, ?_⟩
    rcases h with h | h <;> rw [h]
    · exact Overseen.refl now db
    · exact Overseen.destroyFleet _ env db
  · refine .inl ⟨by rw [he]; exact Bool.and_false _, ?_⟩
    rw [h]
    exact (Overseen.lapse boot now db).trans (Overseen.releaseTimeout env _)
  · refine .inr ⟨by rw [hs, hr]; rfl, _, checkBackpressure_judged now cfg _,
      (Overseen.checkBackpressure now cfg _).run, ?_⟩
    rcases h with h | h
    · rw [h]
      exact Overseen.refl now _
    · rw [h]
      exact (Overseen.reapDraining env _).trans (Overseen.maybeComplete now _)

/-! ### Observing the passes -/

/-- What an observer keeps: the instant of the last step, and of each pass its instant and whether
it judged the run and found it failing. -/
structure StreakLog where
  clock : Time
  passes : List (Time × Bool) := []
  deriving DecidableEq

def StreakLog.see (cfg : Settings) (a : Action) (s _s' : Sys) (w : StreakLog) : StreakLog where
  clock := a.time
  passes := match a with
    | .tick boot now env => w.passes ++ [(now, passFailing cfg boot now env s.db)]
    | _ => w.passes

/-- The clock does not run backwards, and no two passes are made at one instant. -/
def InTurn (a : Action) (x : Sys × StreakLog) : Prop :=
  x.2.clock ≤ a.time ∧ match a with
    | .tick _ now _ => ∀ p ∈ x.2.passes, p.1 < now
    | _ => True

instance (a : Action) (x : Sys × StreakLog) : Decidable (InTurn a x) :=
  match a with
  | .tick _ now _ =>
    inferInstanceAs (Decidable (x.2.clock ≤ now ∧ ∀ p ∈ x.2.passes, p.1 < now))
  | .launch now .. | .claim now .. | .ready now .. | .release now .. | .heartbeat now ..
  | .final now .. | .stop now .. | .pause now .. | .resume now .. | .scale now .. | .rescale now ..
  | .reconcile now .. => inferInstanceAs (Decidable (x.2.clock ≤ now ∧ True))

/-- A pass can judge the run: it is running or releasing and a worker is live and not overdue. A run
that is draining or has ended needs no judging. -/
def CanJudge (a : Action) (s : Sys) : Prop :=
  match a with
  | .tick boot now _ => s.db.run.state.stopping = true ∨
      ((s.db.run.state = .running ∨ s.db.run.state = .releasing) ∧
        ∃ l ∈ s.db.leases, l.state.live = true ∧ stale boot now s.db.run l = false)
  | _ => True

instance (a : Action) (s : Sys) : Decidable (CanJudge a s) :=
  match a with
  | .tick .. => inferInstanceAs (Decidable (_ ∨ _ ∧ ∃ l ∈ _, _))
  | .launch .. | .claim .. | .ready .. | .release .. | .heartbeat .. | .final .. | .stop ..
  | .pause .. | .resume .. | .scale .. | .rescale .. | .reconcile .. => isTrue trivial

/-- While a streak is open, every pass can judge it and no stop is undone. -/
def StreakSeen (a : Action) (s : Sys) : Prop :=
  (openBackpressureSince s.db.events).isSome = true → CanJudge a s ∧ StopSeen a s

instance (a : Action) (s : Sys) : Decidable (StreakSeen a s) := inferInstanceAs (Decidable (_ → _))

/-! ### The streak is unbroken -/

lemma checkDuration_leases (now : Time) (db : Db) : (checkDuration now db).leases = db.leases := by
  rcases checkDuration_cases now db with h | ⟨_, h⟩ <;> simp [h]

lemma checkAutoAbort_leases (now : Time) (env : Env) (db : Db) :
    (checkAutoAbort now env db).leases = db.leases := by
  rcases checkAutoAbort_cases now env db with h | ⟨why, reason, _, _, _, h⟩ <;> rw [h]
  rcases destroyFleet_cases now env (transitionRun now .failed (some reason) db) why with
    h | ⟨_, _, h⟩ <;> simp [h]

variable {boot : Time}

/-- A run that can be judged before a pass is judged in it, unless the pass has stopped it. -/
lemma passJudged_delivering (env : Env) (ha : Anchored db.run.stage)
    (hs : db.run.state = .running ∨ db.run.state = .releasing)
    (hl : ∃ l ∈ db.leases, l.state.live = true ∧ stale boot now db.run l = false) :
    passReaches boot now env db = true ∧ ((passJudged boot now env db).run.state.stopping = true ∨
      (passJudged boot now env db).delivering = true) := by
  have hrelease : releaseTimeout now env (lapseStaleLeases boot now db) =
      ⟨lapseStaleLeases boot now db, .ok false⟩ := by
    have hne : (lapseStaleLeases boot now db).run.state ≠ .provisioning := by
      change db.run.state ≠ .provisioning
      rcases hs with hs | hs <;> simp [hs]
    simp [releaseTimeout, hne]
  refine ⟨?_, ?_⟩
  · unfold passReaches
    rw [hrelease]
    rcases hs with hs | hs <;> rw [hs] <;> rfl
  have hlive : (passJudged boot now env db).leases.any (·.state.live) = true := by
    obtain ⟨l, hmem, hl, hfresh⟩ := hl
    unfold passJudged passChecked
    rw [checkAutoAbort_leases, checkDuration_leases, hrelease]
    refine any_eq_true.2 ⟨l, mem_map.2 ⟨l, hmem, ?_⟩, hl⟩
    rw [lapseLease, hfresh]
    rfl
  have honward := (passJudged_overseen boot now env db).run
  have hset := honward.rule (fun _ _ => Anchored.move) ha
  have hstate : (passJudged boot now env db).run.state.stopping = true ∨
      (passJudged boot now env db).run.state = .running ∨
      (passJudged boot now env db).run.state = .releasing := by
    refine honward.rule (P := fun x => x.1.stopping = true ∨ x.1 = .running ∨ x.1 = .releasing) ?_
      (.inr hs)
    intro x y hm _
    cases hm with
    | release _ => exact .inr (.inr rfl)
    | cross => exact .inr (.inl rfl)
    | drain _ => exact .inl rfl
    | finish _ ht =>
      have ht' := ht
      exact .inl (by simp [RunState.stopping, ht'])
  rcases hstate with hstop | hrun
  · exact .inl hstop
  · refine .inr ?_
    have ht : (passJudged boot now env db).run.t0.isSome = true := by
      refine hset ?_
      rcases hrun with hrun | hrun
      · exact .inr (.inl hrun)
      · exact .inl hrun
    simp [Db.delivering, hrun, ht, hlive]

/-- The trail is in order, and a streak that is open was found by every pass since its start, unless
the run is stopping. -/
structure Unbroken (cfg : Settings) (x : Sys × StreakLog) : Prop where
  chronicle : Chronicle x.2.clock x.1.db.events
  streak : ∀ since, openBackpressureSince x.1.db.events = some since →
    cfg.backpressureDrainEnabled = true ∧ (x.1.db.run.state.stopping = true ∨
      ∀ p ∈ x.2.passes, since ≤ p.1 → p.2 = true)

variable {a : Action}

/-- What is written outside of a pass is not of backpressure. -/
lemma mayLog_plain {k : EventKind} (ha : ∀ boot now env, a ≠ .tick boot now env)
    (hk : a.MayLog db k) : k.backpressure = false := by
  cases a with
  | heartbeat now hb => exact hk.1
  | tick boot now env => exact absurd rfl (ha boot now env)
  | _ => exact hk.2

variable {env : Env}

namespace Unbroken

variable {cfg : Settings} {s : Sys} {w : StreakLog}

lemma of_closed {x : Sys × StreakLog} (hchron : Chronicle x.2.clock x.1.db.events)
    (hnone : openBackpressureSince x.1.db.events = none) : Unbroken cfg x := by
  refine ⟨hchron, fun since hsince => ?_⟩
  cases hnone.symm.trans hsince

lemma step_other (hclock : w.clock ≤ a.time) (hg : StreakSeen a s)
    (ha : ∀ boot now env, a ≠ .tick boot now env) (h : Unbroken cfg (s, w)) :
    Unbroken cfg (observe (Sys.step cfg) (StreakLog.see cfg) a (s, w)) := by
  have hpasses : (w.see cfg a s (Sys.step cfg a s)).passes = w.passes := by
    cases a with
    | tick boot now env => exact absurd rfl (ha boot now env)
    | _ => rfl
  obtain ⟨hchron, hopen⟩ :=
    openBackpressureSince_logs h.chronicle hclock (Sys.step_logs cfg a s)
      fun _ => mayLog_plain ha
  refine ⟨hchron, fun since hsince => ?_⟩
  have hsince' : openBackpressureSince s.db.events = some since := hopen.symm.trans hsince
  obtain ⟨he, hstreak⟩ := h.streak since hsince'
  refine ⟨he, ?_⟩
  rcases hstreak with hstop | hall
  · refine .inl ?_
    exact (step_stopKept cfg a s (hg (by rw [hsince']; rfl)).2).stopping hstop
  · refine .inr ?_
    change ∀ p ∈ (w.see cfg a s (Sys.step cfg a s)).passes, since ≤ p.1 → p.2 = true
    rw [hpasses]
    exact hall

lemma mem_see_tick {now : Time} {s' : Sys} {p : Time × Bool} :
    p ∈ (w.see cfg (.tick boot now env) s s').passes ↔
      p ∈ w.passes ∨ p = (now, passFailing cfg boot now env s.db) := by
  simp [StreakLog.see]

/-- A streak that was open before a pass and still is goes on unbroken: the run is stopping, or the
pass judged it, and so found it failing. -/
lemma goes_on {now since : Time} (hg : StreakSeen (.tick boot now env) s)
    (ha : Anchored s.db.run.stage) (h : Unbroken cfg (s, w))
    (hopen : openBackpressureSince s.db.events = some since)
    (hfail : passReaches boot now env s.db = true →
      (passJudged boot now env s.db).delivering = true → passFailing cfg boot now env s.db = true)
    (honward : passReaches boot now env s.db = true →
      (passJudged boot now env s.db).run.Onward (supervisorTick cfg boot now env s.db).run) :
    (supervisorTick cfg boot now env s.db).run.state.stopping = true ∨
      ∀ p ∈ (w.see cfg (.tick boot now env) s (Sys.step cfg (.tick boot now env) s)).passes,
        since ≤ p.1 → p.2 = true := by
  have hstays : s.db.run.state.stopping = true →
      (supervisorTick cfg boot now env s.db).run.state.stopping = true :=
    (supervisorTick_overseen cfg boot now env s.db).run.stopping
  rcases (h.streak since hopen).2 with hstop | hall
  · exact .inl (hstays hstop)
  have hjudge : s.db.run.state.stopping = true ∨
      ((s.db.run.state = .running ∨ s.db.run.state = .releasing) ∧
        ∃ l ∈ s.db.leases, l.state.live = true ∧ stale boot now s.db.run l = false) :=
    (hg (by rw [hopen]; rfl)).1
  rcases hjudge with hstop | ⟨hrun, hlive⟩
  · exact .inl (hstays hstop)
  obtain ⟨hreach, hstop | hdel⟩ := passJudged_delivering env ha hrun hlive
  · exact .inl ((honward hreach).stopping hstop)
  · refine .inr fun p hp hsince => ?_
    rcases mem_see_tick.1 hp with hp | rfl
    · exact hall p hp hsince
    · exact hfail hreach hdel

/-- The events of the check are read after those on the trail, and nothing behind them touches the
streak. -/
lemma tick_streak {now : Time} {checked : Db} (hclock : w.clock ≤ now) (h : Unbroken cfg (s, w))
    (he : checked.events = (passJudged boot now env s.db).events ++ fs) (hfs : ∀ e ∈ fs, e.ts = now)
    (hrest : Overseen EventKind.Routine now checked (supervisorTick cfg boot now env s.db)) :
    Chronicle now (supervisorTick cfg boot now env s.db).events ∧
      openBackpressureSince (supervisorTick cfg boot now env s.db).events =
        fs.foldl streakAfter (openBackpressureSince s.db.events) := by
  obtain ⟨hchron, hopen⟩ := openBackpressureSince_logs h.chronicle hclock
    (passJudged_overseen boot now env s.db).events fun _ hk => hk.2
  have hchecked : Chronicle now checked.events := by
    rw [he]
    exact hchron.append le_rfl hfs
  obtain ⟨hchron', hopen'⟩ := openBackpressureSince_logs hchecked le_rfl hrest.events
      fun _ hk => hk.2
  refine ⟨hchron', hopen'.trans ?_⟩
  rw [he, openBackpressureSince_append hchron le_rfl hfs, hopen]

/-- A pass. -/
lemma step_tick {now : Time} (hturn : InTurn (.tick boot now env) (s, w))
    (hg : StreakSeen (.tick boot now env) s) (ha : Anchored s.db.run.stage)
    (h : Unbroken cfg (s, w)) :
    Unbroken cfg (observe (Sys.step cfg) (StreakLog.see cfg) (.tick boot now env) (s, w)) := by
  have hclock : w.clock ≤ now := hturn.1
  rcases supervisorTick_judged cfg boot now env s.db with
    ⟨hreach, hrest⟩ | ⟨hreach, checked, hjudged, honward, hrest⟩
  · obtain ⟨hchron, hopen⟩ :=
      openBackpressureSince_logs h.chronicle hclock hrest.events fun _ hk => hk.2
    refine ⟨hchron, fun since hsince => ?_⟩
    have hsince' : openBackpressureSince s.db.events = some since := hopen.symm.trans hsince
    have hno : passReaches boot now env s.db ≠ true := by rw [hreach]; simp
    exact ⟨(h.streak since hsince').1, h.goes_on hg ha hsince' (fun hr => absurd hr hno)
      fun hr => absurd hr hno⟩
  have hbefore : openBackpressureSince (passJudged boot now env s.db).events =
      openBackpressureSince s.db.events := (openBackpressureSince_logs h.chronicle hclock
    (passJudged_overseen boot now env s.db).events fun _ hk => hk.2).2
  cases hjudged with
  | idle same why =>
    obtain ⟨hchron, hopen⟩ := h.tick_streak hclock (same.trans (append_nil _).symm) (by simp) hrest
    refine ⟨hchron, fun since hsince => ?_⟩
    have hsince' : openBackpressureSince s.db.events = some since := hopen.symm.trans hsince
    have henabled := (h.streak since hsince').1
    refine ⟨henabled, h.goes_on hg ha hsince' (fun hr hd => ?_) fun _ => honward.trans hrest.run⟩
    have hill := failing_of_idle henabled hd (hbefore.trans hsince') why
    simp [passFailing, hr, hd, hill]
  | cleared judged well =>
    obtain ⟨hchron, hopen⟩ := h.tick_streak hclock rfl (by simp) hrest
    exact of_closed hchron hopen
  | detected enabled judged ill fresh =>
    obtain ⟨hchron, hopen⟩ := h.tick_streak hclock rfl (by simp) hrest
    rw [← hbefore, fresh] at hopen
    refine ⟨hchron, fun since hsince => ⟨enabled, .inr fun p hp hle => ?_⟩⟩
    cases hopen.symm.trans hsince
    have hp' :
        p ∈ (w.see cfg (.tick boot now env) s (Sys.step cfg (.tick boot now env) s)).passes := hp
    rcases mem_see_tick.1 hp' with hp | rfl
    · exact absurd hle (not_le.2 (hturn.2 p hp))
    · simp [passFailing, hreach, judged, ill]
  | @steppedDown _ _ fromRate toRate es judged ill streak held events routine =>
    obtain ⟨hchron, hopen⟩ := h.tick_streak hclock events
      (forall_mem_append.2 ⟨fun e he => (routine e he).1, forall_mem_singleton.2 rfl⟩) hrest
    rw [foldl_append] at hopen
    exact of_closed hchron hopen
  | @drained since₀ judged ill streak held =>
    obtain ⟨es, he, hes⟩ : Logs EventKind.NoAuth now _ _ := Logs.transition now _ rfl
    obtain ⟨hchron, _⟩ := h.tick_streak hclock he (fun e hmem => (hes e hmem).1) hrest
    refine ⟨hchron, fun since _ => ⟨(h.streak since₀ (hbefore.symm.trans streak)).1, .inl ?_⟩⟩
    exact hrest.run.stopping (by rw [transitionRun_state]; rfl)

lemma start {now : Time} {spec : Snapshot} {db : Db} (h : provisionRun now spec = .ok db) :
    Unbroken cfg (Sys.start db, { clock := now }) := by
  obtain ⟨_, shares, _, rfl⟩ := provisionRun_ok h
  have hchron : Chronicle now (provisionedDb now spec shares).events := by
    constructor <;> simp [provisionedDb]
  refine of_closed hchron ?_
  change openBackpressureSince (provisionedDb now spec shares).events = none
  rw [openBackpressureSince_eq hchron]
  rfl

lemma step (hturn : InTurn a (s, w)) (hg : StreakSeen a s) (ha : s.Anchored)
    (h : Unbroken cfg (s, w)) :
    Unbroken cfg (observe (Sys.step cfg) (StreakLog.see cfg) a (s, w)) := by
  cases a with
  | tick boot now env => exact h.step_tick hturn hg ha.1
  | _ => exact h.step_other hturn.1 hg (by simp)

end Unbroken

/-! ### Answering a streak -/

/-- The step answers a streak: it steps the run down, or drains it, for backpressure. -/
def Sys.AnswersBackpressure (cfg : Settings) (a : Action) (s : Sys) : Prop :=
  ∃ e ∈ (Sys.step cfg a s).db.events.drop s.db.events.length, e.kind.answers = true

instance (cfg : Settings) (a : Action) (s : Sys) : Decidable (s.AnswersBackpressure cfg a) :=
  inferInstanceAs (Decidable (∃ e ∈ _, _))

lemma Logs.not_answers (h : Logs Unanswered now db db') :
    ¬ ∃ e ∈ db'.events.drop db.events.length, e.kind.answers = true := by
  obtain ⟨es, he, hes⟩ := h
  rintro ⟨e, hmem, ha⟩
  rw [he, drop_left] at hmem
  have hno : e.kind.answers = false := (hes e hmem).2
  rw [hno] at ha
  cases ha

lemma answers_judged (h : s.AnswersBackpressure cfg (.tick boot now env)) :
    passFailing cfg boot now env s.db = true ∧ (passJudged boot now env s.db).delivering = true ∧
      ∃ since, openBackpressureSince (passJudged boot now env s.db).events = some since ∧
        cfg.backpressureSustainedS ≤ now - since := by
  have hmay : ∀ {db db' : Db}, Logs EventKind.Routine now db db' → Logs Unanswered now db db' :=
    Logs.mono EventKind.Routine.unanswered
  rcases supervisorTick_judged cfg boot now env s.db with
    ⟨_, hrest⟩ | ⟨hreach, checked, hjudged, _, hrest⟩
  · exact absurd h (hmay hrest.events).not_answers
  have hpass := hmay (passJudged_overseen boot now env s.db).events
  have hquiet : ¬ Logs Unanswered now (passJudged boot now env s.db) checked := fun hc =>
    ((hpass.trans hc).trans (hmay hrest.events)).not_answers h
  cases hjudged with
  | idle same _ => exact absurd (Logs.of_eq same) hquiet
  | cleared _ _ =>
    have hk : Unanswered .backpressureCleared := rfl
    exact absurd (Logs.appendEvent hk _) hquiet
  | detected _ _ _ _ =>
    have hk : Unanswered .backpressureDetected := rfl
    exact absurd (Logs.appendEvent hk _) hquiet
  | steppedDown _ _ judged ill streak held _ _ | drained judged ill streak held =>
    exact ⟨by simp [passFailing, hreach, judged, ill], judged, _, streak, held⟩

lemma Db.delivering_not_stopping (h : db.delivering = true) :
    db.run.state.stopping ≠ true := by
  simp only [Db.delivering, Bool.and_eq_true, decide_eq_true_eq] at h
  rcases h.1.1 with hs | hs <;> rw [hs] <;> decide

/-- In a run in which every pass that finds a streak open can judge it, backpressure is answered
only when every pass of the sustained window, the answering one included, judged the run and found
its deliveries failing. -/
theorem backpressure_unbroken {cfg : Settings} {now₀ : Time} {spec : Snapshot} {db : Db}
    {as : List Action} {w : StreakLog} (hp : provisionRun now₀ spec = .ok db)
    (h : Runs (observe (Sys.step cfg) (StreakLog.see cfg)) (fun a x => InTurn a x ∧
      StreakSeen a x.1) (Sys.start db, { clock := now₀ }) as (s, w))
    {boot now : Time} {env : Env} (hturn : InTurn (.tick boot now env) (s, w))
    (ha : s.AnswersBackpressure cfg (.tick boot now env)) :
    ∀ p ∈ (w.see cfg (.tick boot now env) s (Sys.step cfg (.tick boot now env) s)).passes,
      now - cfg.backpressureSustainedS ≤ p.1 → p.2 = true := by
  have hu : Unbroken cfg (s, w) := by
    refine h.invariant_under (I := fun x => x.1.Anchored) (J := Unbroken cfg)
      (fun a x _ hx => hx.step cfg a) (fun a x hg hx hu => hu.step hg.1 hg.2 hx)
      (Sys.Anchored.start hp) (Unbroken.start hp)
  obtain ⟨hfail, hdel, since, hopen, hheld⟩ := answers_judged ha
  have hpass := passJudged_overseen boot now env s.db
  obtain ⟨_, hsame⟩ := openBackpressureSince_logs hu.chronicle hturn.1 hpass.events fun _ hk => hk.2
  intro p hmem hwindow
  have hsince : since ≤ p.1 := by linarith
  rcases Unbroken.mem_see_tick.1 hmem with hold | rfl
  · rcases (hu.streak since (hsame.symm.trans hopen)).2 with hstop | hall
    · exact absurd (hpass.run.stopping hstop) (Db.delivering_not_stopping hdel)
    · exact hall p hold hsince
  · exact hfail

/-- The target answers every send with an error: the first pass opens the streak, and the pass a
minute later steps the run down. -/
theorem backpressure_unbroken_stepped :
    let cfg : Settings := { backpressureDrainEnabled := true }
    let x := exec (observe (Sys.step cfg) (StreakLog.see cfg)) (Sys.start (plainDb 1),
        { clock := 0 })
      [.launch 1 swarmRun, .claim 2 "w0" none, .ready 3 0 (some 1), .release 4 0,
        .heartbeat 6 { slot := 0, leaseId := some 1 },
        .heartbeat 16 { slot := 0, leaseId := some 1, counters := { hec5xx := some 10 } },
          .tick 0 17 {},
        .heartbeat 40 { slot := 0, leaseId := some 1, counters := { hec5xx := some 20 } },
          .tick 0 41 {},
        .heartbeat 65 { slot := 0, leaseId := some 1, counters := { hec5xx := some 30 } }]
    x.1.AnswersBackpressure cfg (.tick 0 78 {}) ∧
      ∀ p ∈ (x.2.see cfg (.tick 0 78 {}) x.1 (Sys.step cfg (.tick 0 78 {}) x.1)).passes,
        78 - cfg.backpressureSustainedS ≤ p.1 → p.2 = true := by
  intro cfg x
  have h : Runs (observe (Sys.step cfg) (StreakLog.see cfg))
      (fun a x => InTurn a x ∧ StreakSeen a x.1) (Sys.start (plainDb 1), { clock := 0 }) _
        (x.1, x.2) :=
    Runs.of_check (by decide +kernel)
  have ha : x.1.AnswersBackpressure cfg (.tick 0 78 {}) := by decide +kernel
  exact ⟨ha, backpressure_unbroken (provisionRun_plain (by decide)) h (by decide +kernel) ha⟩

/-- The streak is opened, the run is paused over the next pass and resumed, and the pass after that
steps it down: the paused pass left the streak open. -/
theorem backpressure_over_pause :
    ¬ ∀ (cfg : Settings) (now₀ : Time) (spec : Snapshot) (db : Db) (as : List Action) (s : Sys)
      (w : StreakLog) (boot now : Time) (env : Env), provisionRun now₀ spec = .ok db →
      Runs (observe (Sys.step cfg) (StreakLog.see cfg)) (fun a x => InTurn a x ∧ StopSeen a x.1)
        (Sys.start db, { clock := now₀ }) as (s, w) →
      InTurn (.tick boot now env) (s, w) → s.AnswersBackpressure cfg (.tick boot now env) →
      ∀ p ∈ (w.see cfg (.tick boot now env) s (Sys.step cfg (.tick boot now env) s)).passes,
        now - cfg.backpressureSustainedS ≤ p.1 → p.2 = true := by
  intro h
  have hs := h { backpressureDrainEnabled := true } 0 (plainSpec 1) (plainDb 1)
    [.launch 1 swarmRun, .claim 2 "w0" none, .ready 3 0 (some 1), .release 4 0,
      .heartbeat 6 { slot := 0, leaseId := some 1 },
      .heartbeat 16 { slot := 0, leaseId := some 1, counters := { hec5xx := some 10 } },
        .tick 0 17 {},
      .pause 20 {},
        .heartbeat 40 { slot := 0, leaseId := some 1, counters := { hec5xx := some 20 } },
      .tick 0 41 {}, .resume 60 {},
      .heartbeat 65 { slot := 0, leaseId := some 1, counters := { hec5xx := some 30 } }]
    _ _ 0 78 {} (provisionRun_plain (by decide)) (Runs.of_check (by decide +kernel))
  revert hs
  decide +kernel

end Stoker
