import Stoker.Lifecycle.AutoAbort

/-!
# The pause clock

A pause is opened by the operator's pause and closed by a resume or a stop. Nothing else closes it:
a paused run that is completed by a final, failed by a pass or by the reconciliation at boot, or
written over by the end of a launch or of a ready post, leaves the paused state with its pause open,
and the seconds shown as paused go on growing. In a run in which none of these takes the paused run
out of its state, a pause is open exactly while the run is paused and the clock shows the time spent
there.
-/

open List

namespace Stoker

open Transition

/-- What an observer keeps: the instant of the last step, and the time spent in the paused state. -/
structure PauseLog where
  clock : Time
  spent : Time := 0
  deriving DecidableEq

/-- The time since the last step was spent paused if the run was paused then. -/
def PauseLog.see (a : Action) (s _s' : Sys) (w : PauseLog) : PauseLog where
  clock := a.time
  spent := w.spent + if s.db.run.state = .paused then a.time - w.clock else 0

/-- The clock does not run backwards. -/
def Forward (a : Action) (x : Sys × PauseLog) : Prop := x.2.clock ≤ a.time

instance (a : Action) (x : Sys × PauseLog) : Decidable (Forward a x) :=
  inferInstanceAs (Decidable (_ ≤ _))

/-- A pass at which a paused fleet is well: a worker is live and not overdue, no more than half of
the leases are lost or overdue, and less than half of the fleet has been refused by the HEC. -/
def FleetWell (boot now : Time) (db : Db) : Prop :=
  (∃ l ∈ db.leases, l.state.live = true ∧ stale boot now db.run l = false) ∧
  2 * (db.leases.filter fun l => decide (l.state = .lost) || stale boot now db.run l).length ≤
    db.leases.length ∧
  (authFailedSlots db).length < max 1 (db.leases.length / 2)

instance (boot now : Time) (db : Db) : Decidable (FleetWell boot now db) :=
  inferInstanceAs (Decidable (_ ∧ _ ∧ _))

/-- A step that finds the run paused and is neither a resume nor a stop does not end the run or
write over its state: a launch has ended, or raises; a ready post came in after the release; a final
leaves another worker live; a pass finds the fleet well; a reconciliation finds the workload. -/
def LeavesPaused (a : Action) (s : Sys) : Prop :=
  match a with
  | .launch _ result => s.launching.isSome = true → result = .crashed
  | .release _ i => ∀ p ∈ s.readying[i]?, p.1.t0.isSome = true
  | .final _ f => ∃ l ∈ s.db.leases, l.slot ≠ f.slot ∧ l.state.live = true
  | .tick boot now _ => FleetWell boot now s.db
  | .reconcile _ env => s.db.run.driverRef.isSome = true ∧ ∀ p ∈ env.status, 0 < p.1 ∨ 0 < p.2
  | _ => True

instance (a : Action) (s : Sys) : Decidable (LeavesPaused a s) :=
  match a with
  | .launch .. => inferInstanceAs (Decidable (_ → _))
  | .release .. => inferInstanceAs (Decidable (∀ p ∈ _, _))
  | .final .. => inferInstanceAs (Decidable (∃ l ∈ _, _))
  | .tick .. => inferInstanceAs (Decidable (FleetWell _ _ _))
  | .reconcile .. => inferInstanceAs (Decidable (_ ∧ ∀ p ∈ _, _))
  | .claim .. | .ready .. | .heartbeat .. | .stop .. | .pause .. | .resume .. | .scale ..
  | .rescale .. => isTrue trivial

/-- The condition is asked of a paused run only. -/
def PauseHeld (a : Action) (s : Sys) : Prop := s.db.run.state = .paused → LeavesPaused a s

instance (a : Action) (s : Sys) : Decidable (PauseHeld a s) := inferInstanceAs (Decidable (_ → _))

/-! ### Steps that leave a paused run alone -/

lemma maybeCompleteRun_live {now : Time} {db : Db} (h : ∃ l ∈ db.leases, l.state.live = true) :
    maybeCompleteRun now db = db := by
  have hany : db.leases.any (·.state.live) = true := by simpa using h
  unfold maybeCompleteRun
  simp only [hany, if_true]
  split_ifs <;> rfl

/-- A final that leaves another worker live does not end the run. -/
lemma recordFinal_run {now : Time} {f : Final} {db db' : Db} (h : recordFinal now f db = .ok db')
    (hlive : ∃ l ∈ db.leases, l.slot ≠ f.slot ∧ l.state.live = true) :
    db'.run.stage = db.run.stage ∧ db'.run.pauseClock = db.run.pauseClock := by
  obtain ⟨l, hl, hslot, hlive⟩ := hlive
  obtain ⟨lease, _, ⟨_, _, _, rfl⟩ | ⟨_, ⟨_, rfl⟩ | ⟨_, totals, _, rfl⟩⟩⟩ := recordFinal_ok h
  · exact ⟨rfl, rfl⟩
  · have hkeep : l ∈ (logFinal f db).leases := mem_updateLease.2 ⟨l, hl, by rw [if_neg hslot]⟩
    rw [maybeCompleteRun_live ⟨l, hkeep, hlive⟩]
    exact ⟨rfl, rfl⟩
  · have hkeep : l ∈ (closeFinal now f totals db).leases := by
      refine mem_updateLease.2 ⟨l, ?_, by rw [if_neg hslot]⟩
      exact mem_updateLease.2 ⟨l, hl, by rw [if_neg hslot]⟩
    rw [maybeCompleteRun_live ⟨l, hkeep, hlive⟩]
    exact ⟨rfl, rfl⟩

namespace FleetWell

variable {boot now : Time} {db : Db}

/-- The lease that is kept alive is so after the lapse. -/
lemma exists_live (hw : FleetWell boot now db) :
    ∃ l ∈ (lapseStaleLeases boot now db).leases, l.state.live = true := by
  obtain ⟨⟨l, hl, hlive, hfresh⟩, _⟩ := hw
  refine ⟨l, mem_map.2 ⟨l, hl, ?_⟩, hlive⟩
  rw [lapseLease, hfresh]
  rfl

lemma lostRunning_length_le (boot now : Time) (db : Db) :
    (lostRunning (lapseStaleLeases boot now db).leases).length ≤
      (db.leases.filter fun l => decide (l.state = .lost) || stale boot now db.run l).length := by
  refine forall₂_filter_length_le (R := fun k k' => k' = lapseLease boot now db.run k)
    (forall₂_map_right_iff.2 (forall₂_same.2 fun _ _ => rfl)) ?_
  rintro k _ _ _ rfl hq
  simp only [decide_eq_true_eq] at hq
  unfold lapseLease at hq
  by_cases hs : stale boot now db.run k = true
  · simp [hs]
  · rw [if_neg hs] at hq
    simp [hq.1]

lemma abortLost (hw : FleetWell boot now db) :
    abortLost now (lapseStaleLeases boot now db) = false := by
  obtain ⟨_, hlost, _⟩ := hw
  have hlen : (lapseStaleLeases boot now db).leases.length = db.leases.length := length_map _
  have hfew : ¬ autoAbortLostFraction * (lapseStaleLeases boot now db).leases.length <
      (lostRunning (lapseStaleLeases boot now db).leases).length := by
    rw [hlen, not_lt]
    have hle : ((lostRunning (lapseStaleLeases boot now db).leases).length : ℚ) ≤
        (db.leases.filter fun l => decide (l.state = .lost) || stale boot now db.run l).length := by
      exact_mod_cast lostRunning_length_le boot now db
    have hlost' : 2 * ((db.leases.filter fun l =>
        decide (l.state = .lost) || stale boot now db.run l).length : ℚ) ≤ db.leases.length := by
      exact_mod_cast hlost
    unfold autoAbortLostFraction
    linarith
  simp [Stoker.abortLost, hfew]

lemma checkAutoAbort (hw : FleetWell boot now db) (env : Env) :
    checkAutoAbort now env (lapseStaleLeases boot now db) = lapseStaleLeases boot now db := by
  have hslots : (authFailedSlots (lapseStaleLeases boot now db)).length =
      (authFailedSlots db).length :=
    authFailedSlots_length ((Overseen.lapse boot now db).events.mono EventKind.Routine.noAuth)
  have hlen : (lapseStaleLeases boot now db).leases.length = db.leases.length := length_map _
  have hfew : ¬ max 1 ((lapseStaleLeases boot now db).leases.length / 2) ≤
      (authFailedSlots (lapseStaleLeases boot now db)).length := by
    rw [hlen, hslots]
    exact not_le.2 hw.2.2
  rcases checkAutoAbort_cases now env (lapseStaleLeases boot now db) with
    h | ⟨_, _, _, _, ⟨_, hlost⟩ | ⟨_, hauth⟩, _⟩
  · exact h
  · rw [hw.abortLost] at hlost
    cases hlost
  · exact absurd hauth hfew

end FleetWell

lemma checkBackpressure_paused {now : Time} {cfg : Settings} {db : Db}
    (hp : db.run.state = .paused) : checkBackpressure now cfg db = ⟨db, .ok ()⟩ := by
  have hcheck := checkBackpressure_checked now cfg db
  generalize checkBackpressure now cfg db = checked at hcheck ⊢
  have hnot : db.delivering ≠ true := by simp [Db.delivering, hp]
  cases hcheck with
  | idle => rfl
  | detected _ judged | cleared judged | steppedDown judged | drained judged =>
    exact absurd judged hnot

variable {env : Env} {w : PauseLog}

/-- A pass over a paused run whose fleet is well takes the overdue leases out of the live set and
does nothing else. -/
lemma supervisorTick_paused {cfg : Settings} {boot now : Time} {db : Db}
    (hp : db.run.state = .paused) (hw : FleetWell boot now db) :
    supervisorTick cfg boot now env db = lapseStaleLeases boot now db := by
  set lapsed := lapseStaleLeases boot now db with hlapsed
  have hstate : lapsed.run.state = .paused := hp
  have hrelease : releaseTimeout now env lapsed = ⟨lapsed, .ok false⟩ := by
    simp [releaseTimeout, hstate]
  have hduration : checkDuration now lapsed = lapsed := by simp [checkDuration, hstate]
  have hcheck : checkAutoAbort now env lapsed = lapsed := hw.checkAutoAbort env
  have hreap : reapDraining now env lapsed = lapsed := by simp [reapDraining, hstate]
  unfold supervisorTick superviseRun
  rw [if_pos (by rw [hp]; rfl), ← hlapsed, hrelease]
  unfold Outcome.andThen
  dsimp only
  rw [hduration, hcheck, checkBackpressure_paused hstate]
  rw [hreap, maybeCompleteRun_live hw.exists_live]

lemma reconcileOnBoot_run {now : Time} {db : Db} (hr : db.run.driverRef.isSome = true)
    (hs : ∀ p ∈ env.status, 0 < p.1 ∨ 0 < p.2) : (reconcileOnBoot now env db).run = db.run := by
  unfold reconcileOnBoot
  split_ifs with _ hn
  · rfl
  · rw [hn] at hr
    cases hr
  · rfl
  · cases hst : env.status with
    | none => rfl
    | some p =>
      have hp := hs p hst
      dsimp only at hp ⊢
      rw [if_neg (by omega)]
      rfl

/-- A step that meets the condition, and is neither a stop nor a resume, leaves a paused run paused
with its clock. -/
lemma paused_kept (cfg : Settings) {a : Action} {s : Sys} (hp : s.db.run.state = .paused)
    (hg : LeavesPaused a s) (hstop : ∀ now force env, a ≠ .stop now force env)
    (hresume : ∀ now env, a ≠ .resume now env) :
    (Sys.step cfg a s).db.run.state = .paused ∧
      (Sys.step cfg a s).db.run.pauseClock = s.db.run.pauseClock := by
  have hstep := Sys.step_happens cfg a s
  generalize Sys.step cfg a s = t at hstep ⊢
  cases hstep with
  | idle => exact ⟨hp, rfl⟩
  | @launch now result loaded hl =>
    have hcrash : result = .crashed := hg (by simp [hl])
    refine ⟨?_, finishLaunch_pauseClock now result loaded s.db⟩
    rw [finishLaunch_state, hcrash]
    exact hp
  | claim h =>
    rw [claimLease_run h]
    exact ⟨hp, rfl⟩
  | ready h =>
    obtain ⟨_, _, _, _, hrun, _⟩ := markReady_ok h
    rw [hrun]
    exact ⟨hp, rfl⟩
  | @release now _ loaded own hi =>
    have hset : loaded.t0.isSome = true := hg _ hi
    rcases finishReady_cases now loaded own s.db with he | ⟨ht, _⟩
    · rw [he]
      exact ⟨hp, rfl⟩
    · rw [ht] at hset
      cases hset
  | @heartbeat now hb =>
    refine ⟨?_, (recordHeartbeat_onward now hb s.db).pauses⟩
    change (recordHeartbeat now hb s.db).1.run.state = .paused
    rcases (recordHeartbeat_run now hb s.db).1 with he | ⟨he, _⟩
    · exact he.trans hp
    · rw [hp] at he
      cases he
  | final h =>
    obtain ⟨hstage, hclock⟩ := recordFinal_run h hg
    exact ⟨(congrArg Prod.fst hstage).trans hp, hclock⟩
  | stop => exact absurd rfl (hstop _ _ _)
  | pause h =>
    rw [(pauseRun_run h).1] at hp
    cases hp
  | resume => exact absurd rfl (hresume _ _)
  | scale h =>
    obtain ⟨_, _, shares, _, rfl⟩ := scaleRunEndpoint_ok h
    exact ⟨hp, rfl⟩
  | rescale _ h => exact ⟨(rescaleRun_frame h).1.trans hp, (Overseen.rescale h).run.pauses⟩
  | tick =>
    rw [supervisorTick_paused hp hg]
    exact ⟨hp, rfl⟩
  | reconcile =>
    rw [reconcileOnBoot_run hg.1 hg.2]
    exact ⟨hp, rfl⟩

/-! ### The account -/

/-- The pause clock of a run agrees with the observer's. -/
structure PausesCounted (run : Run) (w : PauseLog) : Prop where
  paused : run.state = .paused →
    ∃ since, run.pausedAt = some since ∧ since ≤ w.clock ∧ w.spent = run.pausedS + (w.clock - since)
  other : run.state ≠ .paused → run.pausedAt = none ∧ run.pausedS = w.spent

namespace PausesCounted

variable {cfg : Settings} {a : Action} {s : Sys} {w : PauseLog} {run run' : Run}

/-- What the account says of the seconds shown. -/
lemma shown (h : PausesCounted run w) : (run.pausedAt.isSome = true ↔ run.state = .paused) ∧
    ∀ now, w.clock ≤ now →
      pausedSeconds now run = w.spent + if run.state = .paused then now - w.clock else 0 := by
  by_cases hp : run.state = .paused
  · obtain ⟨since, hat, hle, hspent⟩ := h.paused hp
    refine ⟨by simp [hat, hp], fun now hnow => ?_⟩
    have hmax : max 0 (now - since) = now - since := max_eq_right (by linarith)
    simp only [pausedSeconds, hat, hmax, if_pos hp, hspent]
    ring
  · obtain ⟨hat, hs⟩ := h.other hp
    refine ⟨by simp [hat, hp], fun now _ => ?_⟩
    simp [pausedSeconds, hat, hs, hp]

lemma wait (h : PausesCounted s.db.run w) (hc : w.clock ≤ a.time) (hp : s.db.run.state = .paused)
    (hp' : run'.state = .paused) (hclock : run'.pauseClock = s.db.run.pauseClock) (s' : Sys) :
    PausesCounted run' (w.see a s s') := by
  obtain ⟨since, hat, hle, hspent⟩ := h.paused hp
  obtain ⟨hat', hs'⟩ : run'.pausedAt = s.db.run.pausedAt ∧ run'.pausedS = s.db.run.pausedS := by
    simpa [Run.pauseClock] using hclock
  refine ⟨fun _ => ⟨since, hat'.trans hat, hle.trans hc, ?_⟩, fun hn => absurd hp' hn⟩
  simp only [PauseLog.see, if_pos hp, hspent, hs']
  ring

lemma idle (h : PausesCounted s.db.run w) (hp : s.db.run.state ≠ .paused)
    (hp' : run'.state ≠ .paused)
    (hclock : run'.pauseClock = s.db.run.pauseClock) (s' : Sys) :
    PausesCounted run' (w.see a s s') := by
  obtain ⟨hat, hs⟩ := h.other hp
  obtain ⟨hat', hs'⟩ : run'.pausedAt = s.db.run.pausedAt ∧ run'.pausedS = s.db.run.pausedS := by
    simpa [Run.pauseClock] using hclock
  refine ⟨fun hn => absurd hn hp', fun _ => ⟨hat'.trans hat, ?_⟩⟩
  simp [PauseLog.see, hp, hs', hs]

lemma ended (h : PausesCounted s.db.run w) (hc : w.clock ≤ a.time) (hp' : run'.state ≠ .paused)
    (hclock : run'.pauseClock = (endPause a.time s.db.run).pauseClock) (s' : Sys) :
    PausesCounted run' (w.see a s s') := by
  by_cases hp : s.db.run.state = .paused
  · obtain ⟨since, hat, hle, hspent⟩ := h.paused hp
    obtain ⟨hat', hs'⟩ : run'.pausedAt = none ∧
        run'.pausedS = s.db.run.pausedS + max 0 (a.time - since) := by
      simpa [Run.pauseClock, endPause, hat] using hclock
    have hmax : max 0 (a.time - since) = a.time - since := max_eq_right (by linarith)
    refine ⟨fun hn => absurd hn hp', fun _ => ⟨hat', ?_⟩⟩
    simp only [PauseLog.see, if_pos hp, hspent, hs', hmax]
    ring
  · have hnone : endPause a.time s.db.run = s.db.run := by simp [endPause, (h.other hp).1]
    rw [hnone] at hclock
    exact h.idle hp hp' hclock s'

lemma begun (h : PausesCounted s.db.run w) (hp : s.db.run.state ≠ .paused)
    (hp' : run'.state = .paused)
    (hclock : run'.pauseClock = (some a.time, s.db.run.pausedS)) (s' : Sys) :
    PausesCounted run' (w.see a s s') := by
  obtain ⟨hat', hs'⟩ : run'.pausedAt = some a.time ∧ run'.pausedS = s.db.run.pausedS := by
    simpa [Run.pauseClock] using hclock
  refine ⟨fun _ => ⟨a.time, hat', le_rfl, ?_⟩, fun hn => absurd hp' hn⟩
  simp [PauseLog.see, hp, hs', (h.other hp).2]

end PausesCounted

lemma Run.Onward.not_paused {r r' : Run} (h : r.Onward r') (hr : r.state ≠ .paused) :
    r'.state ≠ .paused := by
  refine h.rule (P := fun x => x.1 ≠ .paused) ?_ hr
  intro x y hm _
  cases hm with
  | release _ | cross | drain _ => simp
  | finish _ ht =>
    rintro rfl
    cases ht

lemma PausesCounted.step (cfg : Settings) {a : Action} {s : Sys} (hf : Forward a (s, w))
    (hg : PauseHeld a s) (h : PausesCounted s.db.run w) :
    PausesCounted (Sys.step cfg a s).db.run (w.see a s (Sys.step cfg a s)) := by
  have hclock : w.clock ≤ a.time := hf
  have hkept := fun hp : s.db.run.state = .paused => paused_kept cfg hp (hg hp)
  have hturn := Sys.step_turn cfg a s
  generalize (Sys.step cfg a s).db = db at hkept hturn ⊢
  cases hturn with
  | same =>
    by_cases hp : s.db.run.state = .paused
    · exact h.wait hclock hp hp rfl _
    · exact h.idle hp hp rfl _
  | onward hfree ho =>
    by_cases hp : s.db.run.state = .paused
    · obtain ⟨hp', hc⟩ := hkept hp (by rintro _ _ _ rfl; cases hfree)
          (by rintro _ _ rfl; cases hfree)
      exact h.wait hclock hp hp' hc _
    · exact h.idle hp (ho.not_paused hp) ho.pauses _
  | @launch now result loaded hl =>
    by_cases hp : s.db.run.state = .paused
    · obtain ⟨hp', hc⟩ := hkept hp (by simp) (by simp)
      exact h.wait hclock hp hp' hc _
    · refine h.idle hp ?_ (finishLaunch_pauseClock now result loaded s.db) _
      rw [finishLaunch_state]
      cases result with
      | crashed => exact hp
      | launched | driverError =>
        dsimp only [flushColumn]
        split_ifs
        · exact hp
        · simp
  | @release now i loaded own hi =>
    by_cases hp : s.db.run.state = .paused
    · obtain ⟨hp', hc⟩ := hkept hp (by simp) (by simp)
      exact h.wait hclock hp hp' hc _
    · refine h.idle hp ?_ (finishReady_pauseClock now loaded own s.db) _
      rcases finishReady_cases now loaded own s.db with he | ⟨_, _, _, _, hs, _⟩
      · rw [he]
        exact hp
      · rw [hs]
        split_ifs
        · exact hp
        · simp
  | @stop now force env db r _ hstage hpauses ho =>
    have hr : r.state = .draining := congrArg Prod.fst hstage
    exact h.ended hclock (ho.not_paused (by simp [hr])) (ho.pauses.trans hpauses) _
  | @pause now env db hrun hstage hpauses =>
    have hpaused : db.run.state = .paused := congrArg Prod.fst hstage
    exact h.begun (a := .pause now env) (by simp [hrun]) hpaused hpauses _
  | @resume now env db _ hstage hpauses =>
    have hrun : db.run.state = .running := congrArg Prod.fst hstage
    exact h.ended hclock (by simp [hrun]) hpauses _

/-- In a run in which no step takes the paused run out of its state but a stop or a resume, a pause
is open exactly while the run is paused, and the seconds shown as paused are those spent in that
state. -/
theorem pause_clock_right {cfg : Settings} {now₀ : Time} {spec : Snapshot} {db : Db}
    {as : List Action} {s : Sys} (hp : provisionRun now₀ spec = .ok db)
    (h : Runs (observe (Sys.step cfg) PauseLog.see) (fun a x => Forward a x ∧
      PauseHeld a x.1) (Sys.start db, { clock := now₀ }) as (s, w)) :
    (s.db.run.pausedAt.isSome = true ↔ s.db.run.state = .paused) ∧
      ∀ now, w.clock ≤ now → pausedSeconds now s.db.run =
        w.spent + if s.db.run.state = .paused then now - w.clock else 0 := by
  refine PausesCounted.shown (h.invariant (I := fun x => PausesCounted x.1.db.run x.2) ?_ ?_)
  · exact fun a x hg hx => hx.step cfg hg.1 hg.2
  · obtain ⟨_, shares, _, rfl⟩ := provisionRun_ok hp
    exact ⟨fun h => (by cases h), fun _ => ⟨rfl, rfl⟩⟩

/-- Two workers; the run is paused at 10, one worker is done at 12, and the run is resumed at 15. -/
theorem pause_clock_right_resumed :
    let x := exec (observe (Sys.step {}) PauseLog.see) (Sys.start (plainDb 2), { clock := 0 })
      [.launch 1 swarmRun, .claim 2 "w0" none, .claim 2 "w1" none,
        .ready 3 0 (some 2), .ready 3 1 (some 3), .release 4 1,
          .heartbeat 6 { slot := 0, leaseId := some 2 },
        .pause 10 {}, .final 12 { slot := 1, leaseId := some 3, summary := [] }, .tick 0 13 {},
        .resume 15 {}]
    x.1.db.run.state = .running ∧ pausedSeconds 20 x.1.db.run = 5 := by
  intro x
  have h : Runs (observe (Sys.step {}) PauseLog.see) (fun a x => Forward a x ∧ PauseHeld a x.1)
      (Sys.start (plainDb 2), { clock := 0 }) _ (x.1, x.2) := Runs.of_check (by decide +kernel)
  have hr := (pause_clock_right (provisionRun_plain (by decide)) h).2 20 (by decide +kernel)
  exact ⟨by decide +kernel, hr.trans (by decide +kernel)⟩

/-- The final of the only worker completes the paused run at 12, and its pause stays open. -/
theorem pause_left_open :
    ¬ ∀ (cfg : Settings) (now₀ : Time) (spec : Snapshot) (db : Db) (as : List Action) (s : Sys)
      (w : PauseLog), provisionRun now₀ spec = .ok db →
      Runs (observe (Sys.step cfg) PauseLog.see) Forward (Sys.start db, { clock := now₀ }) as
        (s, w) →
      (s.db.run.pausedAt.isSome = true ↔ s.db.run.state = .paused) ∧
        ∀ now, w.clock ≤ now → pausedSeconds now s.db.run =
          w.spent + if s.db.run.state = .paused then now - w.clock else 0 := by
  intro h
  have hs := (h {} 0 (plainSpec 1) (plainDb 1)
    [.launch 1 swarmRun, .claim 2 "w0" none, .ready 3 0 (some 1),
      .release 4 0, .heartbeat 6 { slot := 0, leaseId := some 1 }, .pause 10 {},
      .final 12 { slot := 0, leaseId := some 1, summary := [("events_total", .num 40)] }]
    _ _ (provisionRun_plain (by decide)) (Runs.of_check (by decide +kernel))).1
  revert hs
  decide +kernel

end Stoker
