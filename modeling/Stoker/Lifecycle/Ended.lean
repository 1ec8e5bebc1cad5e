import Stoker.Server.Pass

/-!
# Ended runs and requested stops

A run that is completed, stopped or failed should keep that state, and one that is draining should
drain or end. Every writer but two decides on the stored state. The end of a launch and the end of a
ready post write a state they chose from a row loaded before their first commit, so a stop that
lands in between is undone. When neither writes from a row older than the stop, stops are kept.
-/

namespace Stoker

open Transition

instance (a b : RunState) : Decidable (StopKept a b) := inferInstanceAs (Decidable (_ ∧ _))

/-- Draining, or ended. -/
def RunState.stopping (s : RunState) : Bool := s = .draining || s.terminal

/-- The two handlers that go on with an old run row do not meet a stop made since: a launch that
succeeds finds the run neither draining nor ended, one that fails finds it not ended otherwise, and
the end of a ready post that writes a state finds the run neither draining nor ended. -/
def StopSeen (a : Action) (s : Sys) : Prop :=
  match a with
  | .launch _ (.launched _) => s.launching.isSome = true → s.db.run.state.stopping = false
  | .launch _ .driverError =>
    s.launching.isSome = true → s.db.run.state.terminal = true → s.db.run.state = .failed
  | .release now i => ∀ p ∈ s.readying[i]?,
      (finishReady now p.1 p.2 s.db).run.state ≠ s.db.run.state → s.db.run.state.stopping = false
  | _ => True

instance (a : Action) (s : Sys) : Decidable (StopSeen a s) := by
  unfold StopSeen
  split <;> infer_instance

variable {a b : RunState} {db : Db}

lemma StopKept.of_not_stopping (h : a.stopping = false) : StopKept a b := by
  simp only [RunState.stopping, Bool.or_eq_false_iff, decide_eq_false_iff_not] at h
  exact StopKept.of_active h.2 h.1

lemma StopKept.stopping (h : StopKept a b) (ha : a.stopping = true) :
    b.stopping = true := by
  simp only [RunState.stopping, Bool.or_eq_true, decide_eq_true_eq] at ha ⊢
  rcases ha with ha | ha
  · exact h.2 ha
  · rw [h.1 ha]
    exact .inr ha

lemma releasable_of_stopping (h : a.stopping = true) : a.releasable = false := by
  revert h
  cases a <;> decide

/-- A run that is draining or has ended does not come back by itself. -/
lemma Run.Onward.stopping {r r' : Run} (h : r.Onward r') (hs : r.state.stopping = true) :
    r'.state.stopping = true := by
  refine h.rule (P := fun x => x.1.stopping = true) ?_ hs
  intro x y hm hx
  cases hm with
  | release hr =>
    rw [releasable_of_stopping hx] at hr
    cases hr
  | cross => cases hx
  | drain _ => rfl
  | finish _ ht =>
    have ht' := ht
    simp [RunState.stopping, ht']

/-! ### One step -/

variable {now : Time}

lemma finishLaunch_stopKept {result : LaunchResult} {loaded : Run}
    (hok : ∀ ref, result = .launched ref → db.run.state.stopping = false)
    (herr : result = .driverError → db.run.state.terminal = true → db.run.state = .failed) :
    StopKept db.run.state (finishLaunch now result loaded db).run.state := by
  rw [finishLaunch_state]
  cases result with
  | launched ref => exact StopKept.of_not_stopping (hok ref rfl)
  | crashed => exact StopKept.refl _
  | driverError =>
    dsimp only [flushColumn]
    split_ifs
    · exact StopKept.refl _
    · refine ⟨fun ht => (herr rfl ht).symm, fun _ => .inr rfl⟩

lemma evaluateRelease_stopKept {force : Bool} :
    StopKept db.run.state (evaluateRelease now force db).db.run.state := by
  rcases evaluateRelease_cases now force db with h | ⟨_, hr, _⟩
  · rw [h]
    exact StopKept.refl _
  · apply StopKept.of_not_stopping
    by_contra hs
    rw [releasable_of_stopping (by simpa using hs)] at hr
    cases hr

lemma supervisorTick_stopKept (cfg : Settings) (boot now : Time) (env : Env) (db : Db) :
    StopKept db.run.state (supervisorTick cfg boot now env db).run.state := by
  refine supervisorTick_rule (I := fun d => StopKept db.run.state d.run.state) ?_ ?_ ?_
    (StopKept.refl _)
  · exact fun a b hq ha => ha.trans hq.state
  · exact fun a _ _ _ ha => ha.trans evaluateRelease_stopKept
  · intro a _ _ ha
    rw [(stepDown_frame _ _ a).1]
    exact ha

lemma step_stopKept (cfg : Settings) (a : Action) (s : Sys) (hg : StopSeen a s) :
    StopKept s.db.run.state (Sys.step cfg a s).db.run.state := by
  have hstep := Sys.step_stored cfg a s
  generalize (Sys.step cfg a s).db = db at hstep ⊢
  cases hstep with
  | quiet hq => exact hq.state
  | launch hl =>
    refine finishLaunch_stopKept ?_ ?_
    · rintro ref rfl
      exact hg (by simp [hl])
    · rintro rfl
      exact hg (by simp [hl])
  | claim hc =>
    rw [claimLease_run hc]
    exact StopKept.refl _
  | ready hm => exact (Upkeep.ready hm).state.stopKept
  | @release now _ loaded own hi =>
    by_cases hsame : (finishReady now loaded own s.db).run.state = s.db.run.state
    · rw [hsame]
      exact StopKept.refl _
    · exact StopKept.of_not_stopping (hg (loaded, own) (by simp [hi]) hsame)
  | heartbeat => exact (recordHeartbeat_run _ _ s.db).1.stopKept
  | scale h =>
    obtain ⟨_, _, shares, _, rfl⟩ := scaleRunEndpoint_ok h
    exact StopKept.refl _
  | rescale _ h =>
    rw [(rescaleRun_frame h).1]
    exact StopKept.refl _
  | tick => exact supervisorTick_stopKept cfg _ _ _ s.db

/-! ### Whole runs -/

end Stoker
