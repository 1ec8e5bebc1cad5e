import Stoker.Server.Turns

/-!
# A released run is shown as released

Once T0 is set, the run should be shown as releasing or in a later state. Every step that sets T0
makes the run `releasing`, and the steps that follow only move it on. The exception is the end of a
launch: workers can claim and get ready while the workload is still being created, and the launch
then writes `provisioning` over the release. In a run whose launch ends before T0 is set, the state
is never behind.
-/

namespace Stoker

open Transition

def RunState.released : RunState → Bool
  | .releasing | .running | .paused | .draining | .completed | .stopped | .failed => true
  | .pending | .preparing | .provisioning => false

lemma RunState.released_of_terminal {s : RunState} (h : s.terminal = true) : s.released = true := by
  revert h
  cases s <;> decide

/-- A launch that succeeds ends before the run is released. -/
def LaunchFirst (a : Action) (s : Sys) : Prop :=
  match a with
  | .launch _ (.launched _) => s.launching.isSome = true → s.db.run.t0 = none
  | _ => True

instance (a : Action) (s : Sys) : Decidable (LaunchFirst a s) :=
  match a with
  | .launch _ (.launched _) => inferInstanceAs (Decidable (_ → _))
  | .launch _ .driverError | .launch _ .crashed | .claim .. | .ready .. | .release ..
  | .heartbeat .. | .final .. | .stop .. | .pause .. | .resume .. | .scale .. | .rescale ..
  | .tick .. | .reconcile .. => isTrue trivial

/-! ### T0 is set in a run that has come far enough -/

/-- A releasing, running or paused run has a T0. -/
def Anchored (x : RunState × Option Time) : Prop :=
  x.1 = .releasing ∨ x.1 = .running ∨ x.1 = .paused → x.2.isSome = true

variable {s : Sys} {x y : RunState × Option Time} {now : Time} {spec : Snapshot}

lemma Anchored.move (hm : Move x y) (h : Anchored x) : Anchored y := by
  cases hm with
  | release _ | cross => exact fun _ => rfl
  | drain _ => simp [Anchored]
  | @finish s s' t0 _ h' =>
    intro hs
    have hs' : s' = .releasing ∨ s' = .running ∨ s' = .paused := hs
    rcases hs' with rfl | rfl | rfl <;> cases h'

/-- The stored run has a T0 if it needs one, and so have the rows that ready posts still hold. -/
def Sys.Anchored (s : Sys) : Prop :=
  Stoker.Anchored s.db.run.stage ∧ ∀ p ∈ s.readying, Stoker.Anchored p.1.stage

/-- A ready post holds the run row as it was stored when the post came in. -/
lemma Sys.step_readying (cfg : Settings) (a : Action) (s : Sys) {p : Run × Lease}
    (h : p ∈ (Sys.step cfg a s).readying) : p ∈ s.readying ∨ p.1 = s.db.run := by
  have hstep := Sys.step_happens cfg a s
  generalize Sys.step cfg a s = t at hstep h
  cases hstep with
  | ready =>
    rcases List.mem_append.1 h with h | h
    · exact .inl h
    · rw [List.mem_singleton.1 h]
      exact .inr rfl
  | release => exact .inl (List.mem_of_mem_eraseIdx h)
  | _ => exact .inl h

variable {db : Db}

/-- The end of a launch does not take the run to a state that needs a T0. -/
lemma finishLaunch_anchored (now : Time) (result : LaunchResult) (loaded : Run)
    (h : Anchored db.run.stage) : Anchored (finishLaunch now result loaded db).run.stage := by
  have ht := (finishLaunch_frame now result loaded db).2.1
  have hs := finishLaunch_state now result loaded db
  unfold Run.stage
  rw [ht, hs]
  cases result with
  | launched ref | driverError =>
    dsimp only [flushColumn]
    split_ifs
    · exact h
    · simp [Anchored]
  | crashed => exact h

lemma finishReady_anchored (now : Time) (loaded : Run) (own : Lease)
    (h : Anchored db.run.stage) : Anchored (finishReady now loaded own db).run.stage := by
  rcases finishReady_cases now loaded own db with he | ⟨_, _, _, ht, _⟩
  · rw [he]
    exact h
  · intro _
    unfold Run.stage
    rw [ht]
    rfl

lemma Sys.Anchored.step (cfg : Settings) (a : Action) (h : s.Anchored) :
    (Sys.step cfg a s).Anchored := by
  refine ⟨?_, fun p hp => ?_⟩
  · have hturn := Sys.step_turn cfg a s
    generalize (Sys.step cfg a s).db = db at hturn ⊢
    cases hturn with
    | same => exact h.1
    | onward _ ho => exact ho.rule (fun _ _ => Anchored.move) h.1
    | launch _ => exact finishLaunch_anchored _ _ _ h.1
    | release _ => exact finishReady_anchored _ _ _ h.1
    | stop _ hstage _ ho =>
      refine ho.rule (fun _ _ => Anchored.move) ?_
      rw [hstage]
      simp [Stoker.Anchored]
    | pause hs hstage _ =>
      rw [hstage]
      exact fun _ => h.1 (.inr (.inl hs))
    | resume hs hstage _ =>
      rw [hstage]
      exact fun _ => h.1 (.inr (.inr hs))
  · rcases Sys.step_readying cfg a s hp with hp | hp
    · exact h.2 p hp
    · rw [hp]
      exact h.1

lemma Sys.Anchored.start (h : provisionRun now spec = .ok db) : (Sys.start db).Anchored := by
  obtain ⟨_, shares, _, rfl⟩ := provisionRun_ok h
  refine ⟨?_, fun p hp => (by cases hp)⟩
  simp [Stoker.Anchored, Sys.start, provisionedDb, Run.stage]

/-! ### The state is never behind -/

def ShownReleased (x : RunState × Option Time) : Prop := x.2.isSome = true → x.1.released = true

lemma ShownReleased.move (hm : Move x y) (h : ShownReleased x) :
    ShownReleased y := by
  cases hm with
  | release _ | cross | drain _ => exact fun _ => rfl
  | finish _ h' => exact fun _ => RunState.released_of_terminal h'

/-- The end of a ready post that sets T0 makes the run `releasing`, or finds it with a T0. -/
lemma finishReady_shown (now : Time) {loaded : Run} (own : Lease)
    (hl : Anchored loaded.stage) (h : ShownReleased db.run.stage) :
    ShownReleased (finishReady now loaded own db).run.stage := by
  rcases finishReady_cases now loaded own db with he | ⟨ht, _, _, _, hs, _⟩
  · rw [he]
    exact h
  · have hne : loaded.state ≠ .releasing := by
      intro hs
      have hset := hl (.inl hs)
      simp [Run.stage, ht] at hset
    intro _
    unfold Run.stage
    rw [hs, if_neg hne]
    rfl

lemma ShownReleased.step (cfg : Settings) {a : Action} (hg : LaunchFirst a s) (ha : s.Anchored)
    (h : ShownReleased s.db.run.stage) : ShownReleased (Sys.step cfg a s).db.run.stage := by
  have hturn := Sys.step_turn cfg a s
  generalize (Sys.step cfg a s).db = db at hturn ⊢
  cases hturn with
  | same => exact h
  | onward _ ho => exact ho.rule (fun _ _ => ShownReleased.move) h
  | @launch now result loaded hl =>
    have ht := (finishLaunch_frame now result loaded s.db).2.1
    have hs := finishLaunch_state now result loaded s.db
    unfold Run.stage
    rw [ht, hs]
    cases result with
    | launched ref =>
      have hnone : s.db.run.t0 = none := hg (by simp [hl])
      rw [hnone]
      simp [ShownReleased]
    | driverError =>
      dsimp only [flushColumn]
      split_ifs
      · exact h
      · exact fun _ => rfl
    | crashed => exact h
  | @release now i loaded own hi =>
    exact finishReady_shown now own (ha.2 _ (List.mem_of_getElem? hi)) h
  | stop _ hstage _ ho =>
    refine ho.rule (fun _ _ => ShownReleased.move) ?_
    rw [hstage]
    exact fun _ => rfl
  | pause _ hstage _ | resume _ hstage _ =>
    rw [hstage]
    exact fun _ => rfl

/-- In a run whose launch ends before T0 is set, T0 is set only in a releasing, running, paused,
draining or ended run. -/
theorem released_run_shown {cfg : Settings} {db : Db} {as : List Action}
    (hp : provisionRun now spec = .ok db)
    (h : Runs (Sys.step cfg) LaunchFirst (Sys.start db) as s) :
    s.db.run.t0.isSome = true → s.db.run.state.released = true := by
  refine h.invariant_under (I := Sys.Anchored) (J := fun s => ShownReleased s.db.run.stage) ?_ ?_
    (Sys.Anchored.start hp) ?_
  · exact fun a s _ hs => hs.step cfg a
  · exact fun a s hg ha hs => hs.step cfg hg ha
  · obtain ⟨_, shares, _, rfl⟩ := provisionRun_ok hp
    simp [ShownReleased, Sys.start, provisionedDb, Run.stage]

/-- A plain run whose launch ends before its worker gets ready is shown as running once the worker
has crossed T0. -/
theorem released_run_shown_running :
    let s := exec (Sys.step {}) (Sys.start (plainDb 1))
      [.launch 1 swarmRun, .claim 2 "w0" none, .ready 3 0 (some 1),
        .release 4 0, .heartbeat 6 { slot := 0, leaseId := some 1 }, .tick 0 7 {}]
    s.db.run.t0 = some 6 ∧ s.db.run.state.released = true := by
  intro s
  have h : Runs (Sys.step {}) LaunchFirst (Sys.start (plainDb 1)) _ s :=
    Runs.of_check (by decide +kernel)
  have ht : s.db.run.t0 = some 6 := by decide +kernel
  exact ⟨ht, released_run_shown (provisionRun_plain (by decide)) h (by rw [ht]; rfl)⟩

/-- The worker claims and gets ready while the workload is still being created: T0 is set, and the
launch then writes `provisioning` over the release. -/
theorem released_run_shown_provisioning :
    ¬ ∀ (cfg : Settings) (now : Time) (spec : Snapshot) (db : Db) (as : List Action) (s : Sys),
      provisionRun now spec = .ok db → Runs (Sys.step cfg) Always (Sys.start db) as s →
      s.db.run.t0.isSome = true → s.db.run.state.released = true := by
  intro h
  have hs := h {} 0 (plainSpec 1) (plainDb 1)
    [.claim 1 "w0" none, .ready 2 0 (some 1), .release 3 0,
      .heartbeat 5 { slot := 0, leaseId := some 1 }, .launch 6 swarmRun]
    _ (provisionRun_plain (by decide)) (Runs.always _ _)
  revert hs
  decide +kernel

end Stoker
