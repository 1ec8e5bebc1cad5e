import Stoker.Lifecycle.Released
import Stoker.Worker.Waiting

/-!
# Nothing starts in a pause

A heartbeat of a paused run is answered with the pause, but the release goes first: a lease that is
claimed or ready is answered with the release, pause or not, and a slice that is handed out in a
pause says that the run is released, so that its worker starts as soon as it is ready. In a run that
is paused only when no worker past its preparation is still claimed or ready, and in which no ready
post is served in a pause, every heartbeat of a slot holder is answered with the pause, and no
worker starts.
-/

namespace Stoker

open Transition

/-! ### How a run comes to be paused -/

lemma Run.Onward.paused {r r' : Run} (h : r.Onward r') (hp : r'.state = .paused) :
    r.state = .paused := by
  refine h.rule (P := fun x => x.1 = .paused → r.state = .paused) (fun x y hm _ hy => ?_) id hp
  cases hm with
  | release _ | cross | drain _ => cases hy
  | @finish _ s' _ _ ht =>
    have hs' : s' = .paused := hy
    rw [hs'] at ht
    cases ht

lemma Sys.step_paused (cfg : Settings) (a : Action) (s : Sys)
    (hp : (Sys.step cfg a s).db.run.state = .paused) :
    s.db.run.state = .paused ∨ ∃ now env, a = .pause now env := by
  have hturn := Sys.step_turn cfg a s
  generalize (Sys.step cfg a s).db = db at hp hturn
  cases hturn with
  | same => exact .inl hp
  | onward _ h => exact .inl (h.paused hp)
  | @launch now result loaded _ =>
    rw [finishLaunch_state] at hp
    cases result <;> dsimp only [flushColumn] at hp <;> try split_ifs at hp
    all_goals exact .inl hp
  | @release now i loaded own _ =>
    rcases finishReady_cases now loaded own s.db with h | ⟨_, _, _, _, hs, _⟩
    · rw [h] at hp
      exact .inl hp
    · rw [hs] at hp
      split_ifs at hp
      exact .inl hp
  | stop _ stage _ h =>
    have hr := congrArg Prod.fst stage
    cases hr.symm.trans (h.paused hp)
  | @pause now env _ _ _ _ => exact .inr ⟨now, env, rfl⟩
  | resume _ stage _ =>
    have hr := congrArg Prod.fst stage
    cases hr.symm.trans hp

/-! ### Answers in a pause -/

/-- A lease that is waiting for the release. -/
def Lease.due (l : Lease) : Prop := l.state = .claimed ∨ l.state = .ready

instance (l : Lease) : Decidable l.due := inferInstanceAs (Decidable (_ ∨ _))

@[simp] lemma renewLease_due (now : Time) (hb : Heartbeat) (l : Lease) :
    (renewLease now hb l).due ↔ l.due := by
  unfold Lease.due
  rw [(renewLease_frame now hb l).2.1]

variable {now : Time}

/-- A lease that is not waiting for the release is answered with the pause, and does not wait
afterwards. -/
lemma heartbeatCommand_paused {run : Run} {version : ℤ} {l : Lease} (hp : run.state = .paused)
    (ht : run.t0.isSome = true) (hl : ¬ l.due) :
    ((heartbeatCommand now run version l).command = .pause ∨
      (heartbeatCommand now run version l).command = .drain) ∧
      ¬ (heartbeatCommand now run version l).lease.due := by
  cases heartbeatCommand_answer now run version l with
  | drain _ h =>
    rw [h]
    exact ⟨.inr rfl, hl⟩
  | release _ _ _ hdue => exact absurd hdue hl
  | pause _ _ _ h =>
    rw [h]
    exact ⟨.inl rfl, heardState_not_due ht hl⟩
  | retarget _ _ hno | continue_ _ _ hno => exact absurd hp hno

lemma Worker.handle_shut {t : Time} {reply : Reply} {w : Worker} (hb : w.beats now = true)
    (hc : reply.command = .pause ∨ reply.command = .drain ∨ reply.command = .superseded) :
    (w.handle now reply).isOpen t = false := by
  obtain ⟨hd, hprep⟩ := running_of_beats hb
  unfold handle
  rw [if_neg (by simp [hd])]
  rcases hc with hc | hc | hc <;> rw [hc]
  · rw [if_neg (by simp)]
    cases hp : w.phase with
    | preparing => exact absurd hp hprep
    | waiting => simp [isOpen, awaitRelease]
    | started t0 => simp [isOpen, applyCommand, hc]
  · rw [if_neg (by simp)]
    cases hp : w.phase with
    | preparing => exact absurd hp hprep
    | waiting => simp [isOpen, awaitRelease]
    | started t0 => simp [isOpen, applyCommand, hc]
  · rw [if_pos rfl]
    simp [isOpen]

/-! ### The condition -/

namespace Fleet

/-- The run is paused only when the lease of every worker past its preparation has been released,
and no ready post is served while it is. -/
def PausedClear (e : Event) (f : Fleet) : Prop :=
  match e with
  | .server (.pause _ _) => ∀ w ∈ f.workers, w.phase ≠ .preparing →
      ∀ l ∈ f.sys.db.leases, Holds w l → ¬ l.due
  | .ready _ _ => f.sys.db.run.state ≠ .paused
  | _ => True

instance (e : Event) (f : Fleet) : Decidable (PausedClear e f) := by
  unfold PausedClear
  split <;> infer_instance

lemma step_paused (cfg : Settings) (e : Event) (f : Fleet)
    (hp : (step cfg e f).sys.db.run.state = .paused) :
    f.sys.db.run.state = .paused ∨ ∃ now env, e = .server (.pause now env) := by
  rcases step_sys cfg e f with h | ⟨a, h, he, _⟩ <;> rw [h] at hp
  · exact .inl hp
  · rcases Sys.step_paused cfg a f.sys hp with hp | ⟨now, env, rfl⟩
    · exact .inl hp
    · rcases he with he | he
      · exact .inr ⟨now, env, he⟩
      · cases he

lemma step_anchored (cfg : Settings) (e : Event) {f : Fleet} (h : f.sys.Anchored) :
    (step cfg e f).sys.Anchored := by
  rcases step_sys cfg e f with hs | ⟨a, hs, _⟩ <;> rw [hs]
  · exact h
  · exact h.step cfg a

/-! ### What holds in a pause -/

/-- In a pause the lease of a worker past its preparation does not wait for the release. -/
def Undue (f : Fleet) : Prop :=
  f.sys.db.run.state = .paused → ∀ w ∈ f.workers, w.phase ≠ .preparing →
    ∀ l ∈ f.sys.db.leases, Holds w l → ¬ l.due

lemma aged_not_due {silent : List LeaseId} {l l' : Lease} (h : l.Ages silent l') (hl : ¬ l.due) :
    ¬ l'.due := by
  rcases h.state with hs | hs
  · unfold Lease.due
    rw [hs]
    exact hl
  · rintro (hdue | hdue) <;> rw [hdue] at hs <;> cases hs

lemma Undue.step (cfg : Settings) {e : Event} {f : Fleet} (hg : PausedClear e f) (hf : f.Sound)
    (ha : f.sys.Anchored) (h : f.Undue) : (step cfg e f).Undue := by
  intro hp w' hw' hphase l' hl' hh
  -- before the step no worker past its preparation had a lease that waits for the release
  have hbefore : ∀ w ∈ f.workers, w.phase ≠ .preparing → ∀ l ∈ f.sys.db.leases, Holds w l →
      ¬ l.due := by
    rcases step_paused cfg e f hp with hpaused | ⟨now, env, rfl⟩
    · exact h hpaused
    · exact hg
  cases step_moved cfg hf hw' hl' hh with
  | @aged _ w _ l _ hw hsame hl hold hage =>
    have hprep : w.phase ≠ .preparing := by
      rcases hsame with rfl | rfl
      · exact hphase
      · exact hphase
    exact aged_not_due hage (hbefore w hw hprep l hl hold)
  | claimed _ _ hof => exact absurd (Worker.ofSlice_ok hof).2.2.1 hphase
  | readied hw hprep hl hold =>
    rcases step_paused cfg _ f hp with hpaused | ⟨_, _, hcase⟩
    · exact absurd hpaused hg
    · cases hcase
  | @answered now payload w l reply hw hb hl hold hr hc =>
    have hpaused : f.sys.db.run.state = .paused := by
      rcases step_paused cfg _ f hp with hpaused | ⟨_, _, hcase⟩
      · exact hpaused
      · cases hcase
    have hdue : ¬ (renewLease now (w.heartbeat payload) l).due := by
      rw [renewLease_due]
      exact hbefore w (worker_some hw).1 (Worker.running_of_beats hb).2 l hl hold
    exact (heartbeatCommand_paused hpaused (ha.1 (.inr (.inr hpaused))) hdue).2

section

variable {f : Fleet}

lemma paused_answer {now : Time} {payload : Heartbeat} {w : Worker} {l : Lease} (hf : f.Sound)
    (ha : f.sys.Anchored) (h : f.Undue) (hp : f.sys.db.run.state = .paused) (hw : w ∈ f.workers)
    (hb : w.beats now = true) (hl : l ∈ f.sys.db.leases) (hh : Holds w l) :
    (recordHeartbeat now (w.heartbeat payload) f.sys.db).2.command = .pause ∨
      (recordHeartbeat now (w.heartbeat payload) f.sys.db).2.command = .drain := by
  have hdue : ¬ (renewLease now (w.heartbeat payload) l).due := by
    rw [renewLease_due]
    exact h hp w hw (Worker.running_of_beats hb).2 l hl hh
  have hid : (w.heartbeat payload).leaseId = some l.leaseId := congrArg some hh.2.symm
  rw [recordHeartbeat_command now (hf.findLease hl hh) hid]
  exact (heartbeatCommand_paused hp (ha.1 (.inr (.inr hp))) hdue).1

/-- A worker whose bucket can be open after a step in a pause was there before it, as it is. -/
lemma paused_open (cfg : Settings) {e : Event} (hg : PausedClear e f) (hf : f.Sound)
    (ha : f.sys.Anchored) (h : f.Undue) (hp : f.sys.db.run.state = .paused) {w' : Worker}
    (hw' : w' ∈ (step cfg e f).workers) {t : Time} (ho : w'.isOpen t = true) : w' ∈ f.workers := by
  have hshut : ∀ w : Worker, w.isOpen t = false → w' ≠ w := by
    rintro w hw rfl
    rw [hw] at ho
    cases ho
  have hstep := step_happens cfg e f
  generalize step cfg e f = f' at hstep hw'
  cases hstep with
  | idle | served => exact hw'
  | claimed _ _ hslice =>
    rcases Roster.mem_put hw' with rfl | ⟨hmem, _⟩
    · refine absurd rfl (hshut w' ?_)
      simp [Worker.isOpen, (Worker.ofSlice_ok hslice).2.2.1]
    · exact hmem
  | unread | ended => exact (List.mem_filter.1 hw').1
  | readied => exact absurd hp hg
  | @answered now payload w hworker hbeats =>
    rcases Roster.mem_put hw' with rfl | ⟨hmem, _⟩
    · refine absurd rfl (hshut _ (Worker.handle_shut hbeats ?_))
      rcases recordHeartbeat_cases now (w.heartbeat payload) f.sys.db with
        ⟨hsup, _⟩ | ⟨l, hl, hid, _⟩
      · rw [hsup]
        exact .inr (.inr rfl)
      · obtain ⟨hmem, hslot⟩ := findLease_some hl
        have hh : Holds w l := ⟨hslot, (Option.some.inj hid).symm⟩
        rcases paused_answer hf ha h hp (worker_some hworker).1 hbeats hmem hh with hc | hc
        · exact .inl hc
        · exact .inr (.inl hc)
    · exact hmem
  | drained =>
    rcases Roster.mem_put hw' with rfl | ⟨hmem, _⟩
    · exact absurd rfl (hshut _ (by simp [Worker.isOpen]))
    · exact hmem

end

end Fleet

/-- In a run that is paused only when every worker past its preparation has been released, and in
which no ready post is served in a pause, every heartbeat of a slot holder in a pause is answered
with the pause or a drain, and no step of a pause opens a bucket. -/
theorem pause_nothing_starts {cfg : Settings} {now₀ : Time} {spec : Snapshot} {db : Db}
    {es : List Event} {f : Fleet} (hp : provisionRun now₀ spec = .ok db)
    (h : Runs (Fleet.step cfg) Fleet.PausedClear (Fleet.start db) es f)
    (hpaused : f.sys.db.run.state = .paused) :
    (∀ w ∈ f.workers, ∀ l ∈ f.sys.db.leases, Fleet.Holds w l → ∀ now payload, w.beats now = true →
      (recordHeartbeat now (w.heartbeat payload) f.sys.db).2.command = .pause ∨
        (recordHeartbeat now (w.heartbeat payload) f.sys.db).2.command = .drain) ∧
    ∀ e, Fleet.PausedClear e f → ∀ w' ∈ (Fleet.step cfg e f).workers, ∀ t, w'.isOpen t = true →
      w' ∈ f.workers := by
  have hinv : (f.Sound ∧ f.sys.Anchored) ∧ f.Undue := by
    refine h.invariant (I := fun f => (f.Sound ∧ f.sys.Anchored) ∧ f.Undue) (fun e f hg hf => ?_)
      ⟨⟨Fleet.start_sound hp, Sys.Anchored.start hp⟩, fun _ w hw => by cases hw⟩
    exact ⟨⟨hf.1.1.step cfg e, Fleet.step_anchored cfg e hf.1.2⟩, hf.2.step cfg hg hf.1.1 hf.1.2⟩
  obtain ⟨⟨hf, ha⟩, hu⟩ := hinv
  refine ⟨fun w hw l hl hh now payload hb => ?_, fun e hg w' hw' t ho => ?_⟩
  · exact Fleet.paused_answer hf ha hu hpaused hw hb hl hh
  · exact Fleet.paused_open cfg hg hf ha hu hpaused hw' ho

/-- A worker generates, the run is paused, and another one claims the slot that was lost
meanwhile. -/
def claimedInPause : List Event :=
  [.server (.launch 1 swarmRun), .claim 2 "w0" none, .claim 3 "w1" none, .ready 4 "w0",
    .ready 5 "w1", .server (.release 6 1), .heartbeat 20 "w0" { slot := 0, leaseId := none },
    .heartbeat 21 "w1" { slot := 1, leaseId := none }, .server (.pause 70 {}),
    .heartbeat 71 "w0" { slot := 0, leaseId := none }, .server (.tick 0 90 {}), .claim 91 "w2" none]

theorem pause_nothing_starts_held :
    let f := exec (Fleet.step {}) (Fleet.start (plainDb 2)) claimedInPause
    f.sys.db.run.state = .paused ∧
    (∀ w ∈ f.workers, ∀ l ∈ f.sys.db.leases, Fleet.Holds w l → ∀ now payload, w.beats now = true →
      (recordHeartbeat now (w.heartbeat payload) f.sys.db).2.command = .pause ∨
        (recordHeartbeat now (w.heartbeat payload) f.sys.db).2.command = .drain) ∧
    ∀ e, Fleet.PausedClear e f → ∀ w' ∈ (Fleet.step {} e f).workers, ∀ t, w'.isOpen t = true →
      w' ∈ f.workers := by
  intro f
  have hpaused : f.sys.db.run.state = .paused := by decide +kernel
  have h : Runs (Fleet.step {}) Fleet.PausedClear (Fleet.start (plainDb 2)) _ f :=
    Runs.of_check (by decide +kernel)
  exact ⟨hpaused, pause_nothing_starts (provisionRun_plain (by decide)) h hpaused⟩

/-- The worker that claimed the lost slot posts ready, and generates in the pause. -/
theorem pause_claimed_starts :
    ¬ ∀ (cfg : Settings) (now₀ : Time) (spec : Snapshot) (db : Db) (es : List Event) (f : Fleet),
      provisionRun now₀ spec = .ok db →
      Runs (Fleet.step cfg) (fun _ _ => True) (Fleet.start db) es f →
      f.sys.db.run.state = .paused →
      (∀ w ∈ f.workers, ∀ l ∈ f.sys.db.leases, Fleet.Holds w l → ∀ now payload, w.beats now = true →
        (recordHeartbeat now (w.heartbeat payload) f.sys.db).2.command = .pause ∨
          (recordHeartbeat now (w.heartbeat payload) f.sys.db).2.command = .drain) ∧
      ∀ e, ∀ w' ∈ (Fleet.step cfg e f).workers, ∀ t, w'.isOpen t = true → w' ∈ f.workers := by
  intro h
  have hs := (h {} 0 (plainSpec 2) (plainDb 2) claimedInPause
    _ (provisionRun_plain (by decide)) (Runs.of_check (by decide +kernel)) (by decide +kernel)).2
    (.ready 95 "w2")
  have hopen := fun w' hw' => hs w' hw' 95
  revert hopen
  decide +kernel

end Stoker
