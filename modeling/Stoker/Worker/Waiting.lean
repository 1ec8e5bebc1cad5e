import Stoker.Worker.Fleet

/-!
# No worker is left waiting

A worker that waits goes on waiting until a heartbeat is answered with the release, and the control
plane sends the release by the state of the lease: to claimed and ready leases. So the lease of a
worker that still waits must not be running. It is not, unless a lost lease is brought back by a
heartbeat once T0 is set: then it goes straight to running.
-/

namespace Stoker

open Transition

instance (w : Worker) (l : Lease) : Decidable (Fleet.Holds w l) :=
  inferInstanceAs (Decidable (_ ∧ _))

/-- Once T0 is set, a worker that still waits is heard from only while its lease is live. -/
def HeardLive (e : Event) (f : Fleet) : Prop :=
  match e with
  | .heartbeat _ holder _ => f.sys.db.run.t0.isSome = true → ∀ w ∈ f.worker holder,
      w.phase = .waiting → ∀ l ∈ f.sys.db.leases, Fleet.Holds w l → l.state.live = true
  | _ => True

instance (e : Event) (f : Fleet) : Decidable (HeardLive e f) := by
  unfold HeardLive
  split <;> infer_instance

/-! ### No lease runs before T0 -/

def EarlyIdle (db : Db) : Prop := db.run.t0 = none → ∀ l ∈ db.leases, l.state ≠ .running

variable {now : Time}

namespace EarlyIdle

variable {db db' : Db}

lemma ages (h : EarlyIdle db) (ha : Ages db db') : EarlyIdle db' := by
  intro ht l' hl' hrun
  rcases ha.leases l' hl' with ⟨_, hst⟩ | ⟨l, hl, hage⟩
  · rw [hrun] at hst
    cases hst
  · rcases hage.state with hst | hst
    · exact h (ha.t0 ht) l hl (hst.symm.trans hrun)
    · rw [hrun] at hst
      cases hst

variable {slot : ℕ}

lemma upkeep {leaseId : Option LeaseId} (h : EarlyIdle db) (hu : Upkeep slot leaseId db db') :
    EarlyIdle db' := by
  intro ht l' hl' hrun
  obtain ⟨l, hl, hk⟩ := forall₂_exists_of_mem hu.leases hl'
  have ht' := hu.t0.symm.trans ht
  rcases hk.running hrun with hrun | hset
  · exact h ht' l hl hrun
  · rw [ht'] at hset
    cases hset

lemma takeover (now : Time) (slot : ℕ) (h : EarlyIdle db) :
    EarlyIdle (reapportionOnTakeover now slot db) := by
  intro ht l' hl'
  rw [(reapportionOnTakeover_frame now slot db).1] at ht
  have hstate := List.mem_map_of_mem (f := Lease.state) hl'
  rw [reapportionOnTakeover_map now db (takeoverShare_state slot)] at hstate
  obtain ⟨l, hl, heq⟩ := List.mem_map.1 hstate
  exact heq ▸ h ht l hl

lemma claim {holder : String} {hint : Option ℕ} (h : EarlyIdle db)
    (hc : claimLease now holder hint db = .ok (db', slot)) : EarlyIdle db' := by
  refine claimLease_rule hc (fun _ _ ha => ha) (fun _ => h.upkeep) ?_ fun _ hi =>
    hi.takeover now slot
  intro ht l' hl'
  obtain ⟨l, hl, rfl⟩ := mem_updateLease.1 hl'
  split_ifs
  · simp [issueLease]
  · exact h ht l hl

theorem step (cfg : Settings) (a : Action) {s : Sys} (hs : s.registry.Sound)
    (h : EarlyIdle s.db) : EarlyIdle (Sys.step cfg a s).db := by
  by_cases ha : a.byWorker = false
  · exact h.ages (Ages.step cfg hs ha)
  · have hstep := Sys.step_stored cfg a s
    generalize (Sys.step cfg a s).db = db at hstep ⊢
    cases hstep with
    | quiet hq => exact h.ages (Ages.mild hq.mild)
    | launch | release | scale | rescale | tick => exact absurd rfl ha
    | claim hc => exact h.claim hc
    | ready hm => exact h.upkeep (.ready hm)
    | heartbeat => exact h.upkeep (.heartbeat _ _ (Sys.nodup_slots hs) fun _ => rfl)

end EarlyIdle

/-! ### The lease of a worker that waits -/

/-- The worker still has to be told to start. -/
def Worker.Untold (w : Worker) : Prop :=
  w.draining = false ∧ w.released = false ∧ (w.phase = .preparing ∨ w.phase = .waiting)

/-- No lease of a worker that still has to be told is running. -/
def UntoldIdle (f : Fleet) : Prop :=
  ∀ w ∈ f.workers, w.Untold → ∀ l ∈ f.sys.db.leases, Fleet.Holds w l → l.state ≠ .running

variable {f : Fleet} {l : Lease} {e : Event} {spec : Snapshot} {db : Db}

/-- An answer that leaves the worker waiting leaves its lease idle. -/
lemma idle_of_answer {run : Run} {version : ℤ} (hidle : l.state ≠ .running)
    (hlive : run.t0.isSome = true → l.state.live = true)
    (hno : ∀ t0, (heartbeatCommand now run version l).command ≠ .release t0) :
    (heartbeatCommand now run version l).lease.state ≠ .running := by
  cases heartbeatCommand_answer now run version l with
  | drain _ h =>
    rw [h]
    exact hidle
  | release t0 _ _ _ h => exact absurd (congrArg Decision.command h) (hno t0)
  | pause _ _ _ h | retarget _ _ _ _ h | continue_ _ _ _ _ h =>
    rw [h]
    dsimp only [heardState]
    by_cases hlost : l.state = .lost
    · by_cases ht : run.t0.isSome = true
      · simp [LeaseState.live, hlost] at hlive
        simp [hlive] at ht
      · simp [hlost, ht]
    · rwa [if_neg hlost]

theorem UntoldIdle.step (cfg : Settings) (hg : HeardLive e f) (hf : f.Sound)
    (hearly : EarlyIdle (Fleet.step cfg e f).sys.db) (h : UntoldIdle f) :
    UntoldIdle (Fleet.step cfg e f) := by
  intro w' hw' hun l' hl' hh'
  have hmoved := Fleet.step_moved cfg hf hw' hl' hh'
  cases hmoved with
  | @aged _ w _ l _ hw hsame hl hh ha =>
    have hwun : w.Untold := by
      rcases hsame with rfl | rfl
      · exact hun
      · cases hun.1
    rcases ha.state with hs | hs
    · rw [hs]
      exact h w hw hwun l hl hh
    · intro hrun
      rw [hrun] at hs
      cases hs
  | @claimed now hint db _ _ hc hfind hslice =>
    -- a slice that was not released was handed out before T0
    have hrel : w'.released = db.run.t0.isSome :=
      congrArg (·.2.2.2.2) (Worker.ofSlice_ok hslice).2.1
    rw [Fleet.step_claim_db cfg hc hfind] at hearly
    rw [hun.2.1] at hrel
    exact hearly (by simpa using hrel.symm) l' (findLease_some hfind).1
  | @readied now w l hw hp hl hh =>
    have hidle := h w hw ⟨hun.1, hun.2.1, .inl hp⟩ l hl hh
    simp only [readyLease]
    split_ifs
    · decide
    · exact hidle
  | @answered now payload w l reply hw hb hl hh hr hc =>
    obtain ⟨hdrain, hprep⟩ := Worker.running_of_beats hb
    have hphase : w.phase = .waiting := by
      by_contra hne
      have := hun.2.2
      rw [Worker.handle_phase hne] at this
      rcases this with hp | hp
      · exact hprep hp
      · exact hne hp
    have hno : ∀ t0, reply.command ≠ .release t0 := by
      intro t0 hrel
      have := hun.2.2
      rw [Worker.handle_release hdrain hphase hrel] at this
      rcases this with hp | hp <;> cases hp
    have hwun : w.Untold := by
      refine ⟨hdrain, ?_, .inr hphase⟩
      have := congrArg (·.2.2.2.2) (Worker.handle_ident now reply w)
      exact this.symm.trans hun.2.1
    have hstate := (renewLease_frame now (w.heartbeat payload) l).2.1
    refine idle_of_answer ?_ ?_ ?_
    · rw [hstate]
      exact h w (Fleet.worker_some hw).1 hwun l hl hh
    · intro ht
      rw [hstate]
      exact hg ht w hw hphase l hl hh
    · intro t0
      rw [← hc]
      exact hno t0

/-! ### Whole runs -/

/-- The invariants that the argument needs at every state. -/
structure Tended (f : Fleet) : Prop where
  sound : f.Sound
  early : EarlyIdle f.sys.db
  untold : UntoldIdle f

theorem Tended.step (cfg : Settings) (hg : HeardLive e f) (h : Tended f) :
    Tended (Fleet.step cfg e f) := by
  have hearly : EarlyIdle (Fleet.step cfg e f).sys.db := by
    rcases Fleet.step_sys cfg e f with hs | ⟨a, hs, _⟩ <;> rw [hs]
    · exact h.early
    · exact h.early.step cfg a h.sound.registry
  exact ⟨h.sound.step cfg e, hearly, h.untold.step cfg hg h.sound hearly⟩

lemma Tended.start (h : provisionRun now spec = .ok db) :
    Tended (Fleet.start db) := by
  refine ⟨Fleet.start_sound h, fun _ l hl => ?_, fun w hw => by cases hw⟩
  obtain ⟨_, shares, _, rfl⟩ := provisionRun_ok h
  obtain ⟨i, _, rfl⟩ := List.mem_mapIdx.1 hl
  simp

def Fleet.answer (now : Time) (payload : Heartbeat) (w : Worker) (f : Fleet) : Command :=
  (recordHeartbeat now (w.heartbeat payload) f.sys.db).2.command

/-- In a run in which waiting workers are heard from only while their leases are live, one that was
not told to start, and whose lease id is current, is never told to continue or to change its share
once T0 is set and while the run is under way. -/
theorem never_left_waiting {cfg : Settings} {now t : Time} {es : List Event} {payload : Heartbeat}
    {w : Worker} (hp : provisionRun now spec = .ok db)
    (h : Runs (Fleet.step cfg) HeardLive (Fleet.start db) es f)
    (hg : HeardLive (.heartbeat t w.holder payload) f) (hw : f.worker w.holder = some w)
    (hrel : w.released = false) (hwait : w.phase = .waiting) (hd : w.draining = false)
    (hl : l ∈ f.sys.db.leases) (hh : Fleet.Holds w l) (ht : f.sys.db.run.t0.isSome = true)
    (hrun : f.sys.db.run.state ≠ .draining ∧ f.sys.db.run.state.terminal = false) :
    f.answer t payload w ≠ .continue_ ∧ ∀ share, f.answer t payload w ≠ .retarget share := by
  have htended : Tended f :=
    h.invariant (I := Tended) (fun e f hg hf => hf.step cfg hg) (Tended.start hp)
  have hidle := htended.untold w (Fleet.worker_some hw).1 ⟨hd, hrel, .inr hwait⟩ l hl hh
  have hlive := hg ht w hw hwait l hl hh
  have hdue : l.state = .claimed ∨ l.state = .ready := by
    cases hs : l.state with
    | claimed => exact .inl rfl
    | ready => exact .inr rfl
    | running => exact absurd hs hidle
    | free | lost | done =>
      rw [hs] at hlive
      cases hlive
  obtain ⟨t0, ht0⟩ := Option.isSome_iff_exists.1 ht
  have hserved : Served f.sys.db.run 1 := ⟨hrun.1, hrun.2, by decide⟩
  have hanswer : f.answer t payload w = .release t0 := by
    have hfind : f.sys.db.findLease (w.heartbeat payload).slot = some l :=
      htended.sound.findLease hl hh
    refine (recordHeartbeat_command t hfind (congrArg some hh.2.symm)).trans ?_
    refine congrArg Decision.command (heartbeatCommand_due hserved ht0 ?_)
    rw [(renewLease_frame t _ l).2.1]
    exact hdue
  rw [hanswer]
  exact ⟨by simp, by simp⟩

/-- The only worker of a run has posted ready and T0 is set; its heartbeat after T0 is not answered
with anything but the release. -/
theorem never_left_waiting_single :
    let f := exec (Fleet.step {}) (Fleet.start (plainDb 1))
      [.server (.launch 1 swarmRun), .claim 2 "w0" none, .ready 4 "w0",
        .server (.release 5 0)]
    let w : Worker :=
      { holder := "w0", slot := 0, leaseId := 1, rateMode := .eps, rateValue := 12,
        released := false, effectiveT0 := none, phase := .waiting, lastAck := 4 }
    let payload : Heartbeat := { slot := 0, leaseId := none }
    f.sys.db.run.t0 = some 7 ∧ f.answer 8 payload w ≠ .continue_ ∧
      ∀ share, f.answer 8 payload w ≠ .retarget share := by
  intro f w payload
  have h : Runs (Fleet.step {}) HeardLive (Fleet.start (plainDb 1)) _ f :=
    Runs.of_check (by decide +kernel)
  have hl : ∃ l ∈ f.sys.db.leases, Fleet.Holds w l := by decide +kernel
  obtain ⟨l, hmem, hh⟩ := hl
  exact ⟨by decide +kernel, never_left_waiting (provisionRun_plain (by decide)) h
    (by decide +kernel) (by decide +kernel) rfl rfl rfl hmem hh (by decide +kernel)
    (by decide +kernel)⟩

/-- The only worker of a run posts ready and is to be released at 7, but its next heartbeat comes
only at 62, after its lease has lapsed. The lease is brought back as running, and the worker, which
was never told to start, is told to continue. -/
theorem waiting_told_to_continue :
    ¬ ∀ (cfg : Settings) (now t : Time) (spec : Snapshot) (db : Db) (es : List Event) (f : Fleet)
      (payload : Heartbeat) (w : Worker) (l : Lease), provisionRun now spec = .ok db →
      Runs (Fleet.step cfg) Always (Fleet.start db) es f → f.worker w.holder = some w →
      w.released = false → w.phase = .waiting → w.draining = false → l ∈ f.sys.db.leases →
      Fleet.Holds w l → f.sys.db.run.t0.isSome = true →
      f.sys.db.run.state ≠ .draining ∧ f.sys.db.run.state.terminal = false →
      f.answer t payload w ≠ .continue_ ∧ ∀ share, f.answer t payload w ≠ .retarget share := by
  intro h
  have hl : ∃ l ∈ (exec (Fleet.step {}) (Fleet.start (plainDb 1))
      [.server (.launch 1 swarmRun), .claim 2 "w0" none, .ready 4 "w0",
        .server (.release 5 0), .server (.tick 0 61 {})]).sys.db.leases,
      l.slot = 0 ∧ l.leaseId = 1 := by decide +kernel
  obtain ⟨l, hmem, hh⟩ := hl
  have hno := (h {} 0 62 (plainSpec 1) (plainDb 1) _ _ { slot := 0, leaseId := none }
    { holder := "w0", slot := 0, leaseId := 1, rateMode := .eps, rateValue := 12,
      released := false, effectiveT0 := none, phase := .waiting, lastAck := 4 } l
    (provisionRun_plain (by decide)) (Runs.always _ _) (by decide +kernel) rfl rfl rfl hmem hh
    (by decide +kernel) (by decide +kernel)).1
  revert hno
  decide +kernel

end Stoker
