import Stoker.Lifecycle.Ended
import Stoker.Lifecycle.Heard

/-!
# The automatic aborts

A pass of the supervisor fails a run whose fleet is lost, or whose fleet is refused by the HEC. Both
should need most of the fleet. The abort for HEC auth counts every slot that ever reported a failure
against half the fleet rounded down, so one slot of three is enough, and so is a slot that a scale
has removed since. The abort for lost workers measures the loss from the last heartbeats, not from
the lapses that followed them.
-/

open List

namespace Stoker

open Transition

/-- A step ends the run as failed, for a reason that was not recorded before. -/
def Sys.FailsWith (cfg : Settings) (a : Action) (reason : EndReason) (s : Sys) : Prop :=
  s.db.run.endReason ≠ some reason ∧ (Sys.step cfg a s).db.run.endReason = some reason ∧
    (Sys.step cfg a s).db.run.state = .failed

/-! ### Which check writes which reason -/

def EndReason.abort : EndReason → Bool
  | .autoAbortLost | .autoAbortAuth => true
  | _ => false

/-- No abort was recorded as the reason: it is the old one, or another. -/
def Unaborted (db db' : Db) : Prop :=
  db'.run.endReason = db.run.endReason ∨ ∃ r, db'.run.endReason = some r ∧ r.abort = false

namespace Unaborted

variable {now : Time} {db db' db'' : Db}

lemma of_eq (h : db'.run.endReason = db.run.endReason) : Unaborted db db' := .inl h

lemma trans (h : Unaborted db db') (h' : Unaborted db' db'') : Unaborted db db'' := by
  rcases h' with h' | h'
  · rcases h with h | ⟨r, hr, ha⟩
    · exact .inl (h'.trans h)
    · exact .inr ⟨r, h'.trans hr, ha⟩
  · exact .inr h'

lemma transition (now : Time) (new : RunState) {reason : Option EndReason}
    (h : ∀ r, reason = some r → r.abort = false) (db : Db) :
    Unaborted db (transitionRun now new reason db) := by
  have hr := transitionRun_endReason now new reason db
  cases reason with
  | none => exact .inl hr
  | some r => exact .inr ⟨r, hr, h r rfl⟩

lemma evaluateRelease (now : Time) (force : Bool) (db : Db) :
    Unaborted db (evaluateRelease now force db).db := by
  have hset : ∀ d : Db, Unaborted d (setT0 now d) := by
    intro d
    exact transition now .releasing (by simp)
      { d with run := { d.run with t0 := some (now + releaseDelayS) } }
  rcases evaluateRelease_cases now force db with
    h | ⟨_, _, _, ⟨_, h⟩ | ⟨_, _, h | ⟨e, _, h⟩ | ⟨shares, _, h⟩⟩⟩ <;> rw [h]
  · exact of_eq rfl
  · exact hset db
  · refine transition now .failed ?_ (db.mapLeases declareLost)
    rintro r ⟨⟩
    rfl
  · exact of_eq rfl
  · exact hset ((splitOver (readySlots db.leases) shares (declareStragglers db)).appendEvent now _)

lemma releaseTimeout (env : Env) (db : Db) : Unaborted db (releaseTimeout now env db).db := by
  rcases releaseTimeout_cases now env db with h | ⟨_, _, ⟨_, h⟩ | h⟩ <;> rw [h]
  · exact of_eq rfl
  · exact evaluateRelease now true db
  · have hfail : Unaborted db (transitionRun now .failed (some .provisionTimeout) db) := by
      refine transition now .failed ?_ db
      rintro r ⟨⟩
      rfl
    exact hfail.trans (of_eq (by rw [destroyFleet_run]))

lemma checkDuration (db : Db) : Unaborted db (checkDuration now db) := by
  rcases checkDuration_cases now db with h | ⟨_, h⟩ <;> rw [h]
  · exact of_eq rfl
  · refine transition now .draining ?_ db
    rintro r ⟨⟩
    rfl

lemma stepDown (cfg : Settings) (db : Db) :
    Unaborted db (stepDownForBackpressure now cfg db).db := by
  rcases stepDown_cases now cfg db with h | ⟨current, _, _, _, h | ⟨db', hr, h⟩⟩ <;> rw [h]
  · exact of_eq rfl
  · exact of_eq rfl
  · refine of_eq ?_
    rcases rescaleRun_ok hr with rfl | ⟨_, _, shares, _, rfl⟩ <;> rfl

lemma checkBackpressure (cfg : Settings) (db : Db) :
    Unaborted db (checkBackpressure now cfg db).db := by
  have hcheck := checkBackpressure_checked now cfg db
  generalize Stoker.checkBackpressure now cfg db = checked at hcheck ⊢
  cases hcheck with
  | idle | cleared | detected => exact of_eq rfl
  | steppedDown => exact stepDown cfg db
  | drained =>
    refine transition now .draining ?_ db
    rintro r ⟨⟩
    rfl

lemma reapDraining (env : Env) (db : Db) : Unaborted db (reapDraining now env db) := by
  rcases reapDraining_cases now env db with h | ⟨_, _, _, _, h⟩ <;> rw [h]
  · exact of_eq rfl
  · exact of_eq (congrArg Run.endReason (destroyFleet_run now .stopGrace env db))

lemma defaultEndReason_abort (terminal : RunState) (leases : List Lease) (run : Run) :
    (defaultEndReason terminal leases run).abort = false := by
  unfold defaultEndReason
  split_ifs <;> rfl

lemma maybeComplete (db : Db) : Unaborted db (maybeCompleteRun now db) := by
  rcases maybeCompleteRun_cases now db with h | ⟨_, terminal, reason, _, hreason, h⟩
  · exact h.symm ▸ of_eq rfl
  have hr : (maybeCompleteRun now db).run.endReason = some reason := by
    rcases h with h | h <;> rw [h, transitionRun_endReason] <;> rfl
  cases he : db.run.endReason with
  | none =>
    rw [he] at hreason
    exact .inr ⟨_, hr, hreason ▸ defaultEndReason_abort terminal db.leases db.run⟩
  | some r =>
    rw [he] at hreason
    exact .inl (by rw [hr, he, hreason]; rfl)

end Unaborted

variable {env : Env} {db db' : Db} {now boot : Time} {cfg : Settings} {r : EndReason} {slot : ℕ}
  {s : Sys}

lemma supervisorTick_aborts (hr : r.abort = true) (hne : db.run.endReason ≠ some r)
    (h : (supervisorTick cfg boot now env db).run.endReason = some r) :
    (checkAutoAbort now env (passChecked boot now env db)).run.endReason = some r ∧
      (passChecked boot now env db).run.endReason ≠ some r := by
  have hkeep : ∀ {d d' : Db}, Unaborted d d' → d'.run.endReason = some r →
      d.run.endReason = some r := by
    intro d d' hu hd
    rcases hu with hu | ⟨q, hq, ha⟩
    · exact hu ▸ hd
    · cases hq.symm.trans hd
      rw [hr] at ha
      cases ha
  have hreleased : Unaborted db (releaseTimeout now env (lapseStaleLeases boot now db)).db :=
    (Unaborted.of_eq rfl).trans (Unaborted.releaseTimeout env (lapseStaleLeases boot now db))
  have hpass : Unaborted db (passChecked boot now env db) :=
    hreleased.trans (Unaborted.checkDuration _)
  refine ⟨?_, fun hp => hne (hkeep hpass hp)⟩
  rcases supervisorTick_cases now env db cfg boot with
    ⟨_, he | he⟩ | ⟨_, e, _, he⟩ | ⟨_, _, _, c, rfl, he | he⟩
  · rw [he] at h
    exact absurd h hne
  · rw [he, destroyFleet_run] at h
    exact absurd h hne
  · rw [he] at h
    exact absurd (hkeep hreleased h) hne
  · rw [he] at h
    exact hkeep (Unaborted.checkBackpressure cfg _) h
  · rw [he] at h
    exact hkeep (Unaborted.checkBackpressure cfg _)
      (hkeep (Unaborted.reapDraining env _) (hkeep (Unaborted.maybeComplete _) h))

lemma checkAutoAbort_reason (hne : db.run.endReason ≠ some r)
    (h : (checkAutoAbort now env db).run.endReason = some r) :
    db.run.state.stopping = false ∧ (r = .autoAbortLost ∧ abortLost now db = true ∨
       r = .autoAbortAuth ∧ max 1 (db.leases.length / 2) ≤ (authFailedSlots db).length) := by
  rcases checkAutoAbort_cases now env db with heq | ⟨why, reason, hopen, hdrain, hcause, heq⟩ <;>
    rw [heq] at h
  · exact absurd h hne
  · rw [destroyFleet_run, transitionRun_endReason] at h
    obtain rfl : reason = r := Option.some.inj h
    exact ⟨by simp [RunState.stopping, hopen, hdrain], hcause⟩

/-! ### HEC auth failures -/

lemma mem_authFailedSlots :
    slot ∈ authFailedSlots db ↔ ∃ e ∈ db.events, e.kind.authSlot = some slot := by
  unfold authFailedSlots
  rw [mem_dedup, mem_filterMap]
  refine exists_congr fun e => and_congr_right fun _ => ?_
  obtain ⟨ts, kind⟩ := e
  cases kind <;> exact Iff.rfl

lemma authFailedSlots_logs (h : Logs EventKind.NoAuth now db db') :
    ∀ slot, slot ∈ authFailedSlots db' ↔ slot ∈ authFailedSlots db := by
  obtain ⟨es, he, hes⟩ := h
  intro slot
  simp only [mem_authFailedSlots, he, mem_append]
  constructor
  · rintro ⟨e, hmem | hmem, hslot⟩
    · exact ⟨e, hmem, hslot⟩
    · rw [(hes e hmem).2] at hslot
      cases hslot
  · rintro ⟨e, hmem, hslot⟩
    exact ⟨e, .inl hmem, hslot⟩

lemma authFailedSlots_length (h : Logs EventKind.NoAuth now db db') :
    (authFailedSlots db').length = (authFailedSlots db).length := by
  refine Perm.length_eq ((perm_ext_iff_of_nodup (nodup_dedup _)
    (nodup_dedup _)).2 ?_)
  exact authFailedSlots_logs h

/-- Every slot that has reported an HEC auth failure is a slot of the fleet. -/
def ReportersPresent (db : Db) : Prop :=
  ∀ slot ∈ authFailedSlots db, slot ∈ db.leases.map (·.slot)

/-- The slots of the fleet that have reported an HEC auth failure. -/
def authReporters (db : Db) : List Lease := db.leases.filter (·.slot ∈ authFailedSlots db)

lemma authFailedSlots_length_le (h : ReportersPresent db) :
    (authFailedSlots db).length ≤ (authReporters db).length := by
  have hsub : authFailedSlots db ⊆ (authReporters db).map (·.slot) := by
    intro slot hslot
    obtain ⟨l, hl, rfl⟩ := mem_map.1 (h slot hslot)
    exact mem_map_of_mem (mem_filter.2 ⟨hl, by simpa using hslot⟩)
  have hnodup : (authFailedSlots db).Nodup := nodup_dedup _
  simpa using (subperm_of_subset hnodup hsub).length_le

/-- A scale that is carried out removes no slot that has reported. -/
def ReportersKept (a : Action) (s : Sys) : Prop :=
  match a with
  | .scale now workers env => ∀ _ ∈ (scaleRunEndpoint now workers env s.db).toOption,
      ∀ slot ∈ authFailedSlots s.db, slot < workers
  | _ => True

instance (a : Action) (s : Sys) : Decidable (ReportersKept a s) :=
  match a with
  | .scale .. => inferInstanceAs (Decidable (∀ _ ∈ _, ∀ slot ∈ _, _))
  | .launch .. | .claim .. | .ready .. | .release .. | .heartbeat .. | .final .. | .stop ..
  | .pause .. | .resume .. | .rescale .. | .tick .. | .reconcile .. => isTrue trivial

lemma scale_slots {workers : ℕ} (h : scaleRunEndpoint now workers env db = .ok db')
    (hw : slot < workers) (hslot : slot ∈ db.leases.map (·.slot)) :
    slot ∈ db'.leases.map (·.slot) := by
  obtain ⟨_, _, shares, _, rfl⟩ := scaleRunEndpoint_ok h
  obtain ⟨l, hl, rfl⟩ := mem_map.1 hslot
  have hkept : l ∈ (resizeLeases workers db).leases := by
    simp only [resizeLeases]
    split_ifs
    · exact mem_append_left _ hl
    · exact mem_filter.2 ⟨hl, by simpa using hw⟩
  refine mem_map.2 ⟨reshare shares l, mem_map_of_mem hkept, ?_⟩
  exact (Lease.Wanes.reshare shares l).slot

lemma ReportersPresent.step (cfg : Settings) {a : Action} (hg : ReportersKept a s)
    (hs : s.registry.Sound) (h : ReportersPresent s.db) :
    ReportersPresent (Sys.step cfg a s).db := by
  -- a slot that has reported after the step is a slot of the fleet before it
  have hbefore : ∀ slot ∈ authFailedSlots (Sys.step cfg a s).db,
      slot ∈ s.db.leases.map (·.slot) := by
    have hlogs := Sys.step_logs cfg a s
    by_cases hb : ∃ now hb, a = .heartbeat now hb
    · obtain ⟨now, hb, rfl⟩ := hb
      obtain ⟨es, he, hes⟩ := hlogs
      intro slot hslot
      obtain ⟨e, hmem, hk⟩ := mem_authFailedSlots.1 hslot
      rw [he] at hmem
      rcases mem_append.1 hmem with hmem | hmem
      · exact h slot (mem_authFailedSlots.2 ⟨e, hmem, hk⟩)
      · obtain ⟨l, hl, hls⟩ := (hes e hmem).2.2 slot hk
        exact mem_map.2 ⟨l, hl, hls⟩
    · have hnone : ∀ k, a.MayLog s.db k → k.NoAuth := by
        intro k hk
        cases a with
        | heartbeat now hb' => exact absurd ⟨now, hb', rfl⟩ hb
        | tick => exact hk
        | _ => exact hk.1
      exact fun slot hslot => h slot ((authFailedSlots_logs (hlogs.mono hnone) slot).1 hslot)
  intro slot hslot
  rcases Sys.step_go cfg a hs with hgo | ⟨now, workers, env, rfl, hscale⟩
  · rw [hgo.slots]
    exact hbefore slot hslot
  · have hlogs : Logs EventKind.Routine now s.db (Sys.step cfg (.scale now workers env) s).db :=
      Sys.step_logs cfg (.scale now workers env) s
    have hold : slot ∈ authFailedSlots s.db :=
      (authFailedSlots_logs (hlogs.mono EventKind.Routine.noAuth) slot).1 hslot
    exact scale_slots hscale (hg _ (by rw [hscale]; rfl) slot hold) (hbefore slot hslot)

/-- In a run whose fleet never loses a slot that has reported, a pass that aborts the run for HEC
auth and halves the fleet without a remainder finds at least half of the leases reporting. -/
theorem autoAbortAuth_half {now₀ : Time} {spec : Snapshot} {as : List Action}
    (hp : provisionRun now₀ spec = .ok db)
    (h : Runs (Sys.step cfg) ReportersKept (Sys.start db) as s) {env : Env}
    (hfair : s.db.leases.length = 1 ∨ Even s.db.leases.length)
    (hf : s.FailsWith cfg (.tick boot now env) .autoAbortAuth) :
    s.db.leases.length ≤ 2 * (authReporters s.db).length := by
  have hpresent : ReportersPresent s.db := by
    refine h.invariant_under (I := fun s => s.registry.Sound) (J := fun s => ReportersPresent s.db)
      (fun a s _ hs => hs.move (step_move cfg a s hs)) (fun a s hg hs hr => hr.step cfg hg hs)
      (start_sound hp) ?_
    obtain ⟨_, shares, _, rfl⟩ := provisionRun_ok hp
    intro slot hslot
    obtain ⟨e, he, hk⟩ := mem_authFailedSlots.1 hslot
    simp only [Sys.start, provisionedDb, mem_cons, not_mem_nil, or_false] at he
    rcases he with rfl | rfl <;> cases hk
  obtain ⟨habort, hne⟩ := supervisorTick_aborts rfl hf.1 hf.2.1
  obtain ⟨_, ⟨hr, _⟩ | ⟨_, hhalf⟩⟩ := checkAutoAbort_reason hne habort
  · cases hr
  have hpass := passChecked_overseen boot now env s.db
  have hlen : (passChecked boot now env s.db).leases.length = s.db.leases.length :=
    hpass.leases.length_eq.symm
  have hauth : (authFailedSlots (passChecked boot now env s.db)).length =
      (authFailedSlots s.db).length :=
    authFailedSlots_length (hpass.events.mono EventKind.Routine.noAuth)
  have hle := authFailedSlots_length_le hpresent
  rcases hfair with h1 | ⟨k, hk⟩ <;> omega

/-- Two workers, one of which is refused by the HEC: half the fleet. -/
theorem autoAbortAuth_half_pair :
    let s := exec (Sys.step {}) (Sys.start (plainDb 2))
      [.launch 1 swarmRun, .claim 2 "w0" none, .claim 2 "w1" none,
        .heartbeat 3 { slot := 1, leaseId := some 3, authFailed := true }]
    s.FailsWith {} (.tick 0 4 {}) .autoAbortAuth ∧
      s.db.leases.length ≤ 2 * (authReporters s.db).length := by
  intro s
  have h : Runs (Sys.step {}) ReportersKept (Sys.start (plainDb 2)) _ s :=
    Runs.of_check (by decide +kernel)
  have hf : s.FailsWith {} (.tick 0 4 {}) .autoAbortAuth := by
    unfold Sys.FailsWith
    decide +kernel
  exact ⟨hf, autoAbortAuth_half (provisionRun_plain (by decide)) h (by decide +kernel) hf⟩

/-- One worker of three is refused by the HEC, and the run is aborted. -/
theorem autoAbortAuth_third :
    ¬ ∀ (cfg : Settings) (now₀ : Time) (spec : Snapshot) (db : Db) (as : List Action) (s : Sys)
      (boot now : Time) (env : Env), provisionRun now₀ spec = .ok db →
      Runs (Sys.step cfg) Always (Sys.start db) as s →
      s.FailsWith cfg (.tick boot now env) .autoAbortAuth →
      s.db.leases.length ≤ 2 * (authReporters s.db).length := by
  intro h
  have hs := h {} 0 (plainSpec 3) (plainDb 3)
    [.launch 1 swarmRun, .claim 2 "w0" none, .claim 2 "w1" none,
      .claim 2 "w2" none, .heartbeat 3 { slot := 1, leaseId := some 4, authFailed := true }]
    _ 0 4 {} (provisionRun_plain (by decide)) (Runs.always _ _)
  revert hs
  unfold Sys.FailsWith
  decide +kernel

end Stoker
