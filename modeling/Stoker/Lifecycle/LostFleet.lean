import Stoker.Lifecycle.AutoAbort

/-!
# The abort of a lost fleet

A pass aborts a released run when more than half of its leases are lost and the last heartbeat of
each of them lies the abort window back. A lease is lost only some time after its last heartbeat, at
the first pass past its deadline, so the loss itself may be younger than the window. When the pass
that aborts comes a whole window after one that was past the lease's deadline, the loss has lasted
that long.
-/

open List

namespace Stoker

open Transition

/-- What an observer keeps of a run: the instant of the last step, the passes made over the run with
the boot instants they went by, and since when each lost row has been lost. -/
structure Watch where
  clock : Time
  passes : List (Time × Time) := []
  lostSince : ℕ → Option Time := fun _ => none

namespace Watch

/-- A pass is noted when it is made over a run that has not ended. A row that is lost after the step
was lost before it, or is lost since now. -/
def see (a : Action) (s s' : Sys) (w : Watch) : Watch where
  clock := a.time
  passes := match a with
    | .tick boot now _ => if s.db.run.state.supervised then w.passes ++ [(boot, now)] else w.passes
    | _ => w.passes
  lostSince id :=
    if s'.db.leases.any fun l => decide (l.id = id ∧ l.state = .lost) then
      some ((w.lostSince id).getD a.time)
    else none

/-- The row has been lost for the abort window. -/
def lostThroughout (now : Time) (w : Watch) (l : Lease) : Bool :=
  decide (l.state = .lost) && (w.lostSince l.id).any fun t => decide (autoAbortLostS ≤ now - t)

end Watch

/-- The deadline of a heartbeat, for a control plane that was started at `boot`. -/
def lapseDeadline (boot heard : Time) : Time := max (heard + leaseLapseS) (boot + bootGraceS)

/-- The clock does not run backwards, and no message carries the id of a lease that was never handed
out. -/
def Orderly (a : Action) (x : Sys × Watch) : Prop :=
  x.2.clock ≤ a.time ∧ ∀ l ∈ x.1.db.leases, l.state = .free → a.carries ≠ some (l.slot, l.leaseId)

instance (a : Action) (x : Sys × Watch) : Decidable (Orderly a x) :=
  inferInstanceAs (Decidable (_ ∧ _))

/-- Every lease that is silent for the abort window was past its deadline at a pass that lies the
window back. -/
def LapsedInTime (now : Time) (x : Sys × Watch) : Prop :=
  ∀ l ∈ x.1.db.leases, l.state ≠ .done → ∀ heard ∈ l.lastHeartbeatAt, autoAbortLostS ≤ now - heard →
    ∃ p ∈ x.2.passes, lapseDeadline p.1 heard < p.2 ∧ autoAbortLostS ≤ now - p.2

instance (now : Time) (x : Sys × Watch) : Decidable (LapsedInTime now x) :=
  inferInstanceAs (Decidable (∀ l ∈ _, _ → ∀ heard ∈ _, _ → ∃ p ∈ _, _))

/-! ### Rows across a step -/

variable {db : Db} {l' : Lease} {boot : Time} {env : Env}

lemma Sys.step_row (cfg : Settings) (a : Action) {s : Sys} (hs : s.registry.Sound)
    (hl : l' ∈ (Sys.step cfg a s).db.leases) :
    (∃ l ∈ s.db.leases, l.Goes a l') ∨ (l'.state = .free ∧ l'.lastHeartbeatAt = none) := by
  rcases Sys.step_go cfg a hs with hgo | ⟨now, workers, env, rfl, hscale⟩
  · exact .inl (hgo.exists_of_mem hl)
  · rcases scale_rows hscale hl with ⟨l, hmem, hstand⟩ | hnew
    · exact .inl ⟨l, hmem, (Lease.Goes.refl _ l).congr hstand⟩
    · exact .inr hnew

/-- A pass over a run that has not ended first makes every lease past its deadline lost, and the
rest of the pass revives none. -/
lemma supervisorTick_lapses (cfg : Settings) (boot now : Time) (env : Env)
    (hs : db.run.state.supervised = true) :
    Wane (lapseStaleLeases boot now db).leases (supervisorTick cfg boot now env db).leases := by
  have hreleased : Wane (lapseStaleLeases boot now db).leases
      (releaseTimeout now env (lapseStaleLeases boot now db)).db.leases :=
    (Overseen.releaseTimeout env _).leases
  rcases supervisorTick_cases now env db cfg boot with ⟨h, _⟩ | ⟨_, e, _, h⟩ | ⟨_, _, _, c, rfl, h⟩
  · rw [hs] at h
    cases h
  · rw [h]
    exact hreleased
  · have hchecked : Wane (lapseStaleLeases boot now db).leases (checkBackpressure now cfg
        (checkAutoAbort now env (passChecked boot now env db))).db.leases :=
      hreleased.trans ((Overseen.checkDuration now _).leases.trans
        ((Overseen.checkAutoAbort env _).leases.trans
          (Overseen.checkBackpressure now cfg _).leases))
    rcases h with h | h
    · rw [h]
      exact hchecked
    · rw [h]
      exact hchecked.trans
        ((Overseen.reapDraining env _).leases.trans (Overseen.maybeComplete now _).leases)

variable {now : Time}

/-- A row that is past its deadline at a pass, and neither free nor done, is lost after it. -/
lemma supervisorTick_lost {cfg : Settings} {heard : Time} (hs : db.run.state.supervised = true)
    (hfree : ∀ l ∈ db.leases, l.state = .free → l.lastHeartbeatAt = none)
    (hl : l' ∈ (supervisorTick cfg boot now env db).leases) (hd : l'.state ≠ .done)
    (hb : l'.lastHeartbeatAt = some heard) (hdead : lapseDeadline boot heard < now) :
    l'.state = .lost := by
  obtain ⟨k, hk, hw⟩ := forall₂_exists_of_mem (supervisorTick_lapses cfg boot now env hs) hl
  obtain ⟨l, hmem, rfl⟩ := mem_map.1 hk
  have hlapse := Lease.Wanes.lapse boot now db.run l
  have hheard : l.lastHeartbeatAt = some heard :=
    (hw.lastHeartbeatAt.trans hlapse.lastHeartbeatAt).symm.trans hb
  -- the lapse itself makes a live row lost, and a lost one is left alone
  have hlost : (lapseLease boot now db.run l).state = .lost := by
    cases hstate : l.state with
    | free =>
      have hnone := hfree l hmem hstate
      rw [hnone] at hheard
      cases hheard
    | lost =>
      have hns : stale boot now db.run l = false := by simp [stale, hstate, LeaseState.live]
      simp [lapseLease, hns, hstate]
    | done => exact absurd (hw.done_iff.2 (hlapse.done_iff.2 hstate)) hd
    | claimed | ready | running =>
      have hst : stale boot now db.run l = true := by
        simp only [stale, hstate, hheard, LeaseState.live, Option.getD_some, Bool.true_and,
          decide_eq_true_eq]
        exact hdead
      simp [lapseLease, hst]
  rcases hw.state with hstate | ⟨hstate, _⟩
  · exact hstate.trans hlost
  · exact hstate

/-! ### The observer's notes are right -/

/-- What holds of the notes in every state: instants lie in the past, a lost row has been noted, a
free row was never heard from, and a row that a pass found past its deadline is lost since then at
the latest, or done. -/
structure Watched (x : Sys × Watch) : Prop where
  passes : ∀ p ∈ x.2.passes, p.2 ≤ x.2.clock
  since : ∀ id t, x.2.lostSince id = some t → t ≤ x.2.clock
  noted : ∀ l ∈ x.1.db.leases, l.state = .lost → (x.2.lostSince l.id).isSome = true
  free : ∀ l ∈ x.1.db.leases, l.state = .free → l.lastHeartbeatAt = none
  lapsed : ∀ l ∈ x.1.db.leases, l.state ≠ .done → ∀ heard ∈ l.lastHeartbeatAt,
    ∀ p ∈ x.2.passes, lapseDeadline p.1 heard < p.2 →
    l.state = .lost ∧ ∃ t, x.2.lostSince l.id = some t ∧ t ≤ p.2

namespace Watched

variable {cfg : Settings} {a : Action} {s : Sys} {w : Watch} {s' : Sys} {t boot : Time}

lemma lostSince_of_lost {l : Lease} (hl : l ∈ s'.db.leases) (hs : l.state = .lost) :
    (w.see a s s').lostSince l.id = some ((w.lostSince l.id).getD a.time) := by
  have hany : (s'.db.leases.any fun k => decide (k.id = l.id ∧ k.state = .lost)) = true :=
    any_eq_true.2 ⟨l, hl, by simp [hs]⟩
  simp only [Watch.see, hany, if_true]

lemma lostSince_of_see {id : ℕ} (h : (w.see a s s').lostSince id = some t) :
    t = (w.lostSince id).getD a.time := by
  unfold Watch.see at h
  dsimp only at h
  split_ifs at h
  exact (Option.some.inj h).symm

lemma mem_passes {p : Time × Time} (h : p ∈ (w.see a s s').passes) :
    p ∈ w.passes ∨ ∃ env, a = .tick p.1 p.2 env ∧ s.db.run.state.supervised = true := by
  unfold Watch.see at h
  cases a with
  | tick boot now env =>
    split_ifs at h with hs
    · rcases mem_append.1 h with h | h
      · exact .inl h
      · rw [mem_singleton.1 h]
        exact .inr ⟨env, rfl, hs⟩
    · exact .inl h
  | _ => exact .inl h

lemma getD_le (h : Watched (s, w)) (hc : w.clock ≤ a.time) (id : ℕ) :
    (w.lostSince id).getD a.time ≤ a.time := by
  cases ht : w.lostSince id with
  | none => exact le_rfl
  | some t => exact (h.since id t ht).trans hc

/-- A row that has been heard from is not past any deadline seen so far. -/
lemma not_past (h : t ≤ now) : ¬ lapseDeadline boot now < t := by
  have hmax : now + leaseLapseS ≤ lapseDeadline boot now := le_max_left _ _
  have hpos : (0 : Time) < leaseLapseS := by norm_num [leaseLapseS]
  linarith

lemma step (cfg : Settings) (hg : Orderly a (s, w)) (hs : s.registry.Sound) (h : Watched (s, w)) :
    Watched (observe (Sys.step cfg) Watch.see a (s, w)) := by
  obtain ⟨hclock, hcarry⟩ := hg
  have hclock' : w.clock ≤ a.time := hclock
  have hpast : ∀ p ∈ (w.see a s (Sys.step cfg a s)).passes, p.2 ≤ a.time := by
    intro p hp
    rcases mem_passes hp with hp | ⟨env, rfl, _⟩
    · exact (h.passes p hp).trans hclock
    · exact le_rfl
  refine ⟨hpast, ?_, ?_, ?_, ?_⟩
  · intro id t ht
    rw [lostSince_of_see ht]
    exact getD_le h hclock id
  · intro l hl hlost
    have hsince := lostSince_of_lost (a := a) (s := s) (w := w) hl hlost
    exact Option.isSome_iff_exists.2 ⟨_, hsince⟩
  · intro l' hl hfree
    rcases Sys.step_row cfg a hs hl with ⟨l, hmem, hgo⟩ | ⟨_, hnone⟩
    · rcases hgo.heard with ⟨_, hc⟩ | ⟨hb, _⟩
      · exact absurd (hc hfree) (hcarry l hmem (hgo.free hfree))
      · exact hb.trans (h.free l hmem (hgo.free hfree))
    · exact hnone
  · intro l' hl hd heard hheard p hp hdead
    have hnew : l'.state = .lost → (∃ t, w.lostSince l'.id = some t ∧ t ≤ p.2) ∨ a.time ≤ p.2 →
        l'.state = .lost ∧ ∃ t, (w.see a s (Sys.step cfg a s)).lostSince l'.id = some t ∧
        t ≤ p.2 := by
      intro hlost hwhen
      refine ⟨hlost, _, lostSince_of_lost hl hlost, ?_⟩
      rcases hwhen with ⟨t, ht, hle⟩ | hle
      · rw [ht]
        exact hle
      · exact (getD_le h hclock' _).trans hle
    rcases mem_passes hp with hp' | ⟨env, rfl, hsup⟩
    · -- an earlier pass: the row was lost already, and only a heartbeat could have revived it
      rcases Sys.step_row cfg a hs hl with ⟨l, hmem, hgo⟩ | ⟨_, hnone⟩
      · rcases hgo.heard with ⟨hb, _⟩ | ⟨hb, hstate⟩
        · cases hb.symm.trans hheard
          exact absurd hdead (not_past (hpast p hp))
        · obtain ⟨hlost, t, ht, hle⟩ := h.lapsed l hmem (fun hd' => hd (hgo.closed hd')) heard
            (hb.symm.trans hheard) p hp' hdead
          have hlost' : l'.state = .lost := by
            rcases hstate with he | he | he
            · exact he.trans hlost
            · exact absurd he hd
            · exact he
          exact hnew hlost' (.inl ⟨t, hgo.id ▸ ht, hle⟩)
      · rw [hnone] at hheard
        cases hheard
    · -- this very pass
      exact hnew (supervisorTick_lost hsup h.free hl hd hheard hdead) (.inr le_rfl)

lemma start {spec : Snapshot} {db : Db} (h : provisionRun now spec = .ok db) :
    Watched (Sys.start db, { clock := now }) := by
  obtain ⟨_, shares, _, rfl⟩ := provisionRun_ok h
  refine ⟨by simp, by simp, ?_, ?_, by simp⟩
  · intro l hl hlost
    obtain ⟨i, hi, rfl⟩ := mem_mapIdx.1 hl
    cases hlost
  · intro l hl _
    obtain ⟨i, hi, rfl⟩ := mem_mapIdx.1 hl
    rfl

/-- The leases that a pass counts as lost, each silent for the abort window, were lost throughout
it: an earlier pass had found each of them past its deadline. -/
lemma lostRunning_le {s : Sys} {w : Watch} {env : Env} (hw : Watched (s, w))
    (hg : LapsedInTime now (s, w))
    (hsilent : ∀ l ∈ lostRunning (passChecked boot now env s.db).leases,
      autoAbortLostS ≤ now - l.lastHeartbeatAt.getD now) :
    (lostRunning (passChecked boot now env s.db).leases).length ≤
      (s.db.leases.filter (w.lostThroughout now)).length := by
  have hpass := passChecked_overseen boot now env s.db
  refine forall₂_filter_length_le hpass.leases fun l hl l' hl' hwane hq => ?_
  have hcounted : l' ∈ lostRunning (passChecked boot now env s.db).leases :=
    mem_filter.2 ⟨hl', hq⟩
  simp only [decide_eq_true_eq] at hq
  obtain ⟨heard, hheard⟩ := Option.isSome_iff_exists.1 hq.2
  have hlong := hsilent l' hcounted
  rw [hheard, Option.getD_some] at hlong
  have hd : l.state ≠ .done := by
    intro hd
    rw [hwane.done_iff.2 hd] at hq
    cases hq.1
  have hb : l.lastHeartbeatAt = some heard := hwane.lastHeartbeatAt.symm.trans hheard
  obtain ⟨p, hp', hdead, hwindow⟩ := hg l hl hd heard hb hlong
  obtain ⟨hstate, t, ht, hle⟩ := hw.lapsed l hl hd heard hb p hp' hdead
  have ht' : w.lostSince l.id = some t := ht
  have hfor : autoAbortLostS ≤ now - t := by linarith
  simp [Watch.lostThroughout, hstate, ht', hfor]

end Watched

/-! ### The abort -/

/-- A pass that aborts the run for its lost workers, and comes late enough after the lapses it rests
on, finds more than the abort fraction of the leases lost throughout the abort window. -/
theorem autoAbortLost_sustained {cfg : Settings} {now₀ : Time} {spec : Snapshot}
    {as : List Action} {s : Sys} {w : Watch} (hp : provisionRun now₀ spec = .ok db)
    (h : Runs (observe (Sys.step cfg) Watch.see) Orderly (Sys.start db,
      { clock := now₀ }) as (s, w))
    {now : Time} (hg : LapsedInTime now (s, w))
    (hf : s.FailsWith cfg (.tick boot now env) .autoAbortLost) :
    autoAbortLostFraction * s.db.leases.length <
      ((s.db.leases.filter (w.lostThroughout now)).length : ℚ) := by
  have hw : Watched (s, w) := by
    exact h.invariant_under (I := fun x => x.1.registry.Sound) (J := Watched)
      (fun a x _ hs => hs.move (step_move cfg a x.1 hs))
      (fun a x hg hs hx => hx.step cfg hg hs) (start_sound hp) (Watched.start hp)
  obtain ⟨habort, hne⟩ := supervisorTick_aborts rfl hf.1 hf.2.1
  obtain ⟨_, ⟨_, hlost⟩ | ⟨hr, _⟩⟩ := checkAutoAbort_reason hne habort
  swap
  · cases hr
  have hpass := passChecked_overseen boot now env s.db
  unfold abortLost at hlost
  simp only [Bool.and_eq_true, decide_eq_true_eq, all_eq_true] at hlost
  obtain ⟨⟨_, hmany⟩, hsilent⟩ := hlost
  have hcount := hw.lostRunning_le hg hsilent
  have hlen : (passChecked boot now env s.db).leases.length = s.db.leases.length :=
    hpass.leases.length_eq.symm
  rw [hlen] at hmany
  exact hmany.trans_le (by exact_mod_cast hcount)

/-- A worker falls silent, is lost at the first pass past its deadline, and the run is aborted at a
pass more than the abort window later. -/
theorem autoAbortLost_sustained_single :
    let x := exec (observe (Sys.step {}) Watch.see) (Sys.start (plainDb 1), { clock := 0 })
      [.launch 1 swarmRun, .claim 2 "w0" none, .ready 3 0 (some 1),
        .release 4 0, .heartbeat 6 { slot := 0, leaseId := some 1 }, .tick 0 61 {}]
    x.1.FailsWith {} (.tick 0 370 {}) .autoAbortLost ∧
      autoAbortLostFraction * x.1.db.leases.length <
        ((x.1.db.leases.filter (x.2.lostThroughout 370)).length : ℚ) := by
  intro x
  have h : Runs (observe (Sys.step {}) Watch.see) Orderly (Sys.start (plainDb 1), { clock := 0 }) _
      (x.1, x.2) := Runs.of_check (by decide +kernel)
  have hf : x.1.FailsWith {} (.tick 0 370 {}) .autoAbortLost := by
    unfold Sys.FailsWith
    decide +kernel
  exact ⟨hf, autoAbortLost_sustained (provisionRun_plain (by decide)) h (by decide +kernel) hf⟩

/-- The passes go on, and the run is aborted once the last heartbeat lies the abort window back,
when the worker has been lost for less than that. -/
theorem autoAbortLost_too_early :
    ¬ ∀ (cfg : Settings) (now₀ : Time) (spec : Snapshot) (db : Db) (as : List Action) (s : Sys)
      (w : Watch) (boot now : Time) (env : Env), provisionRun now₀ spec = .ok db →
      Runs (observe (Sys.step cfg) Watch.see) Orderly (Sys.start db, { clock := now₀ }) as (s, w) →
      Orderly (.tick boot now env) (s, w) → s.FailsWith cfg (.tick boot now env) .autoAbortLost →
      autoAbortLostFraction * s.db.leases.length <
        ((s.db.leases.filter (w.lostThroughout now)).length : ℚ) := by
  intro h
  have hs := h {} 0 (plainSpec 1) (plainDb 1)
    [.launch 1 swarmRun, .claim 2 "w0" none, .ready 3 0 (some 1),
      .release 4 0, .heartbeat 6 { slot := 0, leaseId := some 1 }, .tick 0 61 {}, .tick 0 180 {}]
    _ _ 0 306 {} (provisionRun_plain (by decide)) (Runs.of_check (by decide +kernel))
  revert hs
  unfold Sys.FailsWith
  decide +kernel

end Stoker
