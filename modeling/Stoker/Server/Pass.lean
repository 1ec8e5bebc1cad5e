import Stoker.Server.Steps
import Mathlib.Logic.Relation

/-!
# What a pass of the supervisor can do

A pass is a sequence of checks. Each of them moves the run along its life cycle or leaves it where
it is, takes leases out of the live set, and writes to the audit trail. `Overseen` says so once for
every check and hence for a whole pass: no slot comes or goes, no lease is heard from, no sample and
no total changes, and the pause clock is not touched.
-/

open List

namespace Stoker

open Relation

/-! ### The run -/

/-- The columns of a run that say how far it has come. -/
def Run.stage (r : Run) : RunState × Option Time := (r.state, r.t0)

def Run.pauseClock (r : Run) : Option Time × Time := (r.pausedAt, r.pausedS)

/-- One move along a run's life cycle, made by anyone but the operator: the release, the first
worker that crosses T0, the beginning of a drain, the end. -/
inductive Move : RunState × Option Time → RunState × Option Time → Prop where
  | release {s : RunState} {t0 : Time} (h : s.releasable = true) :
      Move (s, none) (.releasing, some t0)
  | cross {t0 : Time} : Move (.releasing, some t0) (.running, some t0)
  | drain {s : RunState} {t0 : Option Time} (h : s = .running ∨ s = .releasing) :
      Move (s, t0) (.draining, t0)
  | finish {s s' : RunState} {t0 : Option Time} (h : s.terminal = false) (h' : s'.terminal = true) :
      Move (s, t0) (s', t0)

/-- The run moves along its life cycle and its pause clock is left alone. -/
structure Run.Onward (r r' : Run) : Prop where
  stage : ReflTransGen Move r.stage r'.stage
  pauses : r'.pauseClock = r.pauseClock

namespace Run.Onward

lemma refl (r : Run) : Onward r r := ⟨.refl, rfl⟩

variable {r r' : Run}

lemma trans {r'' : Run} (h : Onward r r') (h' : Onward r' r'') : Onward r r'' :=
  ⟨h.stage.trans h'.stage, h'.pauses.trans h.pauses⟩

lemma of_eq (hs : r'.stage = r.stage) (hp : r'.pauseClock = r.pauseClock) :
    Onward r r' :=
  ⟨hs ▸ .refl, hp⟩

lemma of_move (hm : Move r.stage r'.stage) (hp : r'.pauseClock = r.pauseClock) :
    Onward r r' :=
  ⟨.single hm, hp⟩

/-- What every move keeps holds after a run has moved on. -/
theorem rule {P : RunState × Option Time → Prop} (hP : ∀ x y, Move x y → P x → P y)
    (h : Onward r r') (hr : P r.stage) : P r'.stage := by
  have hpath := h.stage
  generalize r'.stage = y at hpath ⊢
  induction hpath with
  | refl => exact hr
  | tail _ hm ih => exact hP _ _ hm ih

end Run.Onward

/-! ### The leases -/

/-- The same lease under the same id, heard from at the same instant, and in the same state unless
it was given up; a lease that is done stays done. -/
structure Lease.Wanes (l l' : Lease) : Prop where
  id : l'.id = l.id
  ident : l'.ident = l.ident
  lastHeartbeatAt : l'.lastHeartbeatAt = l.lastHeartbeatAt
  state : l'.state = l.state ∨ (l'.state = .lost ∧ l.state ≠ .done)

namespace Lease.Wanes

lemma refl (l : Lease) : Wanes l l := ⟨rfl, rfl, rfl, .inl rfl⟩

variable {l l' : Lease}

lemma trans {l'' : Lease} (h : Wanes l l') (h' : Wanes l' l'') : Wanes l l'' := by
  refine ⟨h'.id.trans h.id, h'.ident.trans h.ident,
    h'.lastHeartbeatAt.trans h.lastHeartbeatAt, ?_⟩
  rcases h'.state with hs' | ⟨hl', hd'⟩
  · rw [hs']
    exact h.state
  · rcases h.state with hs | ⟨_, hd⟩
    · exact .inr ⟨hl', hs ▸ hd'⟩
    · exact .inr ⟨hl', hd⟩

lemma slot (h : Wanes l l') : l'.slot = l.slot := congrArg Prod.fst h.ident

lemma done_iff (h : Wanes l l') : l'.state = .done ↔ l.state = .done := by
  rcases h.state with hs | ⟨hl, hd⟩
  · rw [hs]
  · rw [hl]
    exact ⟨fun h => (by cases h), fun h => absurd h hd⟩

lemma lapse (boot now : Time) (run : Run) (l : Lease) : Wanes l (lapseLease boot now run l) := by
  unfold lapseLease
  split_ifs with h
  · refine ⟨rfl, rfl, rfl, .inr ⟨rfl, ?_⟩⟩
    intro hd
    simp [stale, hd, LeaseState.live] at h
  · exact refl l

lemma giveUp (l : Lease) : Wanes l (giveUpLease l) := by
  unfold giveUpLease
  split_ifs with h
  · exact refl l
  · exact ⟨rfl, rfl, rfl, .inr ⟨rfl, fun hd => h (.inl hd)⟩⟩

lemma declareLost (l : Lease) : Wanes l (declareLost l) := by
  unfold Stoker.declareLost
  split_ifs with h
  · refine ⟨rfl, rfl, rfl, .inr ⟨rfl, ?_⟩⟩
    intro hd
    simp [hd, LeaseState.pending] at h
  · exact refl l

lemma markRetarget (share : PublicShare) (l : Lease) : Wanes l (markRetarget share l) :=
  ⟨rfl, rfl, rfl, .inl rfl⟩

lemma reshare (shares : List PublicShare) (l : Lease) : Wanes l (reshare shares l) := by
  unfold Stoker.reshare
  cases shares[l.slot]? with
  | none => exact refl l
  | some share =>
    split_ifs
    · exact markRetarget share l
    · exact ⟨rfl, rfl, rfl, .inl rfl⟩

end Lease.Wanes

/-- The rows wane one by one. -/
def Wane (ls ls' : List Lease) : Prop := List.Forall₂ Lease.Wanes ls ls'

namespace Wane

lemma refl (ls : List Lease) : Wane ls ls := forall₂_same.2 fun l _ => Lease.Wanes.refl l

lemma trans {ls ls' ls'' : List Lease} (h : Wane ls ls') (h' : Wane ls' ls'') : Wane ls ls'' :=
  Transition.forall₂_comp (R := Lease.Wanes) (S := Lease.Wanes) (T := Lease.Wanes)
    (fun _ _ _ hab hbc => hab.trans hbc) h h'

lemma of_map {f : Lease → Lease} (hf : ∀ l, Lease.Wanes l (f l)) (ls : List Lease) :
    Wane ls (ls.map f) := by
  refine forall₂_map_right_iff.2 (forall₂_same.2 ?_)
  exact fun l _ => hf l

lemma assignShares {f : PublicShare → Lease → Lease} (hf : ∀ share l, Lease.Wanes l (f share l))
    (slots : List ℕ) (shares : List PublicShare) (ls : List Lease) :
    Wane ls (assignShares f slots shares ls) := by
  refine of_map (fun l => ?_) ls
  cases (slots.zip shares).lookup l.slot with
  | none => exact Lease.Wanes.refl l
  | some share => exact hf share l

end Wane

/-! ### The audit trail -/

def EventKind.authSlot : EventKind → Option ℕ
  | .hecAuthFailed slot => some slot
  | _ => none

/-- What the backpressure check records: the streak, and what was done about it. -/
def EventKind.backpressure : EventKind → Bool
  | .backpressureDetected | .backpressureCleared | .backpressureStepDown _ _ => true
  | .state _ new reason => decide (new = .draining ∧ reason = some .backpressureDrain)
  | _ => false

/-- Neither an HEC auth failure nor written by the backpressure check. -/
def EventKind.Routine (k : EventKind) : Prop := k.authSlot = none ∧ k.backpressure = false

/-- Not an HEC auth failure. -/
def EventKind.NoAuth (k : EventKind) : Prop := k.authSlot = none

lemma EventKind.Routine.noAuth (k : EventKind) (h : k.Routine) : k.NoAuth := h.1

variable {new : RunState} {reason : Option EndReason}

lemma EventKind.Routine.state {old : RunState}
    (h : new = .draining → reason ≠ some .backpressureDrain) :
    (EventKind.state old new reason).Routine :=
  ⟨rfl, by simpa [EventKind.backpressure] using h⟩

/-- Events of the given kinds, stamped `now`, were added to the trail. -/
def Logs (K : EventKind → Prop) (now : Time) (db db' : Db) : Prop :=
  ∃ es, db'.events = db.events ++ es ∧ ∀ e ∈ es, e.ts = now ∧ K e.kind

variable {K' : EventKind → Prop} {k : EventKind}

namespace Logs

variable {K : EventKind → Prop} {now : Time} {db db' db'' : Db}

lemma of_eq (h : db'.events = db.events) : Logs K now db db' := ⟨[], by simp [h], by simp⟩

lemma refl (now : Time) (db : Db) : Logs K now db db := of_eq rfl

lemma trans (h : Logs K now db db') (h' : Logs K now db' db'') : Logs K now db db'' := by
  obtain ⟨es, he, hes⟩ := h
  obtain ⟨fs, hf, hfs⟩ := h'
  refine ⟨es ++ fs, by rw [hf, he, append_assoc], ?_⟩
  intro e hmem
  rcases mem_append.1 hmem with hmem | hmem
  · exact hes e hmem
  · exact hfs e hmem

lemma mono (hK : ∀ k, K k → K' k) (h : Logs K now db db') : Logs K' now db db' := by
  obtain ⟨es, he, hes⟩ := h
  exact ⟨es, he, fun e hmem => ⟨(hes e hmem).1, hK _ (hes e hmem).2⟩⟩

lemma of_append {es : List RunEvent} (h : ∀ e ∈ es, e.ts = now ∧ K e.kind)
    (he : db'.events = db.events ++ es) : Logs K now db db' := ⟨es, he, h⟩

lemma appendEvent (hk : K k) (db : Db) : Logs K now db (db.appendEvent now k) := by
  refine ⟨[⟨now, k⟩], rfl, ?_⟩
  intro e he
  rw [mem_singleton.1 he]
  exact ⟨rfl, hk⟩

lemma transition (now : Time) (db : Db)
    (hk : K (.state db.run.state new reason)) :
    Logs K now db (transitionRun now new reason db) := by
  rcases transitionRun_events now new reason db with he | he
  · exact of_eq he
  · exact (appendEvent hk db).trans (of_eq he)

end Logs

/-! ### The checks -/

@[simp] lemma destroyFleet_run (now : Time) (why : DestroyReason) (env : Env) (db : Db) :
    (destroyFleet now why env db).run = db.run := by
  rcases destroyFleet_cases now env db why with h | ⟨_, _, h⟩ <;> rw [h]
  rfl

/-- What any part of a pass leaves behind, writing events of the given kinds. -/
structure Overseen (K : EventKind → Prop) (now : Time) (db db' : Db) : Prop where
  leases : Wane db.leases db'.leases
  run : db.run.Onward db'.run
  totals : db'.run.totals = db.run.totals
  samples : db'.samples = db.samples
  events : Logs K now db db'

namespace Overseen

variable {K : EventKind → Prop} {now : Time} {db db' db'' : Db}

lemma refl (now : Time) (db : Db) : Overseen K now db db :=
  ⟨Wane.refl _, Run.Onward.refl _, rfl, rfl, Logs.refl now db⟩

lemma trans (h : Overseen K now db db') (h' : Overseen K now db' db'') : Overseen K now db db'' :=
  ⟨h.leases.trans h'.leases, h.run.trans h'.run, h'.totals.trans h.totals,
    h'.samples.trans h.samples, h.events.trans h'.events⟩

lemma mono (hK : ∀ k, K k → K' k) (h : Overseen K now db db') : Overseen K' now db db' :=
  { h with events := h.events.mono hK }

lemma of_leases (hl : Wane db.leases db'.leases) (hr : db'.run = db.run)
    (hs : db'.samples = db.samples) (he : db'.events = db.events) : Overseen K now db db' :=
  ⟨hl, hr ▸ Run.Onward.refl _, by rw [hr], hs, Logs.of_eq he⟩

lemma mapLeases {f : Lease → Lease} (hf : ∀ l, Lease.Wanes l (f l)) (db : Db) :
    Overseen K now db (db.mapLeases f) :=
  of_leases (Wane.of_map hf db.leases) rfl rfl rfl

lemma appendEvents {es : List RunEvent} (db : Db) (h : ∀ e ∈ es, e.ts = now ∧ K e.kind) :
    Overseen K now db { db with events := db.events ++ es } :=
  ⟨Wane.refl _, Run.Onward.refl _, rfl, rfl, Logs.of_append h rfl⟩

lemma appendEvent (hk : K k) (db : Db) : Overseen K now db (db.appendEvent now k) :=
  ⟨Wane.refl _, Run.Onward.refl _, rfl, rfl, Logs.appendEvent hk db⟩

lemma appendNoAuth (hk : k.authSlot = none) (db : Db) :
    Overseen EventKind.NoAuth now db (db.appendEvent now k) :=
  appendEvent hk db

lemma transition (hk : K (.state db.run.state new reason))
    (h : Move db.run.stage (new, db.run.t0)) :
    Overseen K now db (transitionRun now new reason db) := by
  refine ⟨?_, .of_move ?_ ?_, by simp, by simp, Logs.transition now db hk⟩
  · rw [transitionRun_leases]
    exact Wane.refl _
  · simpa [Run.stage] using h
  · simp [Run.pauseClock]

lemma of_run {run : Run} (hs : run.stage = db.run.stage) (hp : run.pauseClock = db.run.pauseClock)
    (ht : run.totals = db.run.totals) : Overseen K now db { db with run := run } :=
  ⟨Wane.refl _, .of_eq hs hp, ht, rfl, Logs.of_eq rfl⟩

lemma destroyFleet (why : DestroyReason) (env : Env) (db : Db) :
    Overseen EventKind.Routine now db (destroyFleet now why env db) := by
  rcases destroyFleet_cases now env db why with h | ⟨k, hk, h⟩ <;> rw [h]
  · exact refl now db
  · exact appendEvent (by rcases hk with rfl | rfl <;> exact ⟨rfl, rfl⟩) db

lemma leaseLost (now : Time) (ls : List Lease) :
    ∀ e ∈ ls.map (fun l => (⟨now, .leaseLost l.slot⟩ : RunEvent)),
      e.ts = now ∧ e.kind.Routine := by
  intro e he
  obtain ⟨l, _, rfl⟩ := mem_map.1 he
  exact ⟨rfl, rfl, rfl⟩

lemma lapse (boot now : Time) (db : Db) :
    Overseen EventKind.Routine now db (lapseStaleLeases boot now db) :=
  (mapLeases (Lease.Wanes.lapse boot now db.run) db).trans (appendEvents _ (leaseLost now _))

lemma setT0 (hr : db.run.state.releasable = true) (ht : db.run.t0 = none) :
    Overseen EventKind.Routine now db (setT0 now db) := by
  unfold Stoker.setT0
  refine ⟨?_, .of_move ?_ ?_, by simp, by simp, ?_⟩
  · rw [transitionRun_leases]
    exact Wane.refl _
  · simpa [Run.stage, ht] using Move.release hr
  · simp [Run.pauseClock]
  · exact Logs.transition now { db with run := { db.run with t0 := some (now + releaseDelayS) } }
      (.state (by simp))

lemma finish (reason : Option EndReason) (ht : db.run.state.terminal = false)
    (hn : new.terminal = true) : Overseen EventKind.Routine now db
      (transitionRun now new reason db) := by
  refine transition (.state ?_) (Move.finish ht hn)
  rintro rfl
  cases hn

lemma declareStragglers (db : Db) : Overseen EventKind.Routine now db (declareStragglers db) :=
  (mapLeases Lease.Wanes.declareLost db).trans (of_run rfl rfl rfl)

lemma evaluateRelease (now : Time) (force : Bool) (db : Db) :
    Overseen EventKind.Routine now db (evaluateRelease now force db).db := by
  rcases evaluateRelease_cases now force db with
    h | ⟨ht, hr, _, ⟨_, h⟩ | ⟨_, _, h | ⟨e, _, h⟩ | ⟨shares, _, h⟩⟩⟩
  · rw [h]
    exact refl now db
  · rw [h]
    exact setT0 hr ht
  · rw [h]
    have hter : (db.mapLeases declareLost).run.state.terminal = false := by
      rw [Db.mapLeases_run]
      revert hr
      cases db.run.state <;> decide
    exact (mapLeases Lease.Wanes.declareLost db).trans (finish _ hter rfl)
  · rw [h]
    exact declareStragglers db
  · rw [h]
    have hsplit : Overseen EventKind.Routine now (Stoker.declareStragglers db)
        (splitOver (readySlots db.leases) shares (Stoker.declareStragglers db)) := by
      refine of_leases ?_ rfl rfl rfl
      exact Wane.assignShares Lease.Wanes.markRetarget _ _ _
    exact ((declareStragglers db).trans hsplit).trans
      ((appendEvent (k := .partialRelease _ _) ⟨rfl, rfl⟩ _).trans (setT0 hr ht))

lemma releaseTimeout (env : Env) (db : Db) :
    Overseen EventKind.Routine now db (releaseTimeout now env db).db := by
  rcases releaseTimeout_cases now env db with h | ⟨hs, _, ⟨_, h⟩ | h⟩ <;> rw [h]
  · exact refl now db
  · exact evaluateRelease now true db
  · exact (finish _ (by rw [hs]; rfl) rfl).trans (destroyFleet _ env _)

lemma checkDuration (now : Time) (db : Db) :
    Overseen EventKind.Routine now db (checkDuration now db) := by
  rcases checkDuration_cases now db with h | ⟨hs, h⟩ <;> rw [h]
  · exact refl now db
  · exact transition (.state (by simp)) (Move.drain hs)

lemma checkAutoAbort (env : Env) (db : Db) :
    Overseen EventKind.Routine now db (checkAutoAbort now env db) := by
  rcases checkAutoAbort_cases now env db with h | ⟨why, reason, hopen, _, _, h⟩ <;> rw [h]
  · exact refl now db
  · exact (finish _ hopen rfl).trans (destroyFleet _ env _)

lemma rescale {rate : Option ℚ} (h : rescaleRun now rate db = .ok db') :
    Overseen EventKind.Routine now db db' := by
  rcases rescaleRun_ok h with rfl | ⟨_, _, shares, _, rfl⟩
  · exact refl now _
  · refine Overseen.trans ?_ (appendEvent ⟨rfl, rfl⟩ _)
    refine (mapLeases (Lease.Wanes.reshare shares) db).trans ⟨Wane.refl _, ?_, rfl, rfl, ?_⟩
    · exact .of_eq rfl rfl
    · exact Logs.of_eq rfl

lemma stepDown (now : Time) (cfg : Settings) (db : Db) :
    Overseen EventKind.NoAuth now db (stepDownForBackpressure now cfg db).db := by
  rcases stepDown_cases now cfg db with h | ⟨current, _, _, _, h | ⟨db', hr, h⟩⟩
  · rw [h]
    exact refl now db
  · rw [h]
    exact of_run rfl rfl rfl
  · rw [h]
    have hnote : Overseen EventKind.NoAuth now db (noteOriginalRate current db) :=
      of_run rfl rfl rfl
    have hrate : Overseen EventKind.NoAuth now (noteOriginalRate current db) db' :=
      (rescale hr).mono EventKind.Routine.noAuth
    refine (hnote.trans hrate).trans (Overseen.trans ?_ (appendNoAuth rfl _))
    exact of_run rfl rfl rfl

lemma checkBackpressure (now : Time) (cfg : Settings) (db : Db) :
    Overseen EventKind.NoAuth now db (checkBackpressure now cfg db).db := by
  have hcheck := checkBackpressure_checked now cfg db
  generalize Stoker.checkBackpressure now cfg db = checked at hcheck ⊢
  cases hcheck with
  | idle => exact refl now db
  | cleared | detected => exact appendNoAuth rfl db
  | steppedDown => exact stepDown now cfg db
  | drained judged => exact transition rfl (Move.drain (Db.delivering_iff.1 judged).1)

lemma reapDraining (env : Env) (db : Db) :
    Overseen EventKind.Routine now db (reapDraining now env db) := by
  rcases reapDraining_cases now env db with h | ⟨_, _, _, _, h⟩ <;> rw [h]
  · exact refl now db
  · exact (destroyFleet .stopGrace env db).trans
      ((mapLeases Lease.Wanes.giveUp _).trans (appendEvents _ (leaseLost now _)))

lemma maybeComplete (now : Time) (db : Db) :
    Overseen EventKind.Routine now db (maybeCompleteRun now db) := by
  rcases maybeCompleteRun_cases now db with h | ⟨ht, _, _, rfl, rfl, h | h⟩ <;> rw [h]
  · exact refl now db
  · exact finish _ ht (terminalStateFor_terminal _ _ _)
  · exact (appendEvent ⟨rfl, rfl⟩ db).trans (finish _ ht (terminalStateFor_terminal _ _ _))

lemma reconcile (now : Time) (env : Env) (db : Db) :
    Overseen EventKind.Routine now db (reconcileOnBoot now env db) := by
  rcases reconcileOnBoot_cases now env db with h | h | ⟨ht, h | h⟩ <;> rw [h]
  · exact refl now db
  · exact appendEvent ⟨rfl, rfl⟩ db
  · exact finish _ ht rfl
  · exact (finish _ ht rfl).trans (mapLeases Lease.Wanes.giveUp _)

end Overseen

/-! ### The pass -/

lemma passChecked_overseen (boot now : Time) (env : Env) (db : Db) :
    Overseen EventKind.Routine now db (passChecked boot now env db) :=
  ((Overseen.lapse boot now db).trans (Overseen.releaseTimeout env _)).trans
    (Overseen.checkDuration now _)

theorem supervisorTick_overseen (cfg : Settings) (boot now : Time) (env : Env) (db : Db) :
    Overseen EventKind.NoAuth now db (supervisorTick cfg boot now env db) := by
  rcases supervisorTick_cases now env db cfg boot with
    ⟨_, h | h⟩ | ⟨_, e, _, h⟩ | ⟨_, _, _, c, rfl, h⟩
  · exact h.symm ▸ Overseen.refl now db
  · exact h.symm ▸ (Overseen.destroyFleet _ env db).mono EventKind.Routine.noAuth
  · rw [h]
    exact ((Overseen.lapse boot now db).trans (Overseen.releaseTimeout env _)).mono
      EventKind.Routine.noAuth
  · have hchecked : Overseen EventKind.NoAuth now db (checkBackpressure now cfg
        (checkAutoAbort now env (passChecked boot now env db))).db :=
      (((passChecked_overseen boot now env db).trans (Overseen.checkAutoAbort env _)).mono
        EventKind.Routine.noAuth).trans (Overseen.checkBackpressure now cfg _)
    rcases h with h | h
    · rw [h]
      exact hchecked
    · rw [h]
      exact hchecked.trans
        (((Overseen.reapDraining env _).trans (Overseen.maybeComplete now _)).mono
        EventKind.Routine.noAuth)

end Stoker
