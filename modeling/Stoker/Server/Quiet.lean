import Stoker.Server.Requests
import Mathlib.Data.List.Forall2

/-!
# Quiet steps

Most steps leave T0, the snapshot and every share alone; they only take leases out of the live set
and move the run's state forward. Such a step is called *quiet*. The supervisor's pass is quiet
except for a forced release and a step-down of the rate, so an invariant that every quiet step
keeps needs an argument for those two only.
-/

open List

namespace Stoker

/-! ### Leases that fade -/

/-- The row is the same slot under the same id, holder and share, and it was not made live. -/
structure Lease.Fades (l l' : Lease) : Prop where
  id : l'.id = l.id
  ident : l'.ident = l.ident
  share : l'.share = l.share
  state : l'.state = l.state ∨ l'.state = .lost ∨ l'.state = .done

variable {l' : Lease}

namespace Lease.Fades

lemma refl (l : Lease) : Fades l l := ⟨rfl, rfl, rfl, .inl rfl⟩

variable {l : Lease}

lemma trans {l'' : Lease} (h : Fades l l') (h' : Fades l' l'') : Fades l l'' := by
  refine ⟨h'.id.trans h.id, h'.ident.trans h.ident, h'.share.trans h.share, ?_⟩
  rcases h'.state with h'' | h''
  · rw [h'']
    exact h.state
  · exact .inr h''

lemma slot (h : Fades l l') : l'.slot = l.slot := congrArg Prod.fst h.ident

lemma leaseId (h : Fades l l') : l'.leaseId = l.leaseId :=
  congrArg (·.2.1) h.ident

lemma state_of_live (h : Fades l l') (hl : l'.state.live = true) :
    l'.state = l.state := by
  rcases h.state with h | h | h
  · exact h
  all_goals
    rw [h] at hl
    exact absurd hl (by decide)

lemma lapse (boot now : Time) (run : Run) (l : Lease) : Fades l (lapseLease boot now run l) := by
  unfold lapseLease
  split_ifs
  · exact ⟨rfl, rfl, rfl, .inr (.inl rfl)⟩
  · exact refl l

lemma giveUp (l : Lease) : Fades l (giveUpLease l) := by
  unfold giveUpLease
  split_ifs
  · exact refl l
  · exact ⟨rfl, rfl, rfl, .inr (.inl rfl)⟩

lemma declareLost (l : Lease) : Fades l (declareLost l) := by
  unfold Stoker.declareLost
  split_ifs
  · exact ⟨rfl, rfl, rfl, .inr (.inl rfl)⟩
  · exact refl l

lemma forceFinal (l : Lease) : Fades l (forceFinal l) := by
  unfold Stoker.forceFinal
  split_ifs
  · exact ⟨rfl, rfl, rfl, .inr (.inr rfl)⟩
  · exact ⟨rfl, rfl, rfl, .inr (.inl rfl)⟩
  · exact refl l

end Lease.Fades

/-- The rows fade one by one. -/
def Fade (ls ls' : List Lease) : Prop := List.Forall₂ Lease.Fades ls ls'

variable {f : Lease → Lease}

namespace Fade

lemma refl (ls : List Lease) : Fade ls ls := forall₂_same.2 fun l _ => Lease.Fades.refl l

variable {ls ls' : List Lease}

lemma trans {ls'' : List Lease} (h : Fade ls ls') (h' : Fade ls' ls'') : Fade ls ls'' :=
  Transition.forall₂_comp (R := Lease.Fades) (S := Lease.Fades) (T := Lease.Fades)
    (fun _ _ _ hab hbc => hab.trans hbc) h h'

lemma of_map (hf : ∀ l, Lease.Fades l (f l)) (ls : List Lease) : Fade ls (ls.map f) := by
  refine forall₂_map_right_iff.2 (forall₂_same.2 ?_)
  exact fun l _ => hf l

lemma map_eq {β : Type} {g : Lease → β} (hg : ∀ l l', Lease.Fades l l' → g l' = g l)
    (h : Fade ls ls') : ls'.map g = ls.map g :=
  Transition.forall₂_map_eq hg h

lemma exists_of_mem (h : Fade ls ls') (hl : l' ∈ ls') :
    ∃ l ∈ ls, Lease.Fades l l' :=
  Transition.forall₂_exists_of_mem h hl

end Fade

/-! ### Run states -/

/-- An ended run stays as it ended, and a draining one drains or ends. -/
def StopKept (a b : RunState) : Prop :=
  (a.terminal = true → b = a) ∧ (a = .draining → b = .draining ∨ b.terminal = true)

namespace StopKept

lemma refl (a : RunState) : StopKept a a := ⟨fun _ => rfl, fun h => .inl h⟩

variable {a b : RunState}

lemma trans {c : RunState} (h : StopKept a b) (h' : StopKept b c) : StopKept a c := by
  refine ⟨fun ha => ?_, fun ha => ?_⟩
  · have hb : b = a := h.1 ha
    subst hb
    exact h'.1 ha
  · rcases h.2 ha with hb | hb
    · exact h'.2 hb
    · exact .inr (h'.1 hb ▸ hb)

lemma of_active (ht : a.terminal = false) (hd : a ≠ .draining) : StopKept a b :=
  ⟨fun h => absurd (ht.symm.trans h) (by decide), fun h => absurd h hd⟩

lemma of_stop (ht : a.terminal = false) (hb : b = .draining ∨ b.terminal = true) :
    StopKept a b :=
  ⟨fun h => absurd (ht.symm.trans h) (by decide), fun _ => hb⟩

end StopKept

/-! ### Calm runs -/

/-- No backpressure has been detected so far. -/
def Db.Calm (db : Db) : Prop := ∀ e ∈ db.events, e.kind ≠ .backpressureDetected

namespace Db.Calm

variable {db : Db}

lemma append {db' : Db} {es : List RunEvent} (h : db.Calm) (he : db'.events = db.events ++ es)
    (hes : ∀ e ∈ es, e.kind ≠ .backpressureDetected) : db'.Calm := by
  intro e hmem
  rw [he, mem_append] at hmem
  rcases hmem with hmem | hmem
  · exact h e hmem
  · exact hes e hmem

lemma appendEvent (h : db.Calm) (now : Time) {k : EventKind} (hk : k ≠ .backpressureDetected) :
    (db.appendEvent now k).Calm := by
  refine h.append rfl ?_
  intro e he
  rw [mem_singleton.1 he]
  exact hk

lemma transition (h : db.Calm) (now : Time) (new : RunState) (reason : Option EndReason) :
    (transitionRun now new reason db).Calm := by
  rcases transitionRun_events now new reason db with he | he
  · intro e hmem
    rw [he] at hmem
    exact h e hmem
  · refine h.append he ?_
    simp

lemma leaseLost (now : Time) (ls : List Lease) :
    ∀ e ∈ ls.map (fun l => (⟨now, .leaseLost l.slot⟩ : RunEvent)),
      e.kind ≠ .backpressureDetected := by
  intro e he
  obtain ⟨l, _, rfl⟩ := mem_map.1 he
  simp

lemma openBackpressureSince (h : db.Calm) : openBackpressureSince db.events = none := by
  have hsorted : ∀ e ∈ db.events.insertionSort (fun a b => a.ts ≤ b.ts),
      e.kind ≠ .backpressureDetected := fun e he => h e ((mem_insertionSort _).1 he)
  unfold Stoker.openBackpressureSince
  generalize db.events.insertionSort (fun a b => a.ts ≤ b.ts) = es at hsorted ⊢
  induction es with
  | nil => rfl
  | cons e es ih =>
    have he := hsorted e mem_cons_self
    have ih' := ih fun e he => hsorted e (mem_cons_of_mem _ he)
    rw [foldl_cons]
    cases hk : e.kind with
    | backpressureDetected => exact absurd hk he
    | _ => exact ih'

end Db.Calm

/-! ### Quiet steps -/

/-- The rows fade, the run's state only moves forward, no backpressure is detected before the
release, and nothing else the statements speak of changes. -/
structure Quiet (db db' : Db) : Prop where
  leases : Fade db.leases db'.leases
  state : StopKept db.run.state db'.run.state
  t0 : db'.run.t0 = db.run.t0
  snapshot : db'.run.snapshot = db.run.snapshot
  degraded : db'.run.degraded = db.run.degraded
  nextId : db'.nextId = db.nextId
  hist : db'.hist = db.hist
  calm : db.run.t0 = none → db.Calm → db'.Calm

namespace Quiet

lemma refl (db : Db) : Quiet db db :=
  ⟨Fade.refl _, StopKept.refl _, rfl, rfl, rfl, rfl, rfl, fun _ h => h⟩

lemma trans {a b c : Db} (h : Quiet a b) (h' : Quiet b c) : Quiet a c :=
  ⟨h.leases.trans h'.leases, h.state.trans h'.state, h'.t0.trans h.t0,
    h'.snapshot.trans h.snapshot, h'.degraded.trans h.degraded, h'.nextId.trans h.nextId,
    h'.hist.trans h.hist, fun ht hc => h'.calm (h.t0.trans ht) (h.calm ht hc)⟩

/-- A step that only adds to the audit trail. -/
lemma of_events {db : Db} {es : List RunEvent}
    (h : (∀ e ∈ es, e.kind ≠ .backpressureDetected) ∨ db.run.t0 ≠ none) :
    Quiet db { db with events := db.events ++ es } := by
  refine ⟨Fade.refl _, StopKept.refl _, rfl, rfl, rfl, rfl, rfl, fun ht hc => ?_⟩
  rcases h with h | h
  · exact hc.append rfl h
  · exact absurd ht h

lemma appendEvent {k : EventKind} {db : Db} (now : Time)
    (hk : k ≠ .backpressureDetected ∨ db.run.t0 ≠ none) : Quiet db (db.appendEvent now k) := by
  refine of_events (hk.imp_left fun hk e he => ?_)
  rw [mem_singleton.1 he]
  exact hk

lemma mapLeases (hf : ∀ l, Lease.Fades l (f l)) (db : Db) : Quiet db (db.mapLeases f) :=
  ⟨Fade.of_map hf db.leases, StopKept.refl _, rfl, rfl, rfl, rfl, rfl, fun _ h => h⟩

lemma transition (now : Time) (new : RunState) (reason : Option EndReason) (db : Db)
    (h : StopKept db.run.state new) : Quiet db (transitionRun now new reason db) := by
  refine ⟨?_, ?_, by simp, by simp, by simp, by simp, by simp, fun _ hc => hc.transition _ _ _⟩
  · rw [transitionRun_leases]
    exact Fade.refl _
  · rw [transitionRun_state]
    exact h

lemma maybeComplete (now : Time) (db : Db) : Quiet db (maybeCompleteRun now db) := by
  rcases maybeCompleteRun_cases now db with h | ⟨ht, _, _, rfl, rfl, h⟩
  · exact h.symm ▸ refl db
  have hk := StopKept.of_stop ht
      (.inr (terminalStateFor_terminal db.run db.run.endReason db.leases))
  rcases h with h | h <;> rw [h]
  · exact transition _ _ _ _ hk
  · exact (appendEvent now (.inl (by simp))).trans (transition _ _ _ _ hk)

lemma destroyFleet (now : Time) (why : DestroyReason) (env : Env) (db : Db) :
    Quiet db (destroyFleet now why env db) := by
  rcases destroyFleet_cases now env db why with h | ⟨k, hk, h⟩ <;> rw [h]
  · exact refl db
  · exact appendEvent now (.inl (by rcases hk with rfl | rfl <;> simp))

lemma lapse (boot now : Time) (db : Db) : Quiet db (lapseStaleLeases boot now db) := by
  refine (mapLeases (Lease.Fades.lapse boot now db.run) db).trans (of_events (.inl ?_))
  exact Db.Calm.leaseLost now _

lemma checkDuration (now : Time) (db : Db) : Quiet db (checkDuration now db) := by
  rcases checkDuration_cases now db with h | ⟨hs, h⟩ <;> rw [h]
  · exact refl db
  · refine transition now _ _ db ?_
    rcases hs with hs | hs <;> exact hs ▸ StopKept.of_active rfl (by decide)

lemma checkAutoAbort (now : Time) (env : Env) (db : Db) : Quiet db (checkAutoAbort now env db) := by
  rcases checkAutoAbort_cases now env db with h | ⟨why, reason, hopen, hdrain, _, h⟩ <;> rw [h]
  · exact refl db
  · have hk : StopKept db.run.state .failed := StopKept.of_active hopen hdrain
    exact (transition now _ _ db hk).trans (destroyFleet _ _ _ _)

lemma passChecks (boot now : Time) (env : Env) (db : Db) :
    Quiet (releaseTimeout now env (lapseStaleLeases boot now db)).db
      (Stoker.checkAutoAbort now env (passChecked boot now env db)) :=
  (checkDuration now _).trans (checkAutoAbort now env _)

lemma giveUpLeases (now : Time) (db : Db) : Quiet db (giveUpLeases now db) := by
  refine (mapLeases Lease.Fades.giveUp db).trans (of_events (.inl ?_))
  exact Db.Calm.leaseLost now _

lemma reapDraining (now : Time) (env : Env) (db : Db) : Quiet db (reapDraining now env db) := by
  rcases reapDraining_cases now env db with h | ⟨_, _, _, _, h⟩ <;> rw [h]
  · exact refl db
  · exact (destroyFleet now .stopGrace env db).trans (giveUpLeases now _)

lemma reconcile (now : Time) (env : Env) (db : Db) : Quiet db (reconcileOnBoot now env db) := by
  rcases reconcileOnBoot_cases now env db with h | h | ⟨ht, h⟩
  · exact h.symm ▸ refl db
  · exact h.symm ▸ appendEvent now (.inl (by simp))
  have hfail := transition now .failed (some .orphaned) db (StopKept.of_stop ht (.inr rfl))
  rcases h with h | h <;> rw [h]
  · exact hfail
  · exact hfail.trans (mapLeases Lease.Fades.giveUp _)

/-! ### Quiet requests -/

lemma driverCall (now : Time) (op : DriverOp) (ok : Bool) (db : Db) :
    Quiet db (driverCall now op ok db) := by
  unfold Stoker.driverCall
  split_ifs
  · exact appendEvent now (.inl (by simp))
  · exact refl db

lemma extendDriverDeadline (now : Time) (env : Env) (db : Db) :
    Quiet db (extendDriverDeadline now env db) := by
  unfold Stoker.extendDriverDeadline
  split
  · exact driverCall _ _ _ _
  · exact refl db

lemma of_run (db : Db) (run : Run) (hs : run.state = db.run.state) (ht : run.t0 = db.run.t0)
    (hn : run.snapshot = db.run.snapshot) (hd : run.degraded = db.run.degraded) :
    Quiet db { db with run := run } :=
  ⟨Fade.refl _, hs ▸ StopKept.refl _, ht, hn, hd, rfl, rfl, fun _ h => h⟩

section

variable {now : Time} {env : Env} {db db' : Db}

lemma beginStop (now : Time) (env : Env) (ht : db.run.state.terminal = false) :
    Quiet db (beginStop now env db) := by
  refine (of_run db (endPause now db.run) (by simp) (by simp) (by simp) (by simp)).trans
    ((transition now _ _ _ ?_).trans (driverCall _ _ _ _))
  simpa using StopKept.of_stop ht (.inl rfl)

lemma stop {force : Bool} (h : stopRun now force env db = .ok db') : Quiet db db' := by
  rcases stopRun_ok h with ⟨_, rfl⟩ | ⟨ht, ⟨_, rfl⟩ | ⟨_, totals, _, rfl⟩⟩
  · exact refl _
  · exact beginStop now env ht
  · refine ((beginStop now env ht).trans (driverCall now .destroy env.destroyOk _)).trans ?_
    refine Quiet.trans (Quiet.trans ?_ (mapLeases Lease.Fades.forceFinal _)) (maybeComplete _ _)
    exact of_run _ _ rfl rfl rfl rfl

lemma pause (h : pauseRun now env db = .ok db') : Quiet db db' := by
  obtain ⟨hs, rfl⟩ := pauseRun_ok h
  refine (of_run db { db.run with pausedAt := some now } rfl rfl rfl rfl).trans
    ((transition now _ _ _ ?_).trans (extendDriverDeadline _ _ _))
  exact StopKept.of_active (by simp [hs, RunState.terminal]) (by simp [hs])

lemma resume (h : resumeRun now env db = .ok db') : Quiet db db' := by
  obtain ⟨hs, rfl⟩ := resumeRun_ok h
  refine (of_run db (endPause now db.run) (by simp) (by simp) (by simp) (by simp)).trans
    ((transition now _ _ _ ?_).trans (extendDriverDeadline _ _ _))
  exact StopKept.of_active (by simp [hs, RunState.terminal]) (by simp [hs])

lemma updateLease {slot : ℕ} (hf : ∀ l, Lease.Fades l (f l)) (db : Db) :
    Quiet db (db.updateLease slot f) := by
  refine mapLeases (fun l => ?_) db
  split_ifs
  · exact hf l
  · exact Lease.Fades.refl l

lemma final {f : Final} (h : recordFinal now f db = .ok db') : Quiet db db' := by
  have hlog : Quiet db (logFinal f db) := by
    refine updateLease (fun l => ?_) db
    exact ⟨rfl, rfl, rfl, .inl rfl⟩
  obtain ⟨lease, _, ⟨_, _, _, rfl⟩ | ⟨_, ⟨_, rfl⟩ | ⟨_, totals, _, rfl⟩⟩⟩ := recordFinal_ok h
  · exact refl _
  · exact hlog.trans (maybeComplete _ _)
  · refine hlog.trans (Quiet.trans ?_ (maybeComplete _ _))
    refine (of_run (logFinal f db) { db.run with totals := totals } rfl rfl rfl rfl).trans ?_
    refine Quiet.trans (updateLease (fun l => ?_) _) (appendEvent now (.inl (nofun)))
    exact ⟨rfl, rfl, rfl, .inr (.inr rfl)⟩

end

end Quiet

end Stoker
