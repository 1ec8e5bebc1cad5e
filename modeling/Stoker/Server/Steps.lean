import Stoker.Server.Quiet

/-!
# What each step can do

One inversion lemma for each step of the system, so that an invariant is checked against what a
step does and never against its code.
-/

namespace Stoker

open Transition

/-! ### The supervisor's pass -/

variable {now : Time} {db db' : Db} {ls : List Lease} {env : Env} {rate : Option ℚ} {slot : ℕ}
    {hint : Option ℕ} {leaseId : Option LeaseId}

/-- A step-down that does not apply leaves the rows alone. -/
lemma stepDown_refused {cfg : Settings}
    (h : (stepDownForBackpressure now cfg db).result = .ok false) :
    (stepDownForBackpressure now cfg db).db = db := by
  unfold stepDownForBackpressure at h ⊢
  dsimp only at h ⊢
  split at h
  · rfl
  · rfl
  · split at h
    · rw [if_pos ‹_›]
    · exfalso
      split at h <;> simp at h

/-- The run can be judged: it is running or releasing, with a T0 and a live slot. -/
def Db.delivering (db : Db) : Bool :=
  decide (db.run.state = .running ∨ db.run.state = .releasing) && db.run.t0.isSome &&
    db.leases.any (·.state.live)

/-- The share of the live slots' recent sends that failed is too large. -/
def Db.failing (cfg : Settings) (db : Db) : Bool :=
  let deltas := recentDeliveryDeltas ((db.leases.filter (·.state.live)).map (·.slot)) db.samples
  decide (0 < deltas.1 + deltas.2) &&
    decide (cfg.backpressureMinFailedFraction ≤ (deltas.2 : ℚ) / (deltas.1 + deltas.2 : ℤ))

/-- How the check for backpressure goes. It does not apply, or there is nothing to do; a healthy
fleet closes the streak; a failing one opens it; a streak that is old enough is answered, by a
step-down or by a drain. -/
inductive BackpressureChecked (now : Time) (cfg : Settings) (db : Db) : Outcome Unit → Prop where
  | idle (why : cfg.backpressureDrainEnabled = false ∨ db.delivering = false ∨
      db.failing cfg = (openBackpressureSince db.events).isSome) :
      BackpressureChecked now cfg db ⟨db, .ok ()⟩
  | cleared {since : Time} (judged : db.delivering = true) (well : db.failing cfg = false)
      (streak : openBackpressureSince db.events = some since) :
      BackpressureChecked now cfg db ⟨db.appendEvent now .backpressureCleared, .ok ()⟩
  | detected (enabled : cfg.backpressureDrainEnabled = true) (judged : db.delivering = true)
      (ill : db.failing cfg = true) (fresh : openBackpressureSince db.events = none) :
      BackpressureChecked now cfg db ⟨db.appendEvent now .backpressureDetected, .ok ()⟩
  | steppedDown {since : Time} {result : Except String Unit} (judged : db.delivering = true)
      (ill : db.failing cfg = true) (streak : openBackpressureSince db.events = some since)
      (held : cfg.backpressureSustainedS ≤ now - since) :
      BackpressureChecked now cfg db ⟨(stepDownForBackpressure now cfg db).db, result⟩
  | drained {since : Time} (judged : db.delivering = true) (ill : db.failing cfg = true)
      (streak : openBackpressureSince db.events = some since)
      (held : cfg.backpressureSustainedS ≤ now - since) :
      BackpressureChecked now cfg db
        ⟨transitionRun now .draining (some .backpressureDrain) db, .ok ()⟩

lemma Db.delivering_iff : db.delivering = true ↔
    (db.run.state = .running ∨ db.run.state = .releasing) ∧ db.run.t0.isSome = true ∧
      db.leases.any (·.state.live) = true := by
  simp only [Db.delivering, Bool.and_eq_true, decide_eq_true_eq, and_assoc]

theorem checkBackpressure_checked (now : Time) (cfg : Settings) (db : Db) :
    BackpressureChecked now cfg db (checkBackpressure now cfg db) := by
  unfold checkBackpressure
  dsimp only
  by_cases he : cfg.backpressureDrainEnabled = false
  · rw [if_pos he]
    exact .idle (.inl he)
  rw [if_neg he]
  by_cases hs : (db.run.state ≠ .running ∧ db.run.state ≠ .releasing) ∨ db.run.t0 = none
  · rw [if_pos hs]
    refine .idle (.inr (.inl ?_))
    rcases hs with hs | hs
    · simp [Db.delivering, hs.1, hs.2]
    · simp [Db.delivering, hs]
  rw [if_neg hs]
  by_cases hl : ((db.leases.filter (·.state.live)).map (·.slot)).isEmpty = true
  · rw [if_pos hl]
    refine .idle (.inr (.inl ?_))
    have hnone : db.leases.any (·.state.live) = false := by simpa using hl
    simp [Db.delivering, hnone]
  rw [if_neg hl]
  have hdel : db.delivering = true := by
    rw [not_or, not_and_or, not_not, not_not] at hs
    exact Db.delivering_iff.2 ⟨hs.1, Option.isSome_iff_ne_none.2 hs.2, by simpa using hl⟩
  have hfail : ∀ d : ℤ × ℤ,
      d = recentDeliveryDeltas ((db.leases.filter (·.state.live)).map (·.slot)) db.samples →
      (decide (0 < d.1 + d.2) &&
        decide (cfg.backpressureMinFailedFraction ≤ (d.2 : ℚ) / (d.1 + d.2 : ℤ))) =
          db.failing cfg := by
    rintro _ rfl
    rfl
  rw [hfail _ rfl]
  cases hf : db.failing cfg with
  | false =>
    cases hopen : openBackpressureSince db.events with
    | none => exact .idle (.inr (.inr (by rw [hf, hopen]; rfl)))
    | some since => exact .cleared hdel hf hopen
  | true =>
    cases hopen : openBackpressureSince db.events with
    | none => exact .detected (by simpa using he) hdel hf hopen
    | some since =>
      dsimp only
      split_ifs with hyoung
      · exact .idle (.inr (.inr (by rw [hf, hopen]; rfl)))
      · rw [not_lt] at hyoung
        cases cfg.backpressureAction with
        | drain => exact .drained hdel hf hopen hyoung
        | stepDown =>
          split
          · exact .steppedDown hdel hf hopen hyoung
          · exact .steppedDown hdel hf hopen hyoung
          · rename_i hres
            rw [stepDown_refused hres]
            exact .drained hdel hf hopen hyoung

section

variable {cfg : Settings} {boot now : Time} {env : Env} {I : Db → Prop}

lemma releaseTimeout_rule (quiet : ∀ a b, Quiet a b → I a → I b)
    (release : ∀ a, a.run.state = .provisioning → a.run.t0 = none →
      (∃ l ∈ a.leases, l.state = .ready) → I a → I (evaluateRelease now true a).db)
    {db : Db} (h : I db) : I (releaseTimeout now env db).db := by
  rcases releaseTimeout_cases now env db with he | ⟨hs, ht, ⟨hr, he⟩ | he⟩ <;> rw [he]
  · exact h
  · exact release db hs ht hr h
  · have hk : StopKept db.run.state .failed := hs ▸ StopKept.of_active rfl (by decide)
    exact quiet _ _ ((Quiet.transition now _ _ db hk).trans (Quiet.destroyFleet _ _ _ _)) h

lemma checkBackpressure_rule (quiet : ∀ a b, Quiet a b → I a → I b)
    (stepDown : ∀ a, (a.run.state = .running ∨ a.run.state = .releasing) → a.run.t0.isSome = true →
      I a → I (stepDownForBackpressure now cfg a).db)
    {db : Db} (h : I db) : I (checkBackpressure now cfg db).db := by
  have hcheck := checkBackpressure_checked now cfg db
  generalize checkBackpressure now cfg db = checked at hcheck ⊢
  cases hcheck with
  | idle => exact h
  | cleared => exact quiet _ _ (Quiet.appendEvent now (.inl (by simp))) h
  | detected _ judged =>
    have ht := (Db.delivering_iff.1 judged).2.1
    exact quiet _ _ (Quiet.appendEvent now (.inr (Option.isSome_iff_ne_none.1 ht))) h
  | steppedDown judged =>
    obtain ⟨hrun, ht, _⟩ := Db.delivering_iff.1 judged
    exact stepDown db hrun ht h
  | drained judged =>
    have hk : StopKept db.run.state .draining := by
      rcases (Db.delivering_iff.1 judged).1 with hr | hr <;>
        exact hr ▸ StopKept.of_active rfl (by decide)
    exact quiet _ _ (Quiet.transition now .draining (some .backpressureDrain) db hk) h

/-- What a pass keeps: it is enough to look at quiet steps, at a forced release and at a
step-down. -/
theorem supervisorTick_rule (quiet : ∀ a b, Quiet a b → I a → I b)
    (release : ∀ a, a.run.state = .provisioning → a.run.t0 = none →
      (∃ l ∈ a.leases, l.state = .ready) → I a → I (evaluateRelease now true a).db)
    (stepDown : ∀ a, (a.run.state = .running ∨ a.run.state = .releasing) → a.run.t0.isSome = true →
      I a → I (stepDownForBackpressure now cfg a).db)
    {db : Db} (h : I db) : I (supervisorTick cfg boot now env db) := by
  have h₁ : I (releaseTimeout now env (lapseStaleLeases boot now db)).db :=
    releaseTimeout_rule quiet release (quiet _ _ (Quiet.lapse boot now db) h)
  rcases supervisorTick_cases now env db cfg boot with
    ⟨_, he | he⟩ | ⟨_, _, _, he⟩ | ⟨_, _, _, c, rfl, he⟩
  · exact he.symm ▸ h
  · exact he.symm ▸ quiet _ _ (Quiet.destroyFleet now _ env db) h
  · exact he.symm ▸ h₁
  have h₂ := checkBackpressure_rule quiet stepDown (quiet _ _ (Quiet.passChecks boot now env db) h₁)
  rcases he with he | he <;> rw [he]
  · exact h₂
  · exact quiet _ _ ((Quiet.reapDraining now env _).trans (Quiet.maybeComplete now _)) h₂

end

/-! ### Mild steps -/

/-- The rate cannot be split over some number of slots. -/
def Db.Unsplittable (db : Db) : Prop := ∃ n e, 0 < n ∧
  buildShareList db.run.snapshot.rateMode db.run.snapshot.rateValue n = .error e

/-- A step that deals no share, makes no lease live and gives out no id. T0 may be set, and the run
marked degraded once it is, or when a partial release fails. -/
structure Mild (db db' : Db) : Prop where
  leases : Fade db.leases db'.leases
  snapshot : ∃ rate, db'.run.snapshot = { db.run.snapshot with backpressureOriginalRate := rate }
  nextId : db'.nextId = db.nextId
  hist : db'.hist = db.hist
  unreleased : db'.run.t0 = none → db.run.t0 = none ∧
    (db'.run.degraded = db.run.degraded ∨ db.Unsplittable) ∧ (db.Calm → db'.Calm)

lemma Quiet.mild (h : Quiet db db') : Mild db db' := by
  refine ⟨h.leases, ⟨_, h.snapshot⟩, h.nextId, h.hist, fun ht => ?_⟩
  have ht' := h.t0.symm.trans ht
  exact ⟨ht', .inl h.degraded, h.calm ht'⟩

namespace Mild

/-- A step that sets T0. -/
lemma of_t0 {t : Time} (hl : db'.leases = db.leases) (hs : db'.run.snapshot = db.run.snapshot)
    (hn : db'.nextId = db.nextId) (hh : db'.hist = db.hist) (ht : db'.run.t0 = some t) :
    Mild db db' := by
  refine ⟨hl ▸ Fade.refl _, ⟨_, hs⟩, hn, hh, fun h => ?_⟩
  rw [ht] at h
  cases h

lemma finishLaunch (now : Time) (result : LaunchResult) (loaded : Run) (db : Db) :
    Mild db (finishLaunch now result loaded db) := by
  obtain ⟨hl, ht, hs, hd, hn, hh⟩ := finishLaunch_frame now result loaded db
  refine ⟨hl ▸ Fade.refl _, ⟨_, hs⟩, hn, hh, fun h => ⟨ht.symm.trans h, .inl hd, fun hc => ?_⟩⟩
  cases result with
  | launched ref =>
    have hv : ({ db with run := { loaded with driverRef := some ref } } : Db).Calm := hc
    exact hv.transition now .provisioning none
  | driverError =>
    have hv : ({ db with run := loaded } : Db).Calm := hc
    exact hv.transition now .failed (some .provisionFailed)
  | crashed => exact hc

lemma finishReady (now : Time) (loaded : Run) (own : Lease) (db : Db) :
    Mild db (finishReady now loaded own db) := by
  rcases finishReady_cases now loaded own db with h | ⟨_, _, _, ht, _, hs, _, hl, hn, hh⟩
  · rw [h]
    exact (Quiet.refl db).mild
  · exact of_t0 hl hs hn hh ht

lemma noteOriginalRate (current : ℚ) (db : Db) : Mild db (noteOriginalRate current db) :=
  ⟨Fade.refl _, ⟨_, rfl⟩, rfl, rfl, fun h => ⟨h, .inl rfl, fun hc => hc⟩⟩

lemma mode (h : Mild db db') : db'.run.snapshot.rateMode = db.run.snapshot.rateMode := by
  obtain ⟨_, hs⟩ := h.snapshot
  rw [hs]

end Mild

/-- An evaluation is mild, or releases the ready slots only. -/
lemma evaluateRelease_mild (now : Time) (force : Bool) (db : Db) :
    Mild db (evaluateRelease now force db).db ∨ db.run.t0 = none ∧ ∃ shares,
      buildShareList db.run.snapshot.rateMode db.run.snapshot.rateValue
          (readySlots db.leases).length = .ok shares ∧
        (evaluateRelease now force db).db = partialRelease now shares db := by
  have hlost : Quiet db (db.mapLeases declareLost) := Quiet.mapLeases Lease.Fades.declareLost db
  rcases evaluateRelease_cases now force db with
    h | ⟨ht, hs, ⟨l, hl, hr⟩, ⟨_, h⟩ | ⟨_, _, h | ⟨e, hb, h⟩ | ⟨shares, hb, h⟩⟩⟩ <;> rw [h]
  · exact .inl (Quiet.refl db).mild
  · exact .inl (.of_t0 (by simp) (by simp) (by simp) (by simp) (setT0_t0 now db))
  · have hopen : db.run.state.terminal = false := by
      revert hs
      cases db.run.state <;> decide
    exact .inl (hlost.trans (Quiet.transition now .failed _ _ (.of_stop hopen (.inr rfl)))).mild
  · have hpos : 0 < (readySlots db.leases).length := by
      refine List.length_pos_of_mem (List.mem_map.2 ⟨l, List.mem_filter.2 ⟨hl, ?_⟩, rfl⟩)
      simpa using hr
    exact .inl ⟨hlost.leases, ⟨_, rfl⟩, rfl, rfl,
      fun _ => ⟨ht, .inr ⟨_, e, hpos, hb⟩, fun hc => hc⟩⟩
  · exact .inr ⟨ht, shares, hb, rfl⟩

variable {I : Db → Prop}

/-- What a pass keeps that no mild step breaks: a partial release and a rescale deal shares, nothing
else does. -/
theorem supervisorTick_deals {cfg : Settings} {boot : Time} (mild : ∀ a b, Mild a b → I a → I b)
    (release : ∀ a shares, a.run.t0 = none →
      buildShareList a.run.snapshot.rateMode a.run.snapshot.rateValue (readySlots a.leases).length =
        .ok shares → I a → I (partialRelease now shares a))
    (rescale : ∀ a b rate, a.run.t0.isSome = true → rescaleRun now rate a = .ok b → I a → I b)
    (h : I db) : I (supervisorTick cfg boot now env db) := by
  refine supervisorTick_rule (fun a b hq => mild a b hq.mild) ?_ ?_ h
  · intro a _ _ _ ha
    rcases evaluateRelease_mild now true a with hm | ⟨ht, shares, hb, he⟩
    · exact mild a _ hm ha
    · exact he ▸ release a shares ht hb ha
  · intro a _ ht ha
    rcases stepDown_cases now cfg a with he | ⟨current, _, _, _, he | ⟨b, hr, he⟩⟩ <;> rw [he]
    · exact ha
    · exact mild a _ (.noteOriginalRate current a) ha
    · have hnoted := mild a _ (.noteOriginalRate current a) ha
      refine mild b _ ⟨Fade.refl _, ⟨_, rfl⟩, rfl, rfl, fun hnone => ?_⟩
        (rescale (noteOriginalRate current a) b _ ht hr hnoted)
      have ht' := (rescaleRun_frame hr).2.symm.trans hnone
      exact absurd ht' (Option.isSome_iff_ne_none.1 ht)

lemma CrossedOr.stopKept {a b : RunState} (h : CrossedOr a b) : StopKept a b := by
  rcases h with h | ⟨h, _⟩
  · exact h ▸ StopKept.refl _
  · exact h ▸ StopKept.of_active rfl (by decide)

/-! ### The upkeep of a lease -/

/-- What a worker's request leaves of a row that it does not issue: whose it is, and its share. The
row may get ready, or start once T0 is set; a lost row does so only if the request comes back with
its id. -/
structure Lease.Upkept (t0 : Option Time) (slot : ℕ) (leaseId : Option LeaseId) (l l' : Lease) :
    Prop where
  ident : l'.ident = l.ident
  pub : l'.share.pub = l.share.pub
  state : l'.state = l.state ∨ (l'.state = .ready ∨ l'.state = .running ∧ t0.isSome = true) ∧
    ((l.state = .claimed ∨ l.state = .ready) ∨
      l.state = .lost ∧ l.slot = slot ∧ leaseId = some l.leaseId)

namespace Lease.Upkept

variable {t0 : Option Time} {l l' : Lease}

lemma refl (l : Lease) : Upkept t0 slot leaseId l l := ⟨rfl, rfl, .inl rfl⟩

lemma slot_eq (h : Upkept t0 slot leaseId l l') : l'.slot = l.slot := congrArg Prod.fst h.ident

lemma done_iff (h : Upkept t0 slot leaseId l l') : l'.state = .done ↔ l.state = .done := by
  rcases h.state with h | ⟨h | ⟨h, _⟩, (h' | h') | ⟨h', _⟩⟩
  · rw [h]
  all_goals simp [h, h']

lemma running (h : Upkept t0 slot leaseId l l') (hr : l'.state = .running) :
    l.state = .running ∨ t0.isSome = true := by
  rcases h.state with h | ⟨h | ⟨_, ht⟩, _⟩
  · exact .inl (h ▸ hr)
  · rw [hr] at h
    cases h
  · exact .inr ht

lemma live (h : Upkept t0 slot leaseId l l') (hl : l'.state.live = true) :
    l.state.live = true ∨ l.state = .lost ∧ l.slot = slot ∧ leaseId = some l.leaseId := by
  rcases h.state with h | ⟨_, (h | h) | h⟩
  · exact .inl (h ▸ hl)
  · exact .inl (by rw [h]; rfl)
  · exact .inl (by rw [h]; rfl)
  · exact .inr h

end Lease.Upkept

/-- A ready post, a heartbeat, or a claim that hands a holder the lease it has. -/
structure Upkeep (slot : ℕ) (leaseId : Option LeaseId) (db db' : Db) : Prop where
  leases : List.Forall₂ (Lease.Upkept db.run.t0 slot leaseId) db.leases db'.leases
  state : CrossedOr db.run.state db'.run.state
  t0 : db'.run.t0 = db.run.t0
  snapshot : db'.run.snapshot = db.run.snapshot
  degraded : db'.run.degraded = db.run.degraded
  nextId : db'.nextId = db.nextId
  hist : db'.hist = db.hist

namespace Upkeep

lemma rows_updated {g : Lease → Lease}
    (h : ∀ l ∈ db.leases, l.slot = slot → Lease.Upkept db.run.t0 slot leaseId l (g l)) :
    List.Forall₂ (Lease.Upkept db.run.t0 slot leaseId) db.leases
      (db.updateLease slot g).leases := by
  refine List.forall₂_map_right_iff.2 (List.forall₂_same.2 fun l hl => ?_)
  split_ifs with hs
  · exact h l hl hs
  · exact .refl l

lemma ready (h : markReady now slot leaseId db = .ok db') : Upkeep slot none db db' := by
  obtain ⟨_, _, _, hls, hrun, hnext, hhist⟩ := markReady_ok h
  refine ⟨hls ▸ rows_updated fun l _ _ => ⟨rfl, rfl, ?_⟩,
    .inl (by rw [hrun]), by rw [hrun], by rw [hrun], by rw [hrun], hnext, hhist⟩
  unfold readyLease
  split_ifs with hs
  · exact .inr ⟨.inl rfl, .inl hs⟩
  · exact .inl rfl

lemma again (now : Time) (slot : ℕ) (k : EventKind) (db : Db) : Upkeep slot none db
    ((db.updateLease slot fun l => { l with lastHeartbeatAt := some now }).appendEvent now k) :=
  ⟨rows_updated fun _ _ _ => ⟨rfl, rfl, .inl rfl⟩, .inl rfl, rfl, rfl, rfl, rfl, rfl⟩

lemma heartbeat (now : Time) (hb : Heartbeat) (hn : (db.leases.map (·.slot)).Nodup)
    (hserved : Served db.run hb.protocolVersion → leaseId = hb.leaseId) :
    Upkeep hb.slot leaseId db (recordHeartbeat now hb db).1 := by
  rcases recordHeartbeat_cases now hb db with
    ⟨h, _⟩ | ⟨lease, hfind, hid, d, rfl, _, hls, hcross, ht, hsnap, hdeg, hnext, hhist⟩
  · rw [h]
    exact ⟨List.forall₂_same.2 fun l _ => .refl l, .inl rfl, rfl, rfl, rfl, rfl, rfl⟩
  · refine ⟨hls ▸ rows_updated fun l hl hs => ?_, hcross, ht, hsnap, hdeg, hnext, hhist⟩
    obtain rfl := findLease_unique hn hfind hl hs
    have hpub := (heartbeatCommand_frame now db.run hb.protocolVersion (renewLease now hb l)).2.1
    refine ⟨answered_ident .., hpub.trans (renewLease_frame now hb l).2.2.1, ?_⟩
    rcases answered_state now db.run hb.protocolVersion hb l with
      hst | ⟨hon, hlost, hst⟩ | ⟨hdue, hset, hst⟩
    · exact .inl hst
    · refine .inr ⟨?_, .inr ⟨hlost, hs, (hserved hon).trans hid⟩⟩
      split_ifs at hst with hset
      · exact .inr ⟨hst, hset⟩
      · exact .inl hst
    · exact .inr ⟨.inr ⟨hst, hset⟩, .inl hdue⟩

end Upkeep

/-- What a claim establishes: handing out the lease the holder has, or issuing one, perhaps with the
shares dealt anew. -/
lemma claimLease_rule {holder : String} (hc : claimLease now holder hint db = .ok (db', slot))
    (event : ∀ a k, I a → I (a.appendEvent now k)) (again : ∀ a, Upkeep slot none db a → I a)
    (issued : I (issuedDb now holder slot db))
    (takeover : db.run.t0.isSome = true → I (issuedDb now holder slot db) →
      I (reapportionOnTakeover now slot (issuedDb now holder slot db))) :
    I db' := by
  rcases (claimLease_ok hc).2 with ⟨_, _, _, _, _, rfl⟩ | ⟨_, _, _, _, rfl⟩
  · exact again _ (.again now slot _ db)
  · refine event _ _ ?_
    split_ifs with htake
    · exact takeover htake.2 issued
    · exact issued

/-! ### What a step does -/

namespace Sys

/-- What can come of an action. -/
inductive Happens (cfg : Settings) (s : Sys) : Action → Sys → Prop where
  /-- The request is refused, or nothing waits for this step. -/
  | idle {a : Action} : Happens cfg s a s
  | launch {now : Time} {result : LaunchResult} {loaded : Run} (h : s.launching = some loaded) :
      Happens cfg s (.launch now result)
        { s with db := finishLaunch now result loaded s.db, launching := none }
  | claim {now : Time} {holder : String} {hint : Option ℕ} {db : Db} {slot : ℕ} {lease : Lease}
      (h : claimLease now holder hint s.db = .ok (db, slot)) (hl : db.findLease slot = some lease) :
      Happens cfg s (.claim now holder hint)
        { s with db := db, sent := s.sent ++ [.slice holder (buildSlice db.run lease)] }
  | ready {now : Time} {slot : ℕ} {leaseId : Option LeaseId} {db : Db} {own : Lease}
      (h : markReady now slot leaseId s.db = .ok db) :
      Happens cfg s (.ready now slot leaseId)
        { s with db := db, readying := s.readying ++ [(s.db.run, own)] }
  | release {now : Time} {i : ℕ} {loaded : Run} {own : Lease}
      (h : s.readying[i]? = some (loaded, own)) :
      Happens cfg s (.release now i)
        { s with db := finishReady now loaded own s.db, readying := s.readying.eraseIdx i }
  | heartbeat {now : Time} {hb : Heartbeat} : Happens cfg s (.heartbeat now hb) (s.heartbeat now hb)
  | final {now : Time} {f : Final} {db : Db} (h : recordFinal now f s.db = .ok db) :
      Happens cfg s (.final now f) { s with db := db }
  | stop {now : Time} {force : Bool} {env : Env} {db : Db}
      (h : stopRun now force env s.db = .ok db) :
      Happens cfg s (.stop now force env) { s with db := db }
  | pause {now : Time} {env : Env} {db : Db} (h : pauseRun now env s.db = .ok db) :
      Happens cfg s (.pause now env) { s with db := db }
  | resume {now : Time} {env : Env} {db : Db} (h : resumeRun now env s.db = .ok db) :
      Happens cfg s (.resume now env) { s with db := db }
  | scale {now : Time} {workers : ℕ} {env : Env} {db : Db}
      (h : scaleRunEndpoint now workers env s.db = .ok db) :
      Happens cfg s (.scale now workers env) { s with db := db }
  | rescale {now : Time} {rate : ℚ} {env : Env} {db : Db} (hr : 0 < rate)
      (h : rescaleRun now (some rate) s.db = .ok db) :
      Happens cfg s (.rescale now rate env) { s with db := db }
  | tick {boot now : Time} {env : Env} :
      Happens cfg s (.tick boot now env) { s with db := supervisorTick cfg boot now env s.db }
  | reconcile {now : Time} {env : Env} :
      Happens cfg s (.reconcile now env) { s with db := reconcileOnBoot now env s.db }

lemma Happens.commit {cfg : Settings} {s : Sys} {a : Action} {r : Except HttpError Db}
    (h : ∀ db, r = .ok db → Happens cfg s a { s with db := db }) :
    Happens cfg s a (s.commit r) := by
  cases r with
  | error e => exact .idle
  | ok db => exact h db rfl

/-- Every step is one of these. -/
theorem step_happens (cfg : Settings) (a : Action) (s : Sys) :
    Happens cfg s a (Sys.step cfg a s) := by
  cases a with
  | launch now result =>
    simp only [step, Sys.launch]
    cases hl : s.launching with
    | none => exact .idle
    | some loaded => exact .launch hl
  | claim now holder hint =>
    simp only [step, Sys.claim]
    cases hc : claimLease now holder hint s.db with
    | error e => exact .idle
    | ok r =>
      cases hl : r.1.findLease r.2 with
      | none => simpa only [hl] using Happens.idle
      | some lease => simpa only [hl] using Happens.claim hc hl
  | ready now slot leaseId =>
    simp only [step, Sys.ready]
    cases hm : markReady now slot leaseId s.db with
    | error e => exact .idle
    | ok db =>
      cases hl : db.findLease slot with
      | none => simpa only [hl] using Happens.idle
      | some own => simpa only [hl] using Happens.ready hm
  | release now i =>
    simp only [step, Sys.release]
    cases hi : s.readying[i]? with
    | none => exact .idle
    | some p => exact .release hi
  | heartbeat now hb => exact .heartbeat
  | final now f => exact .commit fun db h => .final h
  | stop now force env => exact .commit fun db h => .stop (stopRunEndpoint_ok h)
  | pause now env => exact .commit fun db h => .pause (pauseRunEndpoint_ok h)
  | resume now env => exact .commit fun db h => .resume (resumeRunEndpoint_ok h)
  | scale now workers env => exact .commit fun db h => .scale h
  | rescale now rate env =>
    exact .commit fun db h => .rescale (rescaleRunEndpoint_ok h).1 (rescaleRunEndpoint_ok h).2
  | tick boot now env => exact .tick
  | reconcile now env => exact .reconcile

end Sys

/-! ### The stored rows after a step -/

/-- What a step leaves stored: a quiet step, or one of those that are not quiet. -/
inductive Sys.Stored (cfg : Settings) (s : Sys) : Action → Db → Prop where
  | quiet {a : Action} {db : Db} (h : Quiet s.db db) : Stored cfg s a db
  | launch {now : Time} {result : LaunchResult} {loaded : Run} (h : s.launching = some loaded) :
      Stored cfg s (.launch now result) (finishLaunch now result loaded s.db)
  | claim {now : Time} {holder : String} {hint : Option ℕ} {db : Db} {slot : ℕ}
      (h : claimLease now holder hint s.db = .ok (db, slot)) :
      Stored cfg s (.claim now holder hint) db
  | ready {now : Time} {slot : ℕ} {leaseId : Option LeaseId} {db : Db}
      (h : markReady now slot leaseId s.db = .ok db) : Stored cfg s (.ready now slot leaseId) db
  | release {now : Time} {i : ℕ} {loaded : Run} {own : Lease}
      (h : s.readying[i]? = some (loaded, own)) :
      Stored cfg s (.release now i) (finishReady now loaded own s.db)
  | heartbeat {now : Time} {hb : Heartbeat} :
      Stored cfg s (.heartbeat now hb) (recordHeartbeat now hb s.db).1
  | scale {now : Time} {workers : ℕ} {env : Env} {db : Db}
      (h : scaleRunEndpoint now workers env s.db = .ok db) :
      Stored cfg s (.scale now workers env) db
  | rescale {now : Time} {rate : ℚ} {env : Env} {db : Db} (hr : 0 < rate)
      (h : rescaleRun now (some rate) s.db = .ok db) : Stored cfg s (.rescale now rate env) db
  | tick {boot now : Time} {env : Env} :
      Stored cfg s (.tick boot now env) (supervisorTick cfg boot now env s.db)

theorem Sys.step_stored (cfg : Settings) (a : Action) (s : Sys) :
    Sys.Stored cfg s a (Sys.step cfg a s).db := by
  have hstep := Sys.step_happens cfg a s
  generalize Sys.step cfg a s = t at hstep ⊢
  cases hstep with
  | idle => exact .quiet (Quiet.refl _)
  | launch h => exact .launch h
  | claim h => exact .claim h
  | ready h => exact .ready h
  | release h => exact .release h
  | heartbeat => exact .heartbeat
  | final h => exact .quiet (Quiet.final h)
  | stop h => exact .quiet (Quiet.stop h)
  | pause h => exact .quiet (Quiet.pause h)
  | resume h => exact .quiet (Quiet.resume h)
  | scale h => exact .scale h
  | rescale hr h => exact .rescale hr h
  | tick => exact .tick
  | reconcile => exact .quiet (Quiet.reconcile _ _ _)

theorem Sys.step_snapshot (cfg : Settings) (a : Action) (s : Sys) :
    (Sys.step cfg a s).db.run.snapshot = s.db.run.snapshot ∨
    (∃ now workers env, a = .scale now workers env ∧
      scaleRunEndpoint now workers env s.db = .ok (Sys.step cfg a s).db) ∨
    (∃ now rate env, a = .rescale now rate env ∧
      rescaleRun now (some rate) s.db = .ok (Sys.step cfg a s).db) ∨
    ∃ boot now env, a = .tick boot now env ∧
      (Sys.step cfg a s).db = supervisorTick cfg boot now env s.db := by
  have hstep := Sys.step_stored cfg a s
  generalize (Sys.step cfg a s).db = db at hstep ⊢
  cases hstep with
  | quiet hq => exact .inl hq.snapshot
  | @launch now result loaded => exact .inl (finishLaunch_frame now result loaded s.db).2.2.1
  | claim hc => exact .inl (by rw [claimLease_run hc])
  | ready hm => exact .inl (Upkeep.ready hm).snapshot
  | @release now _ loaded own =>
    rcases finishReady_cases now loaded own s.db with h | ⟨_, _, _, _, _, hsnap, _⟩
    · exact .inl (by rw [h])
    · exact .inl hsnap
  | heartbeat => exact .inl (recordHeartbeat_run _ _ s.db).2.2
  | scale h => exact .inr (.inl ⟨_, _, _, rfl, h⟩)
  | rescale _ h => exact .inr (.inr (.inl ⟨_, _, _, rfl, h⟩))
  | tick => exact .inr (.inr (.inr ⟨_, _, _, rfl, rfl⟩))

/-! ### The answers sent at a step -/

theorem Sys.step_sent (cfg : Settings) (a : Action) (s : Sys) :
    (Sys.step cfg a s).sent = s.sent ∨
    (∃ now holder hint db slot lease, a = .claim now holder hint ∧
      claimLease now holder hint s.db = .ok (db, slot) ∧ db.findLease slot = some lease ∧
      (Sys.step cfg a s).db = db ∧
      (Sys.step cfg a s).sent = s.sent ++ [.slice holder (buildSlice db.run lease)]) ∨
    ∃ now hb, a = .heartbeat now hb ∧
      (Sys.step cfg a s).db = (recordHeartbeat now hb s.db).1 ∧
      (Sys.step cfg a s).sent =
        s.sent ++ [.reply hb.slot hb.leaseId (recordHeartbeat now hb s.db).2] := by
  have hstep := Sys.step_happens cfg a s
  generalize Sys.step cfg a s = t at hstep ⊢
  cases hstep with
  | @claim now holder hint db slot lease h hl =>
    exact .inr (.inl ⟨now, holder, hint, db, slot, lease, rfl, h, hl, rfl, rfl⟩)
  | @heartbeat now hb => exact .inr (.inr ⟨now, hb, rfl, rfl, rfl⟩)
  | _ => exact .inl rfl

end Stoker
