import Stoker.Lifecycle.RateBound

/-!
# Release hands out the whole rate

At the release the ready leases should share the whole rate, and a run released with fewer slots
than it has should be marked degraded. Both hold when every slot is ready, and when a forced release
finds a straggler: then the rate is split over the ready slots. But a release that finds some slots
lost or done and none free or claimed goes ahead as if the fleet were complete: it neither splits
the rate nor marks the run.
-/

open List

namespace Stoker

open Transition

/-! ### Before the release no backpressure is detected -/

/-- A run that is not released is calm. -/
def CalmUntilT0 (db : Db) : Prop := db.run.t0 = none → db.Calm

variable {cfg : Settings} {env : Env}

namespace CalmUntilT0

variable {db db' : Db}

lemma of_t0 (h : db.run.t0 ≠ none) : CalmUntilT0 db := fun ht => absurd ht h

lemma mild (h : CalmUntilT0 db) (hm : Mild db db') : CalmUntilT0 db' := by
  intro ht
  obtain ⟨ht', _, hcalm⟩ := hm.unreleased ht
  exact hcalm (h ht')

lemma takeover (h : db.Calm) (now : Time) (slot : ℕ) :
    (reapportionOnTakeover now slot db).Calm := by
  rcases reapportionOnTakeover_eq now slot db with he | ⟨_, _, es, _, hes, he⟩ <;> rw [he]
  · exact h
  · refine h.append rfl fun e hmem => ?_
    obtain ⟨_, _, rfl⟩ := hes e hmem
    simp

variable {now : Time} {slot : ℕ}

lemma claim {holder : String} {hint : Option ℕ} (h : CalmUntilT0 db)
    (hc : claimLease now holder hint db = .ok (db', slot)) : CalmUntilT0 db' := by
  intro ht
  rw [claimLease_run hc] at ht
  have hcalm : db.Calm := h ht
  rcases (claimLease_ok hc).2 with ⟨held, _, _, _, _, rfl⟩ | ⟨lease, _, _, _, rfl⟩
  · refine Db.Calm.appendEvent ?_ now (by simp)
    exact hcalm
  · have hi : (issuedDb now holder slot db).Calm := hcalm
    refine Db.Calm.appendEvent ?_ now (by simp)
    split_ifs
    · exact takeover hi now slot
    · exact hi

lemma ready {leaseId : Option LeaseId} (h : CalmUntilT0 db)
    (hr : markReady now slot leaseId db = .ok db') : CalmUntilT0 db' := by
  intro ht
  have hc : db.Calm := h ((Upkeep.ready hr).t0.symm.trans ht)
  have hm : (db.updateLease slot (readyLease now)).Calm := hc
  unfold markReady at hr
  split at hr
  · cases hr
  · split_ifs at hr <;> cases hr
    · exact hm.appendEvent now (by simp)
    · exact hm

lemma heartbeat (h : CalmUntilT0 db) (now : Time) (hb : Heartbeat) :
    CalmUntilT0 (recordHeartbeat now hb db).1 := by
  intro ht
  have hc : db.Calm := h ((recordHeartbeat_run now hb db).2.1.symm.trans ht)
  have hstored : ∀ l, (storeHeartbeat now hb l db).Calm := by
    intro l
    unfold storeHeartbeat
    split_ifs
    · refine Db.Calm.appendEvent ?_ now (by simp)
      exact hc
    · exact hc
  have hcross : ∀ d : Db, d.Calm → (crossT0 now hb.slot d).Calm := by
    intro d hd
    unfold crossT0 maybeMarkRunning
    split_ifs
    · exact (hd.appendEvent now (by simp)).transition now _ _
    · exact hd.appendEvent now (by simp)
  unfold recordHeartbeat
  split
  · exact hc
  · split_ifs
    · exact hc
    · dsimp only
      split_ifs
      · exact hcross _ (hstored _)
      · exact hstored _

lemma rescale {value : Option ℚ} (h : CalmUntilT0 db)
    (hr : rescaleRun now value db = .ok db') : CalmUntilT0 db' := by
  rcases rescaleRun_ok hr with rfl | ⟨_, _, shares, _, rfl⟩
  · exact h
  · intro ht
    have hc : db.Calm := h ht
    refine Db.Calm.appendEvent ?_ now (by simp)
    exact hc

lemma scale {workers : ℕ} (h : CalmUntilT0 db)
    (hr : scaleRunEndpoint now workers env db = .ok db') : CalmUntilT0 db' := by
  obtain ⟨_, _, shares, _, rfl⟩ := scaleRunEndpoint_ok hr
  intro ht
  have hc : db.Calm := h ht
  refine Db.Calm.appendEvent ?_ now (by simp)
  exact hc

lemma tick (h : CalmUntilT0 db) (cfg : Settings) (boot now : Time) (env : Env) :
    CalmUntilT0 (supervisorTick cfg boot now env db) := by
  refine supervisorTick_deals (I := CalmUntilT0) ?_ ?_ ?_ h
  · exact fun a b hm ha => ha.mild hm
  · exact fun a shares _ _ _ => of_t0 (by simp)
  · exact fun a b _ _ hr ha => ha.rescale hr

theorem reachable {spec : Snapshot} {G : Action → Sys → Prop}
    {as : List Action} {s : Sys} (hp : provisionRun now spec = .ok db)
    (h : Runs (Sys.step cfg) G (Sys.start db) as s) : CalmUntilT0 s.db := by
  refine h.invariant (I := fun s => CalmUntilT0 s.db) (fun a s _ hs => ?_) ?_
  · have hstep := Sys.step_stored cfg a s
    generalize (Sys.step cfg a s).db = d at hstep ⊢
    cases hstep with
    | quiet hq => exact hs.mild hq.mild
    | launch => exact hs.mild (.finishLaunch _ _ _ _)
    | claim hc => exact hs.claim hc
    | ready hm => exact hs.ready hm
    | release => exact hs.mild (.finishReady _ _ _ _)
    | heartbeat => exact hs.heartbeat _ _
    | scale hr => exact hs.scale hr
    | rescale _ hr => exact hs.rescale hr
    | tick => exact hs.tick cfg _ _ _
  · obtain ⟨_, shares, _, rfl⟩ := provisionRun_ok hp
    intro _ e he
    simp only [Sys.start, provisionedDb, mem_cons, not_mem_nil, or_false] at he
    rcases he with rfl | rfl <;> simp

end CalmUntilT0

/-! ### The pass that sets T0 -/

/-- The leases, the degraded mark and the snapshot are the same. -/
def SameFleet (db db' : Db) : Prop :=
  db'.leases = db.leases ∧ db'.run.degraded = db.run.degraded ∧
    db'.run.snapshot = db.run.snapshot

/-- If the run is draining, it has been since this very instant. -/
def JustDraining (now : Time) (db : Db) : Prop :=
  db.run.state = .draining → ∃ e ∈ db.events, e.ts = now ∧ ∃ old r, e.kind = .state old .draining r

lemma lastStateTs_ge {state : RunState} {events : List RunEvent} {e : RunEvent} (he : e ∈ events)
    {old : RunState} {r : Option EndReason} (hk : e.kind = .state old state r) :
    ∃ ts, lastStateTs state events = some ts ∧ e.ts ≤ ts := by
  unfold lastStateTs
  generalize hts : events.filterMap _ = tss
  have hmem : e.ts ∈ tss := by
    rw [← hts]
    exact mem_filterMap.2 ⟨e, he, by simp [hk]⟩
  -- the fold keeps the largest instant seen, starting from any accumulator
  have hfold : ∀ (acc : Time) (tss : List Time), ∃ ts,
      tss.foldl (fun last ts => some (last.elim ts (max ts))) (some acc) = some ts ∧
        acc ≤ ts ∧ ∀ x ∈ tss, x ≤ ts := by
    intro acc tss
    induction tss generalizing acc with
    | nil => exact ⟨acc, rfl, le_refl _, by simp⟩
    | cons x tss ih =>
      obtain ⟨ts, hts, hle, hall⟩ := ih (max x acc)
      refine ⟨ts, hts, (le_max_right _ _).trans hle, fun y hy => ?_⟩
      rcases mem_cons.1 hy with rfl | hy
      · exact (le_max_left _ _).trans hle
      · exact hall y hy
  cases tss with
  | nil => cases hmem
  | cons x tss =>
    obtain ⟨ts, hts, hle, hall⟩ := hfold x tss
    refine ⟨ts, hts, ?_⟩
    rcases mem_cons.1 hmem with rfl | hmem
    · exact hle
    · exact hall _ hmem

variable {db : Db} {now : Time}

lemma checkDuration_same (now : Time) (hc : db.Calm) (hs : db.run.state ≠ .draining) :
    SameFleet db (checkDuration now db) ∧ (checkDuration now db).Calm ∧
      JustDraining now (checkDuration now db) := by
  rcases checkDuration_cases now db with h | ⟨_, h⟩ <;> rw [h]
  · exact ⟨⟨rfl, rfl, rfl⟩, hc, fun h => absurd h hs⟩
  · refine ⟨⟨by simp, by simp, by simp⟩, hc.transition now _ _, fun _ => ?_⟩
    unfold transitionRun
    rw [if_pos (.inl hs)]
    exact ⟨_, mem_append_right _ (mem_singleton.2 rfl), rfl, _, _, rfl⟩

lemma destroyFleet_same (why : DestroyReason) (env : Env) (hc : db.Calm) :
    SameFleet db (destroyFleet now why env db) ∧ (destroyFleet now why env db).Calm ∧
      (destroyFleet now why env db).run = db.run := by
  rcases destroyFleet_cases now env db why with h | ⟨k, hk, h⟩ <;> rw [h]
  · exact ⟨⟨rfl, rfl, rfl⟩, hc, rfl⟩
  · exact ⟨⟨rfl, rfl, rfl⟩, hc.appendEvent now (by rcases hk with rfl | rfl <;> simp), rfl⟩

lemma checkAutoAbort_same (env : Env) (hc : db.Calm)
    (hd : JustDraining now db) :
    SameFleet db (checkAutoAbort now env db) ∧ (checkAutoAbort now env db).Calm ∧
      JustDraining now (checkAutoAbort now env db) := by
  rcases checkAutoAbort_cases now env db with h | ⟨why, reason, _, _, _, h⟩ <;> rw [h]
  · exact ⟨⟨rfl, rfl, rfl⟩, hc, hd⟩
  · obtain ⟨⟨h₁, h₂, h₃⟩, hcalm, hrun⟩ :=
      destroyFleet_same why env (hc.transition now .failed (some reason))
    refine ⟨⟨by simpa using h₁, by simpa using h₂, by simpa using h₃⟩, hcalm, fun h => ?_⟩
    rw [hrun, transitionRun_state] at h
    cases h

lemma checkBackpressure_same (cfg : Settings) (hc : db.Calm)
    (hd : JustDraining now db) :
    SameFleet db (checkBackpressure now cfg db).db ∧
      JustDraining now (checkBackpressure now cfg db).db ∧
      (checkBackpressure now cfg db).result = .ok () := by
  have hcheck := checkBackpressure_checked now cfg db
  generalize checkBackpressure now cfg db = checked at hcheck ⊢
  have hnone := hc.openBackpressureSince
  cases hcheck with
  | idle => exact ⟨⟨rfl, rfl, rfl⟩, hd, rfl⟩
  | detected =>
    refine ⟨⟨rfl, rfl, rfl⟩, fun h => ?_, rfl⟩
    obtain ⟨e, he, hk⟩ := hd h
    exact ⟨e, mem_append_left _ he, hk⟩
  | cleared _ _ streak | steppedDown _ _ streak | drained _ _ streak =>
    rw [hnone] at streak
    cases streak

lemma reapDraining_same (env : Env) (hd : JustDraining now db) :
    SameFleet db (reapDraining now env db) := by
  rcases reapDraining_cases now env db with h | ⟨since, hs, hsince, hgrace, _⟩
  · rw [h]
    exact ⟨rfl, rfl, rfl⟩
  · -- no time has passed since the run began to drain
    obtain ⟨e, he, hts, old, r, hk⟩ := hd hs
    obtain ⟨ts, hlast, hle⟩ := lastStateTs_ge he hk
    obtain rfl : since = ts := Option.some.inj (hsince.symm.trans hlast)
    norm_num [stopGraceS] at hgrace
    linarith [hts ▸ hle]

lemma maybeComplete_same (now : Time) (db : Db) : SameFleet db (maybeCompleteRun now db) :=
  ⟨maybeCompleteRun_leases now db, maybeCompleteRun_degraded now db,
    maybeCompleteRun_snapshot now db⟩

lemma SameFleet.trans {a b c : Db} (h : SameFleet a b) (h' : SameFleet b c) : SameFleet a c :=
  ⟨h'.1.trans h.1, h'.2.1.trans h.2.1, h'.2.2.trans h.2.2⟩

/-- An evaluation that sets T0 leaves the run releasing and, if it was calm, calm. -/
lemma evaluateRelease_sets {force : Bool} (hc : db.Calm)
    (ht : db.run.t0 = none) (hset : (evaluateRelease now force db).db.run.t0 ≠ none) :
    (evaluateRelease now force db).result = .ok true ∧
      (evaluateRelease now force db).db.run.state = .releasing ∧
      (evaluateRelease now force db).db.Calm := by
  rcases evaluateRelease_cases now force db with
    he | ⟨_, _, _, ⟨_, he⟩ | ⟨_, _, he | ⟨e, _, he⟩ | ⟨shares, _, he⟩⟩⟩ <;> rw [he] at hset ⊢
  · exact absurd ht hset
  · refine ⟨rfl, by simp, ?_⟩
    have hv : ({ db with run := { db.run with t0 := some (now + releaseDelayS) } } : Db).Calm := hc
    exact hv.transition now _ _
  · rw [transitionRun_t0] at hset
    exact absurd ht hset
  · exact absurd ht hset
  · refine ⟨rfl, by simp [partialRelease], ?_⟩
    have hv : (splitOver (readySlots db.leases) shares (declareStragglers db)).Calm := hc
    have hp := hv.appendEvent now (k := .partialRelease (readySlots db.leases)
      ((db.leases.filter (·.state.pending)).map (·.slot))) (by simp)
    unfold partialRelease setT0
    refine Db.Calm.transition ?_ now _ _
    exact hp

lemma releaseTimeout_sets (ht : db.run.t0 = none)
    (hset : (releaseTimeout now env db).db.run.t0 ≠ none) :
    releaseTimeout now env db = evaluateRelease now true db := by
  rcases releaseTimeout_cases now env db with h | ⟨_, _, ⟨_, h⟩ | h⟩
  · rw [h] at hset
    exact absurd ht hset
  · exact h
  · rw [h, (Quiet.destroyFleet _ _ _ _).t0, transitionRun_t0] at hset
    exact absurd ht hset

lemma supervisorTick_t0 (cfg : Settings) (boot now : Time) (env : Env) (db : Db)
    (hs : db.run.state.supervised = true) : (supervisorTick cfg boot now env db).run.t0 =
      (releaseTimeout now env (lapseStaleLeases boot now db)).db.run.t0 := by
  rcases supervisorTick_cases now env db cfg boot with
    ⟨hu, _⟩ | ⟨_, _, _, h⟩ | ⟨_, _, _, c, rfl, h⟩
  · rw [hs] at hu
    cases hu
  · rw [h]
  have hb : (checkBackpressure now cfg (checkAutoAbort now env
      (passChecked boot now env db))).db.run.t0 =
      (releaseTimeout now env (lapseStaleLeases boot now db)).db.run.t0 := by
    refine checkBackpressure_rule (I := fun d => d.run.t0 =
      (releaseTimeout now env (lapseStaleLeases boot now db)).db.run.t0) ?_ ?_
        (Quiet.passChecks boot now env db).t0
    · exact fun a b hab ha => hab.t0.trans ha
    · intro a _ _ ha
      rw [(stepDown_frame _ _ a).2]
      exact ha
  rcases h with h | h <;> rw [h]
  · exact hb
  · exact ((Quiet.reapDraining now env _).trans (Quiet.maybeComplete now _)).t0.trans hb

variable {boot : Time} {db' : Db} {s : Sys}

/-- A pass of the supervisor that sets T0 leaves the fleet as its forced release left it. -/
lemma tick_sets_t0 (hc : CalmUntilT0 db) (ht : db.run.t0 = none)
    (hset : (supervisorTick cfg boot now env db).run.t0 ≠ none) :
    (evaluateRelease now true (lapseStaleLeases boot now db)).db.run.t0 ≠ none ∧
      SameFleet (evaluateRelease now true (lapseStaleLeases boot now db)).db
        (supervisorTick cfg boot now env db) := by
  have hlapse := Quiet.lapse boot now db
  have hlt : (lapseStaleLeases boot now db).run.t0 = none := hlapse.t0.trans ht
  have hlc : (lapseStaleLeases boot now db).Calm := hlapse.calm ht (hc ht)
  rcases supervisorTick_cases now env db cfg boot with
    ⟨_, h | h⟩ | ⟨hs, _, hr, _⟩ | ⟨hs, _, _, c, rfl, h⟩
  · exact absurd ht (h ▸ hset)
  · rw [h, (Quiet.destroyFleet _ _ _ _).t0] at hset
    exact absurd ht hset
  all_goals
    rw [supervisorTick_t0 cfg boot now env db hs] at hset
    have heq := releaseTimeout_sets hlt hset
    rw [heq] at hset
    obtain ⟨hres, hstate, hcalm⟩ := evaluateRelease_sets hlc hlt hset
  · rw [heq, hres] at hr
    cases hr
  · refine ⟨hset, ?_⟩
    unfold passChecked at h
    rw [heq] at h
    obtain ⟨h₁, hc₁, hd₁⟩ := checkDuration_same now hcalm (by rw [hstate]; decide)
    obtain ⟨h₂, hc₂, hd₂⟩ := checkAutoAbort_same env hc₁ hd₁
    obtain ⟨h₃, hd₃, _⟩ := checkBackpressure_same cfg hc₂ hd₂
    rcases h with h | h <;> rw [h]
    · exact (h₁.trans h₂).trans h₃
    · exact ((h₁.trans h₂).trans h₃).trans
        ((reapDraining_same env hd₃).trans (maybeComplete_same now _))

/-! ### What the release hands out -/

/-- What the ready leases are given together. -/
def Db.readyRate (db : Db) : ℚ := ((db.leases.filter (·.state = .ready)).map Lease.rate).sum

/-- The ready leases share the whole rate, and a fleet that is not complete is marked. -/
def WholeRate (db : Db) : Prop :=
  (∃ rate, db.run.snapshot.rateValue = some rate ∧ db.readyRate = rate) ∧
    ((∃ l ∈ db.leases, l.state ≠ .ready) → db.run.degraded = true)

/-- Every slot is ready, or the release is forced and some slot may still get ready. A lease whose
deadline has passed when the supervisor looks counts as lost. -/
def SlotsAccounted (a : Action) (s : Sys) : Prop :=
  match a with
  | .release _ _ => ∀ l ∈ s.db.leases, l.state = .ready
  | .tick boot now _ =>
    (∀ l ∈ s.db.leases, l.state = .ready ∧ stale boot now s.db.run l = false) ∨
      ∃ l ∈ s.db.leases, l.state.pending = true ∧ stale boot now s.db.run l = false
  | _ => True

variable {rate : ℚ}

/-- Released without a new split, the rate is handed out if and only if every slot is ready. -/
lemma wholeRate_iff_all_ready (h : Split db rate) (ht : db.run.t0 = none) (hs : SameFleet db db') :
    WholeRate db' ↔ ∀ l ∈ db.leases, l.state = .ready := by
  obtain ⟨hsplit, hdeg, _⟩ := h.unreleased ht
  obtain ⟨hl, hd, hsn⟩ := hs
  constructor
  · rintro ⟨_, hmark⟩ l hmem
    by_contra hne
    have := hmark ⟨l, by rw [hl]; exact hmem, hne⟩
    rw [hd, hdeg] at this
    cases this
  · intro hall
    refine ⟨⟨rate, by rw [hsn, h.value], ?_⟩, ?_⟩
    · unfold Db.readyRate
      rw [hl, h.sum_rates]
      · have hfilter : db.leases.filter (·.state = .ready) = db.leases :=
          filter_eq_self.2 fun l hmem => by simpa using hall l hmem
        rw [hfilter, hsplit, length_map]
        have hpos : (0 : ℚ) < db.leases.length := by exact_mod_cast h.size
        field_simp
      · intro l hmem _
        rw [hsplit]
        exact mem_map_of_mem hmem
    · rintro ⟨l, hmem, hne⟩
      rw [hl] at hmem
      exact absurd (hall l hmem) hne

lemma declareLost_ready (l : Lease) : (declareLost l).state = .ready ↔ l.state = .ready := by
  unfold declareLost
  cases hs : l.state <;> simp [LeaseState.pending, hs]

lemma wholeRate_partial {shares : List PublicShare}
    (hb : buildShareList db.run.snapshot.rateMode db.run.snapshot.rateValue
      (readySlots db.leases).length = .ok shares)
    (hsp : Split db rate) (h : Split (partialRelease now shares db) rate)
    (hr : ∃ l ∈ db.leases, l.state = .ready) (hs : SameFleet (partialRelease now shares db) db') :
    WholeRate db' := by
  obtain ⟨hl, hd, hsn⟩ := hs
  have hleases : (partialRelease now shares db).leases = (db.leases.map declareLost).map
      fun l => if l.slot ∈ readySlots db.leases then
        markRetarget (evenShare db.run.snapshot.rateMode rate (readySlots db.leases).length) l
        else l := by
    rw [partialRelease_leases, hsp.buildShareList_eq hb]
    exact Split.assignShares_even _ _ _ _
  have hsplit : (partialRelease now shares db).hist.split = readySlots db.leases := by simp
  refine ⟨⟨rate, by rw [hsn, h.value], ?_⟩, fun _ => ?_⟩
  · have hcount : ((partialRelease now shares db).leases.filter (·.state = .ready)).length =
        (readySlots db.leases).length := by
      rw [hleases, readySlots, length_map, filter_map, filter_map, length_map,
        length_map]
      congr 1
      refine filter_congr fun l _ => ?_
      simp only [Function.comp_apply, decide_eq_decide]
      rw [← declareLost_ready l]
      split_ifs <;> rfl
    unfold Db.readyRate
    rw [hl, h.sum_rates, hcount, hsplit]
    · obtain ⟨l, hmem, hready⟩ := hr
      have hpos : 0 < (readySlots db.leases).length :=
        length_pos_of_mem (mem_map_of_mem (mem_filter.2 ⟨hmem, by simpa using hready⟩))
      field_simp
    · intro l hmem hready
      rw [hsplit]
      rw [hleases] at hmem
      obtain ⟨k, hk, rfl⟩ := mem_map.1 hmem
      obtain ⟨j, hj, rfl⟩ := mem_map.1 hk
      split_ifs at hready ⊢ with hmem'
      · exact hmem'
      · have hjr : j.state = .ready := (declareLost_ready j).1 (by simpa using hready)
        rw [(Lease.Fades.declareLost j).slot]
        exact mem_map_of_mem (mem_filter.2 ⟨hj, by simpa using hjr⟩)
  · rw [hd]
    simp [partialRelease, splitOver, declareStragglers]

lemma lapse_ready (boot now : Time) (run : Run) (l : Lease) :
    (lapseLease boot now run l).state = .ready ↔ l.state = .ready ∧
    stale boot now run l = false := by
  unfold lapseLease
  cases hst : stale boot now run l <;> simp

lemma lapse_pending (boot now : Time) (run : Run) (l : Lease) :
    (lapseLease boot now run l).state.pending = true ↔
      l.state.pending = true ∧ stale boot now run l = false := by
  unfold lapseLease
  cases hst : stale boot now run l <;> simp [LeaseState.pending]

/-- A pass that sets T0 releases the slots as they are once the stale leases have lapsed. -/
lemma tick_wholeRate_iff (hsp : Split s.db rate) (hcalm : CalmUntilT0 s.db)
    (ht : s.db.run.t0 = none) (hset : (supervisorTick cfg boot now env s.db).run.t0 ≠ none) :
    WholeRate (supervisorTick cfg boot now env s.db) ↔ SlotsAccounted (.tick boot now env) s := by
  obtain ⟨hset', hsame⟩ := tick_sets_t0 hcalm ht hset
  have hlapse := Quiet.lapse boot now s.db
  have hlt : (lapseStaleLeases boot now s.db).run.t0 = none := hlapse.t0.trans ht
  have hlsp := hsp.mild hlapse.mild
  have hacc : SlotsAccounted (.tick boot now env) s ↔
      (∀ l ∈ (lapseStaleLeases boot now s.db).leases, l.state = .ready) ∨
        ∃ l ∈ (lapseStaleLeases boot now s.db).leases, l.state.pending = true := by
    simp only [SlotsAccounted, lapseStaleLeases, forall_mem_map, lapse_ready]
    simp only [mem_map, exists_exists_and_eq_and, lapse_pending]
  rw [hacc]
  rcases evaluateRelease_cases now true (lapseStaleLeases boot now s.db) with
    he | ⟨_, _, hex, ⟨hnp, he⟩ | ⟨_, hpend, he | ⟨e, _, he⟩ | ⟨shares, hb, he⟩⟩⟩
  · rw [he] at hset'
    exact absurd hlt hset'
  · rw [he] at hsame
    have hfull : SameFleet (lapseStaleLeases boot now s.db) _ :=
      SameFleet.trans ⟨by simp, by simp, by simp⟩ hsame
    rw [wholeRate_iff_all_ready hlsp hlt hfull]
    refine ⟨.inl, fun hor => hor.resolve_right ?_⟩
    rintro ⟨l, hl, hpl⟩
    rw [hnp l hl] at hpl
    cases hpl
  · rw [he, transitionRun_t0] at hset'
    exact absurd hlt hset'
  · rw [he] at hset'
    exact absurd hlt hset'
  · rw [he] at hsame
    have hrel := hlsp.partialRelease now hb
    exact ⟨fun _ => .inr hpend, fun _ => wholeRate_partial hb hlsp hrel hex hsame⟩

/-! ### Whole runs -/

/-- At a step that sets T0 on a paced run, the ready leases are given the whole rate and a fleet
that is not complete is marked degraded, if and only if every slot is ready or a forced release
finds one that may still get ready. -/
theorem whole_rate_iff {cfg : Settings} {now : Time} {spec : Snapshot} {db : Db}
    {as : List Action} {a : Action} (hm : spec.rateMode.paced = true)
    (hp : provisionRun now spec = .ok db) (h : Runs (Sys.step cfg) Always (Sys.start db) as s)
    (ht : s.db.run.t0 = none) (hset : (Sys.step cfg a s).db.run.t0 ≠ none) :
    WholeRate (Sys.step cfg a s).db ↔ SlotsAccounted a s := by
  obtain ⟨rate, hsp⟩ := Split.reachable hm hp h
  have hcalm := CalmUntilT0.reachable hp h
  have hstep := Sys.step_stored cfg a s
  generalize (Sys.step cfg a s).db = d at hstep hset ⊢
  cases hstep with
  | quiet hq => exact absurd (hq.t0.trans ht) hset
  | @launch now result loaded =>
    exact absurd ((finishLaunch_frame now result loaded s.db).2.1.trans ht) hset
  | claim hc =>
    rw [claimLease_run hc] at hset
    exact absurd ht hset
  | ready hr => exact absurd ((Upkeep.ready hr).t0.trans ht) hset
  | @release now _ loaded own =>
    rcases finishReady_cases now loaded own s.db with he | ⟨_, _, _, _, _, hsn, hdg, hl, _⟩
    · rw [he] at hset
      exact absurd ht hset
    · exact wholeRate_iff_all_ready hsp ht ⟨hl, hdg, hsn⟩
  | heartbeat => exact absurd ((recordHeartbeat_run _ _ s.db).2.1.trans ht) hset
  | scale hr =>
    obtain ⟨_, _, shares, _, rfl⟩ := scaleRunEndpoint_ok hr
    exact absurd ht hset
  | rescale _ hr => exact absurd ((rescaleRun_frame hr).2.trans ht) hset
  | tick => exact tick_wholeRate_iff hsp hcalm ht hset

/-- One of two workers is ready when the supervisor's deadline passes, the other one is still
claimed: the ready one is given the whole rate of twelve. -/
theorem whole_rate_iff_partial :
    let s := exec (Sys.step {}) (Sys.start (plainDb 2))
      [.launch 1 swarmRun, .claim 2 "w0" none, .claim 3 "w1" none,
        .ready 4 0 (some 2), .release 5 0, .heartbeat 100 { slot := 0, leaseId := some 2 },
        .heartbeat 100 { slot := 1, leaseId := some 3 }]
    SlotsAccounted (.tick 0 121 {}) s ∧ WholeRate (Sys.step {} (.tick 0 121 {}) s).db := by
  intro s
  have hp := provisionRun_plain (by decide : 0 < 2)
  have h : Runs (Sys.step {}) Always (Sys.start (plainDb 2)) _ s := Runs.always _ _
  have hacc : SlotsAccounted (.tick 0 121 {}) s := by
    right
    decide +kernel
  exact ⟨hacc, (whole_rate_iff rfl hp h (by decide +kernel) (by decide +kernel)).2 hacc⟩

/-- The first of two workers is ready, the second never gets ready and its lease lapses. At the
release timeout no slot is pending, so the run is released with half of the rate and without the
mark. -/
theorem released_with_half_rate :
    ¬ ∀ (cfg : Settings) (now : Time) (spec : Snapshot) (db : Db) (as : List Action) (s : Sys)
      (a : Action), spec.rateMode.paced = true → provisionRun now spec = .ok db →
      Runs (Sys.step cfg) Always (Sys.start db) as s → s.db.run.t0 = none →
      (Sys.step cfg a s).db.run.t0 ≠ none → WholeRate (Sys.step cfg a s).db := by
  intro h
  have hw := h {} 0 (plainSpec 2) (plainDb 2)
    [.launch 1 swarmRun, .claim 2 "w0" none, .claim 3 "w1" none,
      .ready 4 0 (some 2), .release 5 0, .heartbeat 90 { slot := 0, leaseId := some 2 },
        .tick 0 95 {},
      .heartbeat 100 { slot := 0, leaseId := some 2 }] _
    (.tick 0 121 {}) rfl (provisionRun_plain (by decide)) (Runs.always _ _) (by decide +kernel)
    (by decide +kernel)
  have hmark := hw.2 (by decide +kernel)
  revert hmark
  decide +kernel

end Stoker
