import Stoker.Server.Launch

/-!
# A backfill is checked at the rate it delivers

The launch route reads the delivery rate off the request with `or`, which takes any number but zero;
`plan_backfill` takes positive numbers only and raises what it takes to one event a second. The two
agree exactly when the rate read by the route is at least one. Below that the route checks a rate
that is not the one delivered: nothing at all when it is negative, a fraction when the plan delivers
one event a second.
-/

namespace Stoker

/-! ### The two readings of the cap -/

section Caps

variable {capEps deploymentCap : Option ℚ}

/-- The two readings of the deployment's cap agree where the route's is positive. -/
lemma fallback_of_pos (h : 0 < (truthy deploymentCap).getD defaultBackfillCapEps) :
    (positive deploymentCap).getD defaultBackfillCapEps =
      (truthy deploymentCap).getD defaultBackfillCapEps := by
  cases deploymentCap with
  | none => rfl
  | some d =>
    by_cases h0 : d = 0
    · rw [h0, truthy_zero, positive_of_nonpos le_rfl]
    · rw [truthy_some h0, Option.getD_some] at h ⊢
      rw [positive_some h, Option.getD_some]

lemma planCap_of_pos (h : 0 < requestedEps capEps deploymentCap) :
    planCap capEps deploymentCap = max 1 (requestedEps capEps deploymentCap) := by
  -- without a cap of its own, or with zero, a launch takes the deployment's
  cases capEps with
  | none =>
    have hreq : requestedEps none deploymentCap =
        (truthy deploymentCap).getD defaultBackfillCapEps := rfl
    rw [hreq] at h ⊢
    rw [← fallback_of_pos h]
    rfl
  | some c =>
    by_cases h0 : c = 0
    · have hreq : requestedEps (some c) deploymentCap =
          (truthy deploymentCap).getD defaultBackfillCapEps := by
        rw [requestedEps, h0, truthy_zero, Option.none_or]
      rw [hreq] at h ⊢
      rw [← fallback_of_pos h, planCap, h0, positive_of_nonpos le_rfl]
      rfl
    · have hreq : requestedEps (some c) deploymentCap = c := by
        rw [requestedEps, truthy_some h0]
        rfl
      rw [hreq] at h ⊢
      rw [planCap, positive_some h]
      rfl

lemma one_le_planCap : 1 ≤ planCap capEps deploymentCap := le_max_left _ _

end Caps

/-! ### Accepted backfills -/

/-- Every accepted backfill with these caps delivers within every ceiling that is on, whatever the
spec, the size of the fleet and the ceilings. -/
def DeliversWithin (capEps deploymentCap : Option ℚ) : Prop :=
  ∀ (now : Time) (body : RunLaunch) (spec : Snapshot) (settings : CapSettings) (world : LaunchWorld)
    (l : Launched) (plan : BackfillPlan) (b : Bounds),
    body.backfillCapEps = capEps → settings.backfillCapEps = deploymentCap →
    runSpec now body spec settings world = .ok l → l.plan = some plan →
    resolveCeilings spec.engine settings world.fleet world.impl = some b →
    WithinBounds b world.checkedBytes (plan.deliverEps / l.snapshot.workers)

/-- The workers of an accepted launch are those its checks divide by. -/
lemma effectiveWorkers_of_gates {body : RunLaunch} {spec : Snapshot} {settings : CapSettings}
    {world : LaunchWorld} (h : launchGates body spec settings world = .ok ()) :
    effectiveWorkers spec.engine spec.workers = max 1 spec.workers := by
  obtain ⟨-, hreplay, -⟩ := launchGates_ok_iff.mp h
  unfold effectiveWorkers
  split
  · next hs =>
    have hengine : spec.engine = .rawreplay := by simpa [singleWorkerEngines] using hs
    rw [hreplay (by simp [isReplayRun, hengine]), max_self]
  · rfl

variable {capEps deploymentCap : Option ℚ}

lemma deliversWithin_of_one_le (h : 1 ≤ requestedEps capEps deploymentCap) :
    DeliversWithin capEps deploymentCap := by
  rintro now body spec settings world l plan b rfl rfl hl hplan hb
  obtain ⟨hgates, heff⟩ := runSpec_ok_iff.1 hl
  obtain ⟨-, -, -, -, -, -, hcheck, -⟩ := launchGates_ok_iff.mp hgates
  obtain ⟨hworkers, hcases⟩ := effectiveSpec_ok heff
  rcases hcases with ⟨-, hnone, -, -⟩ | ⟨hbackfill, plan', hplan', hdeliver, -, -⟩
  · rw [hnone] at hplan
    cases hplan
  · obtain rfl : plan' = plan := by
      rw [hplan'] at hplan
      exact Option.some.inj hplan
    have hpos : 0 < requestedEps body.backfillCapEps settings.backfillCapEps :=
      lt_of_lt_of_le one_pos h
    have hshare : 0 < requestedEps body.backfillCapEps settings.backfillCapEps /
        (max 1 spec.workers : ℕ) := by positivity
    have hpassed := hcheck hbackfill
    rw [perWorkerShare_eq rfl hpos, hb, checkSlice_eps hshare] at hpassed
    rw [hworkers, effectiveWorkers_of_gates hgates, hdeliver, planCap_of_pos hpos, max_eq_right h]
    exact hpassed

/-! ### A rate below one -/

/-- A launch of an hour of history on one worker whose ceiling is `ceiling`, at which its spec is
paced. -/
def hourSpec (ceiling : ℚ) : Snapshot where
  engine := .eventgen
  rateMode := .eps
  rateValue := some ceiling
  workers := 1

def hourLaunch (capEps : Option ℚ) : RunLaunch where
  backfillWindowS := some 3600
  backfillCapEps := capEps

def cappedWorld (ceiling : ℚ) : LaunchWorld where
  fleet := some { maxEpsPerWorker := some ceiling }

variable {ceiling : ℚ}

lemma resolveCeilings_capped (hc : 0 < ceiling) (deploymentCap : Option ℚ) :
    resolveCeilings (hourSpec ceiling).engine { backfillCapEps := deploymentCap }
      (cappedWorld ceiling).fleet (cappedWorld ceiling).impl = some ⟨some 250, some ceiling⟩ := by
  simp [resolveCeilings, hourSpec, cappedWorld, builtInCeilings, Bounds.layer, Bounds.set,
    normaliseBound, hc]

lemma withinBounds_ceiling (ceiling : ℚ) {eps : ℚ} (h : eps ≤ ceiling) :
    WithinBounds ⟨some 250, some ceiling⟩ none eps :=
  ⟨by simpa using h, by simp [epsToGbDay]⟩

/-- The launch is accepted when the rate the route reads is not positive or within the ceiling. -/
lemma hourLaunch_accepted (hc : 0 < ceiling) (h : requestedEps capEps deploymentCap ≤ ceiling) :
    launchGates (hourLaunch capEps) (hourSpec ceiling) { backfillCapEps := deploymentCap }
      (cappedWorld ceiling) = .ok () := by
  have hone : ∀ {eps : ℚ}, 0 < eps → eps ≤ ceiling →
      checkSlice .eps (perWorkerShare .eps (some eps) (hourSpec ceiling).workers) none
        (some ⟨some 250, some ceiling⟩) = none := by
    intro eps hpos hle
    have hw : eps / (max 1 (hourSpec ceiling).workers : ℕ) = eps := by simp [hourSpec]
    rw [perWorkerShare_eq rfl hpos, hw, checkSlice_eps hpos]
    exact withinBounds_ceiling ceiling hle
  rw [launchGates_ok_iff, resolveCeilings_capped hc]
  refine ⟨rfl, fun _ => rfl, hone hc le_rfl, rfl, ?_, rfl, fun _ => ?_, rfl⟩
  · intro x hx
    cases hx
  · by_cases hpos : 0 < requestedEps capEps deploymentCap
    · exact hone hpos h
    · have hnone : perWorkerShare .eps (some (requestedEps capEps deploymentCap))
          (hourSpec ceiling).workers = none := by
        simp only [perWorkerShare, positive_of_nonpos (not_lt.mp hpos)]
      have hreq : requestedEps (hourLaunch capEps).backfillCapEps deploymentCap =
          requestedEps capEps deploymentCap := rfl
      rw [hreq, hnone]
      rfl

lemma not_deliversWithin (hc : 0 < ceiling) (h : requestedEps capEps deploymentCap ≤ ceiling)
    (hlt : ceiling < planCap capEps deploymentCap) : ¬DeliversWithin capEps deploymentCap := by
  intro hall
  have hgates := hourLaunch_accepted hc h
  obtain ⟨l, hl⟩ : ∃ l, effectiveSpec 0 (hourLaunch capEps) (hourSpec ceiling)
      { backfillCapEps := deploymentCap } (cappedWorld ceiling) = .ok l := by
    exact ⟨_, rfl⟩
  obtain ⟨hworkers, ⟨hnot, -⟩ | ⟨-, plan, hplan, hdeliver, -⟩⟩ := effectiveSpec_ok hl
  · simp [RunLaunch.isBackfill, hourLaunch] at hnot
  · have hwithin := hall 0 (hourLaunch capEps) (hourSpec ceiling)
        { backfillCapEps := deploymentCap }
      (cappedWorld ceiling) l plan _ rfl rfl (runSpec_ok_iff.2 ⟨hgates, hl⟩) hplan
      (resolveCeilings_capped hc deploymentCap)
    have hle := hwithin.1 ceiling rfl
    rw [hworkers, effectiveWorkers_of_gates hgates, hdeliver] at hle
    have hone : planCap capEps deploymentCap / (max 1 (hourSpec ceiling).workers : ℕ) =
        planCap capEps deploymentCap := by simp [hourSpec]
    have hcap : planCap (hourLaunch capEps).backfillCapEps deploymentCap =
        planCap capEps deploymentCap := rfl
    rw [hcap, hone] at hle
    exact absurd hlt (not_lt.mpr hle)

/-- A delivery cap and a deployment's cap are safe, for every spec, fleet and ceiling, exactly when
the rate the launch route reads from them is at least one event a second. -/
theorem backfill_within_ceilings_iff (capEps deploymentCap : Option ℚ) :
    DeliversWithin capEps deploymentCap ↔ 1 ≤ requestedEps capEps deploymentCap := by
  constructor
  · intro hall
    by_contra hlt
    rw [not_le] at hlt
    have hcap : 1 ≤ planCap capEps deploymentCap := one_le_planCap
    by_cases hpos : 0 < requestedEps capEps deploymentCap
    · -- a fraction is checked as it is and delivered as one
      exact not_deliversWithin hpos le_rfl (lt_of_lt_of_le hlt hcap) hall
    · -- nothing is checked, and the fallback is delivered
      exact not_deliversWithin one_half_pos (by linarith) (by linarith) hall
  · exact deliversWithin_of_one_le

/-- With a cap of -1 the route checks nothing, and 5000 events a second are delivered on one worker
whose ceiling is 1000. -/
theorem negative_cap_over_ceiling :
    (runSpec 0 (hourLaunch (some (-1))) (hourSpec 1000) {} (cappedWorld 1000)).toOption.map
        (fun l => (l.plan.map (·.deliverEps), l.snapshot.workers)) = some (some 5000, 1) ∧
      resolveCeilings (hourSpec 1000).engine {} (cappedWorld 1000).fleet (cappedWorld 1000).impl =
        some ⟨some 250, some 1000⟩ := by
  decide +kernel

end Stoker
