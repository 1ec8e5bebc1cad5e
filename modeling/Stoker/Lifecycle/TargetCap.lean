import Stoker.Server.Launch
import Stoker.Lifecycle.RateBound

/-!
# The cap of a target

A launch is admitted when its volume fits under `max_concurrent_gb_day` of its target, on top of the
volume of the runs that are active there. Only launches are checked, each at the rate of its spec
and with the merged estimate of its packs; the active runs are added up from the rates their rows
now have, with the estimate of the primary pack. The cap holds as long as no rescale raises a rate,
a backfill delivers no more than its spec asks for, and no primary pack has a larger estimate than
the merge it is part of.
-/

open List

namespace Stoker

open Transition

/-! ### The runs of a target -/

/-- A run of a target: its rows, and the estimated bytes of an event of its primary pack. -/
structure TargetRun where
  db : Db
  bytesPerEvent : Option ℚ
  deriving DecidableEq

namespace TargetRun

def active (r : TargetRun) : Bool := !r.db.run.state.terminal

/-- The volume the server counts for a run: from the rate of its snapshot, zero when unknown. -/
def countedGbDay (r : TargetRun) : ℚ :=
  (rateToGbDay r.db.run.snapshot.rateMode r.db.run.snapshot.rateValue r.bytesPerEvent).getD 0

/-- The rate the workers are told to deliver, all shares together. -/
def toldRate (r : TargetRun) : ℚ := (r.db.leases.map Lease.rate).sum

/-- The volume of what the workers are told to deliver. -/
def toldGbDay (r : TargetRun) : ℚ :=
  (rateToGbDay r.db.run.snapshot.rateMode (some r.toldRate) r.bytesPerEvent).getD 0

end TargetRun

/-- A target with a cap on the volume of its active runs. -/
structure Estate where
  cap : ℚ
  runs : List TargetRun := []
  deriving DecidableEq

namespace Estate

def activeGbDay (s : Estate) : ℚ := ((s.runs.filter (·.active)).map (·.countedGbDay)).sum

/-- The volume the workers of the active runs are told to deliver. -/
def toldGbDay (s : Estate) : ℚ := ((s.runs.filter (·.active)).map (·.toldGbDay)).sum

/-- What a launch finds at this target. -/
def world (s : Estate) (w : LaunchWorld) : LaunchWorld :=
  { w with maxConcurrentGbDay := some s.cap, activeGbDay := s.activeGbDay }

end Estate

/-! ### Requests and endings -/

inductive TargetAction where
  | launch (now : Time) (body : RunLaunch) (spec : Snapshot) (settings : CapSettings)
      (w : LaunchWorld)
  | rescale (run : ℕ) (now : Time) (rate : ℚ) (env : Env)
  | finish (run : ℕ) (now : Time) (state : RunState) (reason : Option EndReason)

namespace Estate

/-- `run_spec` and `provision_run`: an accepted launch adds its rows. -/
def launch (now : Time) (body : RunLaunch) (spec : Snapshot) (settings : CapSettings)
    (w : LaunchWorld) (s : Estate) : Except HttpError Estate := do
  let l ← runSpec now body spec settings (s.world w)
  let db ← provisionRun now l.snapshot
  return { s with runs := s.runs ++ [{ db := db, bytesPerEvent := w.bytesPerEvent }] }

def put (run : ℕ) (r : TargetRun) (db : Db) (s : Estate) : Estate :=
  { s with runs := s.runs.set run { r with db := db } }

/-- A request that is refused leaves the target as it is. -/
def step (a : TargetAction) (s : Estate) : Estate :=
  match a with
  | .launch now body spec settings w =>
    match s.launch now body spec settings w with
    | .error _ => s
    | .ok s' => s'
  | .rescale run now rate env =>
    match s.runs[run]? with
    | none => s
    | some r =>
      match rescaleRunEndpoint now rate env r.db with
      | .error _ => s
      | .ok db => s.put run r db
  | .finish run now state reason =>
    match s.runs[run]? with
    | none => s
    | some r => if state.terminal then s.put run r (transitionRun now state reason r.db) else s

/-- The step asks for no more than the cap was checked for: a backfill delivers at most the rate of
its spec, the primary pack's estimate is at most the merged one, and a rescale raises no rate. -/
def Checked (a : TargetAction) (s : Estate) : Prop :=
  match a with
  | .launch _ body spec settings w =>
    (body.isBackfill = true → spec.rateMode = .eps ∧
      ∃ rate ∈ spec.rateValue, planCap body.backfillCapEps settings.backfillCapEps ≤ rate) ∧
    ∀ merged ∈ w.mergedBytesPerEvent, ∀ primary ∈ w.bytesPerEvent, primary ≤ merged
  | .rescale run _ rate _ => ∀ r ∈ s.runs[run]?, ∀ old ∈ r.db.run.snapshot.rateValue, rate ≤ old
  | .finish .. => True

instance (a : TargetAction) (s : Estate) : Decidable (Checked a s) :=
  match a with
  | .launch .. => inferInstanceAs (Decidable ((_ → _ ∧ ∃ rate ∈ _, _) ∧ ∀ m ∈ _, ∀ p ∈ _, _))
  | .rescale .. => inferInstanceAs (Decidable (∀ r ∈ _, ∀ old ∈ _, _))
  | .finish .. => isTrue trivial

end Estate

/-! ### Volumes -/

variable {rate : ℚ}

lemma rateToGbDay_nonneg (mode : RateMode) (bytes : Option ℚ) (h : 0 < rate) :
    0 ≤ (rateToGbDay mode (some rate) bytes).getD 0 := by
  unfold rateToGbDay
  rw [truthy_some h.ne']
  cases mode with
  | perDayGb => exact h.le
  | countInterval => exact le_rfl
  | eps =>
    dsimp only
    cases bytes with
    | none => exact le_rfl
    | some b =>
      unfold epsToGbDay
      rcases le_or_gt b 0 with hle | hpos
      · rw [positive_of_nonpos hle]
        exact le_rfl
      · rw [positive_some hpos, Option.map_some, Option.getD_some]
        positivity

lemma rateToGbDay_mono {mode : RateMode} {rate' : ℚ} {bytes bytes' : Option ℚ} (h0 : 0 < rate)
    (hr : rate ≤ rate') (hb : ∀ b ∈ bytes, ∃ b' ∈ bytes', b ≤ b') :
    (rateToGbDay mode (some rate) bytes).getD 0 ≤
      (rateToGbDay mode (some rate') bytes').getD 0 := by
  have h0' : 0 < rate' := h0.trans_le hr
  have hnonneg := rateToGbDay_nonneg mode bytes' h0'
  unfold rateToGbDay at hnonneg ⊢
  rw [truthy_some h0'.ne'] at hnonneg ⊢
  rw [truthy_some h0.ne']
  cases mode with
  | perDayGb => exact hr
  | countInterval => exact le_rfl
  | eps =>
    unfold epsToGbDay at hnonneg ⊢
    cases bytes with
    | none => exact hnonneg
    | some b =>
      rcases le_or_gt b 0 with hle | hpos
      · rw [positive_of_nonpos hle]
        exact hnonneg
      · obtain ⟨b', hb', hbb⟩ := hb b rfl
        rw [Option.mem_def.1 hb', positive_some hpos, positive_some (hpos.trans_le hbb)]
        simp only [Option.map_some, Option.getD_some]
        gcongr

/-- The rate of a paced run is split over all its slots. -/
def Db.SplitOverAll (db : Db) : Prop :=
  db.run.snapshot.rateMode.paced = true →
    ∃ rate, Split db rate ∧ db.hist.split = db.leases.map (·.slot)

namespace TargetRun

variable {r : TargetRun}

lemma toldRate_eq (h : Split r.db rate) (hall : r.db.hist.split = r.db.leases.map (·.slot)) :
    r.toldRate = rate := by
  have hsum := h.sum_rates (fun _ => true) fun l hl _ => by
    rw [hall]
    exact mem_map_of_mem hl
  have hlen : r.db.hist.split.length = r.db.leases.length := by rw [hall, length_map]
  have hpos : (0 : ℚ) < r.db.leases.length := by exact_mod_cast h.size
  rw [filter_true, hlen] at hsum
  calc r.toldRate = r.db.leases.length * (rate / r.db.leases.length) := hsum
    _ = rate := by field_simp

lemma countedGbDay_eq (h : r.db.SplitOverAll) : r.countedGbDay = r.toldGbDay := by
  unfold countedGbDay toldGbDay
  cases hm : r.db.run.snapshot.rateMode with
  | countInterval => rfl
  | eps | perDayGb =>
    obtain ⟨rate, hs, hall⟩ := h (by rw [hm]; rfl)
    rw [hs.value, toldRate_eq hs hall]

lemma countedGbDay_nonneg (h : r.db.SplitOverAll) : 0 ≤ r.countedGbDay := by
  unfold countedGbDay
  cases hm : r.db.run.snapshot.rateMode with
  | countInterval => exact le_rfl
  | eps | perDayGb =>
    obtain ⟨rate, hs, _⟩ := h (by rw [hm]; rfl)
    rw [hs.value]
    exact rateToGbDay_nonneg _ _ hs.pos

end TargetRun

/-- Replacing one element by one that weighs no more. -/
lemma sum_filter_set_le {α : Type} {p : α → Bool} {f : α → ℚ} {a b : α}
    (h : (if p b then f b else 0) ≤ if p a then f a else 0) :
    ∀ {l : List α} {i : ℕ}, l[i]? = some a →
      (((l.set i b).filter p).map f).sum ≤ ((l.filter p).map f).sum := by
  intro l
  induction l with
  | nil => simp
  | cons x l ih =>
    intro i hi
    cases i with
    | zero =>
      split_ifs at h ⊢ <;> simp_all
    | succ i =>
      have hle := ih (i := i) (by simpa using hi)
      rw [set_cons_succ, filter_cons, filter_cons]
      split_ifs
      · simpa using hle
      · exact hle

/-! ### One request -/

namespace Db.SplitOverAll

variable {db db' : Db} {now : Time}

lemma start {spec : Snapshot} (h : provisionRun now spec = .ok db) : db.SplitOverAll := by
  intro hm
  obtain ⟨_, shares, _, rfl⟩ := provisionRun_ok h
  have hpaced : spec.rateMode.paced = true := hm
  obtain ⟨rate, hs⟩ := Split.start hpaced h
  exact ⟨rate, hs, (hs.unreleased rfl).1⟩

lemma rescale {rate : Option ℚ} (h : db.SplitOverAll) (hr : rescaleRun now rate db = .ok db') :
    db'.SplitOverAll := by
  intro hm
  have hm' : db.run.snapshot.rateMode.paced = true := by
    rcases rescaleRun_ok hr with rfl | ⟨_, _, _, _, rfl⟩
    · exact hm
    · exact hm
  obtain ⟨old, hs, hall⟩ := h hm'
  obtain ⟨new, hnew⟩ := hs.rescale hr
  refine ⟨new, hnew, ?_⟩
  rcases rescaleRun_ok hr with rfl | ⟨_, _, shares, _, rfl⟩
  · exact hall
  · change db.leases.map (·.slot) = (db.leases.map (reshare shares)).map (·.slot)
    rw [map_map]
    exact map_congr_left fun l _ => (Split.reshare_slot shares l).symm

lemma finish (h : db.SplitOverAll) (state : RunState) (reason : Option EndReason) :
    (transitionRun now state reason db).SplitOverAll := by
  intro hm
  rw [transitionRun_snapshot] at hm
  obtain ⟨rate, hs, hall⟩ := h hm
  refine ⟨rate, hs.frame ?_ ?_ ?_ ?_ ?_, ?_⟩
  · rw [transitionRun_leases]
  · rw [transitionRun_snapshot]
  · rw [transitionRun_snapshot]
  · rw [transitionRun_hist]
  · intro ht
    rw [transitionRun_t0] at ht
    rw [transitionRun_degraded, transitionRun_leases]
    exact ⟨ht, rfl, id⟩
  · rw [transitionRun_hist, transitionRun_leases]
    exact hall

end Db.SplitOverAll

namespace Estate

variable {s s' : Estate} {now : Time} {body : RunLaunch} {spec : Snapshot} {settings : CapSettings}
  {w : LaunchWorld}

lemma launch_ok (h : s.launch now body spec settings w = .ok s') :
    ∃ l db, runSpec now body spec settings (s.world w) = .ok l ∧
      provisionRun now l.snapshot = .ok db ∧
      s' = { s with runs := s.runs ++ [{ db := db, bytesPerEvent := w.bytesPerEvent }] } := by
  obtain ⟨l, hl, h⟩ := bind_ok h
  obtain ⟨db, hdb, h⟩ := bind_ok h
  cases h
  exact ⟨l, db, hl, hdb, rfl⟩

variable {l : Launched} {db : Db}

lemma admitted (hcap : 0 < s.cap) (hle : s.activeGbDay ≤ s.cap)
    (h : runSpec now body spec settings (s.world w) = .ok l) :
    s.activeGbDay + (rateToGbDay spec.rateMode spec.rateValue w.checkedBytes).getD 0 ≤ s.cap := by
  have hroom : ∀ x ∈ targetHeadroomGbDay spec (s.world w), 0 ≤ x :=
    (launchGates_ok_iff.1 (runSpec_ok_iff.1 h).1).2.2.2.2.1
  have hbytes : (s.world w).checkedBytes = w.checkedBytes := rfl
  have hpos : positive (s.world w).maxConcurrentGbDay = some s.cap := positive_some hcap
  unfold targetHeadroomGbDay at hroom
  rw [hpos, hbytes] at hroom
  cases hgb : rateToGbDay spec.rateMode spec.rateValue w.checkedBytes with
  | none => simpa using hle
  | some gb =>
    rw [hgb] at hroom
    have hnonneg : 0 ≤ s.cap - s.activeGbDay - gb := hroom _ rfl
    rw [Option.getD_some]
    linarith

lemma counted_le_checked (hc : Checked (.launch now body spec settings w) s)
    (h : runSpec now body spec settings (s.world w) = .ok l)
    (hp : provisionRun now l.snapshot = .ok db) :
    (TargetRun.mk db w.bytesPerEvent).countedGbDay ≤
      (rateToGbDay spec.rateMode spec.rateValue w.checkedBytes).getD 0 := by
  obtain ⟨hback, hmerged⟩ := hc
  -- the primary pack's estimate is at most the one used in the check
  have hbytes : ∀ b ∈ w.bytesPerEvent, ∃ b' ∈ w.checkedBytes, b ≤ b' := by
    intro b hb
    cases hm : w.mergedBytesPerEvent with
    | none =>
      refine ⟨b, ?_, le_rfl⟩
      rw [LaunchWorld.checkedBytes, hm, Option.none_or]
      exact hb
    | some m =>
      refine ⟨m, ?_, hmerged m hm b hb⟩
      rw [LaunchWorld.checkedBytes, hm]
      rfl
  have hrow : (TargetRun.mk db w.bytesPerEvent).countedGbDay =
      (rateToGbDay l.snapshot.rateMode l.snapshot.rateValue w.bytesPerEvent).getD 0 := by
    obtain ⟨_, shares, _, rfl⟩ := provisionRun_ok hp
    rfl
  rw [hrow]
  rcases (effectiveSpec_ok (runSpec_ok_iff.1 h).2).2
    with ⟨_, _, hmode, hrate⟩ | ⟨hb, plan, _, hplan, hmode, hrate⟩
  · rw [hmode, hrate]
    cases hm : spec.rateMode with
    | countInterval => exact le_rfl
    | eps | perDayGb =>
      have hpaced : l.snapshot.rateMode.paced = true := by
        rw [hmode, hm]
        rfl
      obtain ⟨_, shares, hshares, _⟩ := provisionRun_ok hp
      obtain ⟨rate, hvalue, hpos, _, _⟩ := buildShareList_ok hpaced hshares
      rw [← hrate, hvalue]
      exact rateToGbDay_mono hpos le_rfl hbytes
  · obtain ⟨hm, rate, hvalue, hle⟩ := hback hb
    rw [hmode, hrate, hm, Option.mem_def.1 hvalue, hplan]
    exact rateToGbDay_mono (zero_lt_one.trans_le (le_max_left _ _)) hle hbytes

@[simp] lemma step_cap (a : TargetAction) (s : Estate) : (s.step a).cap = s.cap := by
  unfold step
  cases a with
  | launch now body spec settings w =>
    dsimp only
    split
    · rfl
    · next hs =>
      obtain ⟨_, _, _, _, rfl⟩ := launch_ok hs
      rfl
  | rescale run now rate env =>
    dsimp only
    split
    · rfl
    · split <;> rfl
  | finish run now state reason =>
    dsimp only
    split
    · rfl
    · split_ifs <;> rfl

lemma rescale_counted_le {r : TargetRun} {env : Env} (hs : r.db.SplitOverAll)
    (hle : ∀ old ∈ r.db.run.snapshot.rateValue, rate ≤ old)
    (h : rescaleRunEndpoint now rate env r.db = .ok db) :
    (TargetRun.mk db r.bytesPerEvent).countedGbDay ≤ r.countedGbDay ∧
      (TargetRun.mk db r.bytesPerEvent).active = r.active := by
  obtain ⟨hpos, hr⟩ := rescaleRunEndpoint_ok h
  rcases rescaleRun_ok hr with rfl | ⟨_, _, _, _, rfl⟩
  · exact ⟨le_rfl, rfl⟩
  · refine ⟨?_, rfl⟩
    change (rateToGbDay r.db.run.snapshot.rateMode (some rate) r.bytesPerEvent).getD 0 ≤
      (rateToGbDay r.db.run.snapshot.rateMode r.db.run.snapshot.rateValue r.bytesPerEvent).getD 0
    cases hm : r.db.run.snapshot.rateMode with
    | countInterval => exact le_rfl
    | eps | perDayGb =>
      obtain ⟨old, hold, _⟩ := hs (by rw [hm]; rfl)
      rw [hold.value]
      exact rateToGbDay_mono hpos (hle old hold.value) fun b hb => ⟨b, hb, le_rfl⟩

/-! ### Whole runs -/

/-- Every rate is split over all slots, and the cap covers what the server counts. -/
structure Within (s : Estate) : Prop where
  pos : 0 < s.cap
  split : ∀ r ∈ s.runs, r.db.SplitOverAll
  le : s.activeGbDay ≤ s.cap

namespace Within

lemma toldGbDay_le (h : Within s) : s.toldGbDay ≤ s.cap := by
  have hsame : s.toldGbDay = s.activeGbDay := by
    unfold Estate.toldGbDay Estate.activeGbDay
    congr 1
    refine map_congr_left fun r hr => ?_
    exact (TargetRun.countedGbDay_eq (h.split r (mem_of_mem_filter hr))).symm
  rw [hsame]
  exact h.le

/-- Replacing the rows of a run that then counts no more. -/
lemma put {run : ℕ} {r : TargetRun} {db : Db} (h : Within s) (hr : s.runs[run]? = some r)
    (hdb : db.SplitOverAll)
    (hle : (if (TargetRun.mk db r.bytesPerEvent).active then
        (TargetRun.mk db r.bytesPerEvent).countedGbDay else 0) ≤
      if r.active then r.countedGbDay else 0) : Within (s.put run r db) := by
  refine ⟨h.pos, fun r' hr' => ?_, (sum_filter_set_le hle hr).trans h.le⟩
  rcases mem_or_eq_of_mem_set hr' with hmem | rfl
  · exact h.split r' hmem
  · exact hdb

lemma launch (h : Within s) (hc : Checked (.launch now body spec settings w) s)
    (hs : s.launch now body spec settings w = .ok s') : Within s' := by
  obtain ⟨l, db, hl, hdb, rfl⟩ := launch_ok hs
  refine ⟨h.pos, ?_, ?_⟩
  · intro r hr
    rcases mem_append.1 hr with hr | hr
    · exact h.split r hr
    · obtain rfl := mem_singleton.1 hr
      exact .start hdb
  · have hactive : (TargetRun.mk db w.bytesPerEvent).active = true := by
      obtain ⟨_, shares, _, rfl⟩ := provisionRun_ok hdb
      rfl
    have hcount := counted_le_checked hc hl hdb
    have hroom := admitted h.pos h.le hl
    simp only [activeGbDay, filter_append, filter_singleton, hactive, cond_true,
      map_append, map_singleton, sum_append, sum_singleton] at hroom ⊢
    linarith

lemma step {a : TargetAction} (hc : Checked a s) (h : Within s) : Within (s.step a) := by
  unfold Estate.step
  cases a with
  | launch now body spec settings w =>
    dsimp only
    split
    · exact h
    · next hs => exact h.launch hc hs
  | rescale run now rate env =>
    dsimp only
    split
    · exact h
    · next r hr =>
      split
      · exact h
      · next db hdb =>
        have hsplit := h.split r (mem_of_getElem? hr)
        obtain ⟨hle, hactive⟩ := rescale_counted_le hsplit (hc r hr) hdb
        refine h.put hr (hsplit.rescale (rescaleRunEndpoint_ok hdb).2) ?_
        rw [hactive]
        split_ifs
        · exact hle
        · exact le_rfl
  | finish run now state reason =>
    dsimp only
    split
    · exact h
    · next r hr =>
      split_ifs with hterm
      · have hsplit := h.split r (mem_of_getElem? hr)
        refine h.put hr (hsplit.finish state reason) ?_
        have hended : (TargetRun.mk (transitionRun now state reason r.db) r.bytesPerEvent).active =
            false := by
          simp [TargetRun.active, hterm]
        rw [hended, if_neg Bool.false_ne_true]
        split_ifs
        · exact TargetRun.countedGbDay_nonneg hsplit
        · exact le_rfl
      · exact h

end Within

end Estate

/-- In every run of checked launches, rescales and endings, from a target with a cap and no runs,
what the workers of the active runs are told to deliver stays within the cap. -/
theorem told_within_cap {cap : ℚ} (hcap : 0 < cap) {as : List TargetAction} {s : Estate}
    (h : Runs Estate.step Estate.Checked { cap := cap } as s) : s.cap = cap ∧
    s.toldGbDay ≤ cap := by
  have hsame : s.cap = cap := h.invariant (I := fun s => s.cap = cap) (fun a s _ hs => by
    rw [← hs]
    exact Estate.step_cap a s) rfl
  have hstart : Estate.Within { cap := cap } := ⟨hcap, by simp, hcap.le⟩
  have hwithin := h.invariant (I := Estate.Within) (fun _ _ hc hs => hs.step hc) hstart
  exact ⟨hsame, hsame ▸ hwithin.toldGbDay_le⟩

/-! ### Over the cap -/

/-- A launch of an eventgen run at some events per second, with events of a thousand bytes. -/
def thousandByteLaunch (eps : ℚ) (body : RunLaunch) (merged : Option ℚ) : TargetAction :=
  .launch 0 body { engine := .eventgen, rateMode := .eps, rateValue := some eps, workers := 1 } {}
    { bytesPerEvent := some 1000, mergedBytesPerEvent := merged }

/-- A hundred events per second are 8.64 GB a day; fifty more fit once the first run has ended. -/
theorem told_within_cap_ten :
    (exec Estate.step { cap := 10 } [thousandByteLaunch 100 {} none, thousandByteLaunch 50 {} none,
      .finish 0 1 .completed none, thousandByteLaunch 50 {} none]).toldGbDay ≤ 10 :=
  (told_within_cap (by norm_num) (Runs.of_check (by decide +kernel))).2

/-- Under a cap of 10 GB a day a rescale doubles a run of 8.64, a backfill admitted at one event per
second delivers a thousand, and a merge admitted at a hundred bytes an event is counted at a
thousand. -/
theorem target_cap_passed :
    10 < (exec Estate.step { cap := 10 }
        [thousandByteLaunch 100 {} none, .rescale 0 1 200 {}]).toldGbDay ∧
      10 < (exec Estate.step { cap := 10 }
        [thousandByteLaunch 1 { backfillWindowS := some 3600, backfillCapEps := some 1000 }
          none]).toldGbDay ∧
      10 < (exec Estate.step { cap := 10 } [thousandByteLaunch 200 {} (some 100)]).toldGbDay := by
  decide +kernel

end Stoker
