import Stoker.Numerals.Rounding
import Stoker.Server.Launch
import Stoker.Worker.Work

/-!
# The history of a metrics run

`MetricsEngine._run_backfill` walks a window in steps of the resolution and sends one point for
each of its series at every step; `plan_backfill` of the server announces how many points that
makes. The engine puts the first step on the grid of the resolution, at or before the start of the
window, while the plan counts steps from the start itself. Where the walk's sums are exact the two
agree exactly when the start lies on the grid. Sums that are not exact drift: ten steps of 0.1 end
before 1.

A point is the time it is stamped with and its series; the measurements are left out.
-/

open List

namespace Stoker

open Dealing

structure MetricsWindow where
  resolutionS : ℚ
  backfillStartS : ℚ
  backfillEndS : ℚ
  backfillResolutionS : Option ℚ := none

/-- `cfg.backfill_resolution_s or cfg.resolution_s`. -/
def MetricsWindow.step (w : MetricsWindow) : ℚ := (truthy w.backfillResolutionS).getD w.resolutionS

/-- The grid point at or before the start. -/
def MetricsWindow.first (w : MetricsWindow) : ℚ := ⌊w.backfillStartS / w.step⌋ * w.step

section

variable {S : Type} (R : Rounding) (accepts : ℕ → Bool)

/-- The first step as the engine computes it. -/
def MetricsWindow.roundedFirst (w : MetricsWindow) : ℚ :=
  R.fl (⌊R.fl (w.backfillStartS / w.step)⌋ * w.step)

/-- The number of steps as the plan computes it. -/
def MetricsWindow.roundedSteps (w : MetricsWindow) : ℤ :=
  ⌈R.fl (R.fl (w.backfillEndS - w.backfillStartS) / w.step)⌉

/-- The points of one step, and whether the socket took them all; `accepts` says which of its
writes it takes, and `sent` how many there were before. -/
def sendStep (tick : ℚ) : ℕ → List S → List (ℚ × S) × Bool
  | _, [] => ([], true)
  | sent, s :: series =>
    if accepts sent then ((tick, s) :: (sendStep tick (sent + 1) series).1,
      (sendStep tick (sent + 1) series).2)
    else ([], false)

/-- The loop of `_run_backfill`; `none` when it has not ended after so many steps. -/
def backfillLoop (series : List S) (res endS : ℚ) : ℕ → ℕ → ℚ → Option (List (ℚ × S))
  | 0, _, _ => none
  | fuel + 1, sent, tick =>
    if tick < endS then
      let (points, taken) := sendStep accepts tick sent series
      if taken then
        (backfillLoop series res endS fuel (sent + series.length) (R.fl (tick + res))).map
          (points ++ ·)
      else some points
    else some []

/-- How many steps there are from a time on. -/
def gridSteps (res endS tick : ℚ) : ℕ := ⌈(endS - tick) / res⌉.toNat

/-- What an engine with these series sends for a window: nothing when it has none, and else what
`_run_backfill` does. -/
def emitHistory (fuel : ℕ) (series : List S) (w : MetricsWindow) : Option (List (ℚ × S)) :=
  if series.isEmpty then some []
  else backfillLoop R accepts series w.step w.backfillEndS fuel 0 (w.roundedFirst R)

end

/-! ### Exact sums -/

/-- The sums of the walk from a time on are exact. -/
def ExactFrom (R : Rounding) (res endS tick : ℚ) : Prop :=
  ∀ k : ℕ, tick + k * res < endS → R.fl (tick + k * res + res) = tick + k * res + res

/-- Rounding changes neither a step of the engine nor the count of the plan. -/
structure ExactWalk (R : Rounding) (w : MetricsWindow) : Prop where
  floor : ⌊R.fl (w.backfillStartS / w.step)⌋ = ⌊w.backfillStartS / w.step⌋
  first : R.fl w.first = w.first
  sums : ExactFrom R w.step w.backfillEndS w.first
  steps : w.roundedSteps R = ⌈(w.backfillEndS - w.backfillStartS) / w.step⌉

section

variable {R : Rounding} {res endS tick : ℚ}

lemma ExactFrom.fl_add (h : ExactFrom R res endS tick) (hlt : tick < endS) :
    R.fl (tick + res) = tick + res := by
  simpa using h 0 (by simpa using hlt)

lemma ExactFrom.next (h : ExactFrom R res endS tick) : ExactFrom R res endS (tick + res) := by
  intro k hk
  have hsum : tick + res + k * res = tick + (k + 1 : ℕ) * res := by
    push_cast
    ring
  rw [hsum] at hk ⊢
  exact h (k + 1) hk

lemma ExactWalk.roundedFirst {w : MetricsWindow} (h : ExactWalk R w) :
    w.roundedFirst R = w.first := by
  rw [MetricsWindow.roundedFirst, h.floor]
  exact h.first

end

/-! ### The grid -/

section

variable {res : ℚ}

lemma gridSteps_pos_iff (endS tick : ℚ) (hres : 0 < res) :
    0 < gridSteps res endS tick ↔ tick < endS := by
  rw [gridSteps, Int.lt_toNat, Nat.cast_zero, Int.ceil_pos, div_pos_iff_of_pos_right hres, sub_pos]

lemma gridSteps_next (endS tick : ℚ) (hres : 0 < res) :
    gridSteps res endS (tick + res) = gridSteps res endS tick - 1 := by
  have hquot : (endS - (tick + res)) / res = (endS - tick) / res - (1 : ℤ) := by
    rw [← sub_sub, sub_div, div_self hres.ne', Int.cast_one]
  rw [gridSteps, hquot, Int.ceil_sub_intCast, gridSteps]
  omega

variable {w : MetricsWindow}

lemma MetricsWindow.first_le (hres : 0 < w.step) : w.first ≤ w.backfillStartS := by
  rw [first, ← le_div_iff₀ hres]
  exact Int.floor_le _

/-- The first step is the start itself exactly where the start lies on the grid. -/
lemma MetricsWindow.first_eq_iff (hres : 0 < w.step) :
    w.first = w.backfillStartS ↔ ∃ n : ℤ, w.backfillStartS = n * w.step := by
  refine ⟨fun h => ⟨⌊w.backfillStartS / w.step⌋, h.symm⟩, ?_⟩
  rintro ⟨n, hn⟩
  rw [first, hn, mul_div_cancel_right₀ _ hres.ne', Int.floor_intCast]

end

/-! ### Points -/

section

variable {S : Type} {R : Rounding} {accepts : ℕ → Bool} {res endS tick : ℚ} {sent fuel : ℕ}
  {series : List S}

lemma mem_sendStep {p : ℚ × S} (h : p ∈ (sendStep accepts tick sent series).1) : p.1 = tick := by
  induction series generalizing sent with
  | nil => cases h
  | cons s series ih =>
    rw [sendStep] at h
    split_ifs at h
    · rcases mem_cons.1 h with rfl | h
      · rfl
      · exact ih h
    · cases h

lemma sendStep_all (tick : ℚ) (sent : ℕ) (series : List S) :
    sendStep (fun _ => true) tick sent series = (series.map fun s => (tick, s), true) := by
  induction series generalizing sent with
  | nil => rfl
  | cons s series ih => rw [sendStep, if_pos rfl, ih, map_cons]

/-- However the socket closes, the loop sends nothing before it begins or at the end of the
window. -/
lemma mem_backfillLoop (hres : 0 < res) {points : List (ℚ × S)}
    (hexact : ExactFrom R res endS tick)
    (h : backfillLoop R accepts series res endS fuel sent tick = some points) :
    ∀ p ∈ points, tick ≤ p.1 ∧ p.1 < endS := by
  induction fuel generalizing sent tick points with
  | zero => cases h
  | succ fuel ih =>
    rw [backfillLoop] at h
    dsimp only at h
    split_ifs at h with hlt htaken
    · obtain ⟨later, hlater, rfl⟩ := Option.map_eq_some_iff.1 h
      intro p hp
      rcases mem_append.1 hp with hp | hp
      · rw [mem_sendStep hp]
        exact ⟨le_rfl, hlt⟩
      · rw [hexact.fl_add hlt] at hlater
        obtain ⟨hle, hend⟩ := ih hexact.next hlater p hp
        exact ⟨(le_add_of_nonneg_right hres.le).trans hle, hend⟩
    · cases h
      intro p hp
      rw [mem_sendStep hp]
      exact ⟨le_rfl, hlt⟩
    · cases h
      exact fun p hp => absurd hp not_mem_nil

/-- With a socket that stays open the loop ends, after as many steps as the grid has. -/
lemma backfillLoop_all (hres : 0 < res) (series : List S) (sent : ℕ)
    (hexact : ExactFrom R res endS tick) (hfuel : gridSteps res endS tick < fuel) :
    ∃ points, backfillLoop R (fun _ => true) series res endS fuel sent tick = some points ∧
      points.length = gridSteps res endS tick * series.length ∧
      (0 < gridSteps res endS tick → ∀ s ∈ series, (tick, s) ∈ points) := by
  induction fuel generalizing sent tick with
  | zero => exact absurd hfuel (Nat.not_lt_zero _)
  | succ fuel ih =>
    rw [backfillLoop, sendStep_all]
    dsimp only
    have hiff := gridSteps_pos_iff endS tick hres
    by_cases hlt : tick < endS
    · rw [if_pos hlt, if_pos rfl, hexact.fl_add hlt]
      have hpos := hiff.2 hlt
      have hnext := gridSteps_next endS tick hres
      have hfewer : gridSteps res endS (tick + res) < fuel := by omega
      obtain ⟨later, hlater, hlen, -⟩ := ih (sent + series.length) hexact.next hfewer
      refine ⟨_, by rw [hlater]; rfl, ?_, fun _ s hs => ?_⟩
      · rw [length_append, length_map, hlen, hnext]
        obtain ⟨k, hk⟩ : ∃ k, gridSteps res endS tick = k + 1 := ⟨_, (Nat.succ_pred hpos.ne').symm⟩
        rw [hk, Nat.add_sub_cancel]
        ring
      · exact mem_append_left _ (mem_map.2 ⟨s, hs, rfl⟩)
    · rw [if_neg hlt]
      have hzero : gridSteps res endS tick = 0 := Nat.eq_zero_of_not_pos fun h => hlt (hiff.1 h)
      refine ⟨[], rfl, by rw [hzero, zero_mul]; rfl, fun h => absurd h (by omega)⟩

/-- What an engine sends when its socket stays open. -/
lemma emitHistory_all {w : MetricsWindow} (hres : 0 < w.step) (hexact : ExactWalk R w)
    (series : List S) :
    ∃ points, emitHistory R (fun _ => true) (gridSteps w.step w.backfillEndS w.first + 1) series w =
        some points ∧
      points.length = gridSteps w.step w.backfillEndS w.first * series.length ∧
      (w.first < w.backfillEndS → ∀ s ∈ series, (w.first, s) ∈ points) := by
  cases series with
  | nil => exact ⟨[], rfl, rfl, fun _ s hs => absurd hs not_mem_nil⟩
  | cons s series =>
    obtain ⟨points, hloop, hlen, hmem⟩ := backfillLoop_all hres
      (s :: series) 0 hexact.sums (Nat.lt_succ_self (gridSteps w.step w.backfillEndS w.first))
    refine ⟨points, ?_, hlen, fun hlt => hmem ((gridSteps_pos_iff _ _ hres).2 hlt)⟩
    rw [emitHistory, hexact.roundedFirst]
    exact hloop

end

/-! ### The history and its plan -/

lemma product_ne_nil {V : Type} {axes : List (String × List V)} (h : ∀ a ∈ axes, a.2 ≠ []) :
    product axes ≠ [] := by
  induction axes with
  | nil => exact cons_ne_nil _ _
  | cons a axes ih =>
    obtain ⟨v, hv⟩ := exists_mem_of_ne_nil _ (h a mem_cons_self)
    obtain ⟨combo, hcombo⟩ := exists_mem_of_ne_nil _ (ih fun b hb => h b (mem_cons_of_mem _ hb))
    refine ne_nil_of_mem (a := (a.1, v) :: combo) ?_
    exact mem_flatMap.2 ⟨v, hv, mem_map.2 ⟨combo, hcombo, rfl⟩⟩

section

variable {V : Type} [LinearOrder V] (R : Rounding) (dims : List (Dimension V)) (total : ℕ)
  (w : MetricsWindow)

/-- Every point of a backfill lies in its window, for every slot and however its socket closes. -/
def HistoryInWindow : Prop :=
  ∀ slot series, metricsSeries slot total dims = .ok series → ∀ accepts fuel points,
    emitHistory R accepts fuel series w = some points →
      ∀ p ∈ points, w.backfillStartS ≤ p.1 ∧ p.1 < w.backfillEndS

/-- Every backfill that is left alone ends, and over all slots sends the points of every plan that
the server makes for the window and the series, with or without rounding. -/
def HistoryAsPlanned : Prop :=
  ∀ live window cap now deployment plan, planBackfill .metrics (buildSeries dims).length live window
      (some w.step) cap now deployment (some w.backfillStartS) (some w.backfillEndS) = .ok plan →
    ∃ (fuel : ℕ) (points : ℕ → List (ℚ × Series V)),
      (∀ slot series, metricsSeries slot total dims = .ok series →
        emitHistory R (fun _ => true) fuel series w = some (points slot)) ∧
      (((range total).map fun slot => (points slot).length).sum : ℤ) = plan.events ∧
      plan.events = w.roundedSteps R * max 1 ((buildSeries dims).length : ℤ)

variable {R dims total w}

/-- There is always a series, if only one without labels. -/
lemma buildSeries_length_pos (dims : List (Dimension V)) : 0 < (buildSeries dims).length := by
  have haxes : ∀ a ∈ seriesAxes dims, a.2 ≠ [] := by
    intro a ha
    obtain ⟨d, _, hd⟩ := mem_filterMap.1 ha
    split_ifs at hd with hkey
    cases hd
    exact isEmpty_eq_false_iff.1 hkey.2
  unfold buildSeries
  dsimp only
  split_ifs
  · exact Nat.one_pos
  · rw [length_insertionSort, length_map]
    exact length_pos_of_ne_nil (product_ne_nil haxes)

variable {α : Type}

/-- The slots' series together are all of them. -/
lemma sum_length_deal (htotal : 0 < total) (l : List α) :
    ((range total).map fun slot => (deal slot total l).length).sum = l.length := by
  rw [← length_flatMap]
  exact (deal_perm htotal l).length_eq

lemma exists_mem_deal_zero (htotal : 0 < total) {l : List α} (hl : 0 < l.length) :
    ∃ a, a ∈ deal 0 total l := by
  refine ⟨l.get ⟨0, hl⟩, mem_filterMap.2 ⟨0, ?_, ?_⟩⟩
  · exact (mem_positions htotal).2 ⟨hl, 0, rfl⟩
  · simp

/-- Where every point lies in the window, the first one is at its start. -/
lemma first_eq_of_inWindow (hres : 0 < w.step) (hexact : ExactWalk R w)
    (hwindow : w.backfillStartS < w.backfillEndS) (htotal : 0 < total)
    (h : HistoryInWindow R dims total w) : w.first = w.backfillStartS := by
  have hle := MetricsWindow.first_le hres
  refine le_antisymm hle ?_
  obtain ⟨points, hemit, -, hmem⟩ := emitHistory_all hres hexact (deal 0 total (buildSeries dims))
  obtain ⟨s, hs⟩ := exists_mem_deal_zero htotal (buildSeries_length_pos dims)
  exact (h 0 _ (metricsSeries_ok htotal dims) _ _ points hemit (w.first, s)
    (hmem (hle.trans_lt hwindow) s hs)).1

lemma inWindow_of_first_eq (hres : 0 < w.step) (hexact : ExactWalk R w)
    (hfirst : w.first = w.backfillStartS) : HistoryInWindow R dims total w := by
  intro slot series _ accepts fuel points hemit
  unfold emitHistory at hemit
  split_ifs at hemit
  · cases hemit
    exact fun p hp => absurd hp not_mem_nil
  · rw [hexact.roundedFirst] at hemit
    rw [← hfirst]
    exact mem_backfillLoop hres hexact.sums hemit

lemma planBackfill_events {seriesCount : ℕ} {live window cap deployment : Option ℚ} {now : Time}
    {res start finish : ℚ} {plan : BackfillPlan} (hres : 0 < res)
    (h : planBackfill .metrics seriesCount live window (some res) cap now deployment (some start)
      (some finish) = .ok plan) :
    plan.events = ⌈(finish - start) / res⌉ * max 1 (seriesCount : ℤ) := by
  unfold planBackfill planWindow at h
  dsimp only at h
  split at h
  · cases h
  · rename_i hw
    split_ifs at hw
    cases hw
    cases h
    have hpos := positive_some hres
    simp [hpos]

lemma asPlanned_of_first_eq (hres : 0 < w.step) (hexact : ExactWalk R w)
    (hwindow : w.backfillStartS < w.backfillEndS) (htotal : 0 < total)
    (hfirst : w.first = w.backfillStartS) : HistoryAsPlanned R dims total w := by
  intro live window cap now deployment plan hplan
  have hall := fun slot => emitHistory_all hres hexact (deal slot total (buildSeries dims))
  choose points hemit hlen _ using hall
  have hevents := planBackfill_events hres hplan
  refine ⟨gridSteps w.step w.backfillEndS w.first + 1, points, fun slot series hseries => ?_, ?_,
    by rw [hevents, hexact.steps]⟩
  · have hslot : slot < total := by
      by_contra hge
      rw [metricsSeries, if_pos (not_lt.1 hge)] at hseries
      cases hseries
    rw [metricsSeries_ok hslot] at hseries
    cases hseries
    exact hemit slot
  · have hsum : ((range total).map fun slot => (points slot).length).sum =
        gridSteps w.step w.backfillEndS w.first * (buildSeries dims).length := by
      simp only [hlen]
      rw [sum_map_mul_left, sum_length_deal htotal]
    have hceil : 0 ≤ ⌈(w.backfillEndS - w.backfillStartS) / w.step⌉ :=
      Int.ceil_nonneg (div_nonneg (sub_nonneg.2 hwindow.le) hres.le)
    have hone : 1 ≤ ((buildSeries dims).length : ℤ) := by exact_mod_cast buildSeries_length_pos dims
    rw [hsum, hevents, max_eq_right hone, hfirst, Nat.cast_mul, gridSteps,
      Int.toNat_of_nonneg hceil]

end

/-- Where its sums are exact, the history of a metrics run stays in its window and has the points
that the server's plan announces exactly when the window starts on the grid of the resolution. -/
theorem metrics_history_in_window_iff {V : Type} [LinearOrder V] (R : Rounding)
    (dims : List (Dimension V)) (resolutionS : ℚ) {res start finish : ℚ} (hres : 0 < res)
    (hwindow : start < finish) {total : ℕ} (htotal : 0 < total)
    (hexact : ExactWalk R ⟨resolutionS, start, finish, some res⟩) :
    (HistoryInWindow R dims total ⟨resolutionS, start, finish, some res⟩ ∧
        HistoryAsPlanned R dims total ⟨resolutionS, start, finish, some res⟩) ↔
      ∃ n : ℤ, start = n * res := by
  have hstep : (MetricsWindow.mk resolutionS start finish (some res)).step = res := by
    rw [MetricsWindow.step, truthy_some hres.ne', Option.getD_some]
  have hpos : 0 < (MetricsWindow.mk resolutionS start finish (some res)).step := by rwa [hstep]
  have hgrid := MetricsWindow.first_eq_iff hpos
  rw [hstep] at hgrid
  rw [← hgrid]
  constructor
  · rintro ⟨hin, -⟩
    exact first_eq_of_inWindow hpos hexact hwindow htotal hin
  · intro hfirst
    exact ⟨inWindow_of_first_eq hpos hexact hfirst,
      asPlanned_of_first_eq hpos hexact hwindow htotal hfirst⟩

/-- An hour from the full minute on, in steps of ten seconds, on three workers. -/
theorem metrics_history_from_full_minute :
    (0 : ℚ) < 10 ∧ (60 : ℚ) < 3660 ∧ 0 < 3 ∧ ExactWalk .exact ⟨10, 60, 3660, some 10⟩ ∧
      ((HistoryInWindow .exact [⟨"host", ["a", "b"]⟩] 3 ⟨10, 60, 3660, some 10⟩ ∧
          HistoryAsPlanned .exact [⟨"host", ["a", "b"]⟩] 3 ⟨10, 60, 3660, some 10⟩) ↔
        ∃ n : ℤ, (60 : ℚ) = n * 10) :=
  have hexact : ExactWalk .exact ⟨10, 60, 3660, some 10⟩ := ⟨rfl, rfl, fun _ _ => rfl, rfl⟩
  ⟨by norm_num, by norm_num, by norm_num, hexact,
    metrics_history_in_window_iff _ _ 10 (by norm_num) (by norm_num) (by norm_num) hexact⟩

/-- Ten seconds from the fifth second on, in steps of ten: one step is announced, and two are sent,
the first one before the window. -/
theorem metrics_history_before_window :
    emitHistory .exact (fun _ => true) 3 (deal 0 1 (buildSeries ([] : List (Dimension String))))
        ⟨10, 5, 15, some 10⟩ = some [(0, []), (10, [])] ∧
      (planBackfill .metrics 1 none none (some 10) none 0 none (some 5) (some 15)).map
        BackfillPlan.events = .ok 1 ∧
      ¬∀ R, HistoryInWindow R ([] : List (Dimension String)) 1 ⟨10, 5, 15, some 10⟩ ∧
        HistoryAsPlanned R ([] : List (Dimension String)) 1 ⟨10, 5, 15, some 10⟩ := by
  have hemit : emitHistory .exact (fun _ => true) 3
      (deal 0 1 (buildSeries ([] : List (Dimension String)))) ⟨10, 5, 15, some 10⟩ =
        some [(0, []), (10, [])] := by
    decide +kernel
  refine ⟨hemit, by decide +kernel, fun h => ?_⟩
  have hfirst := ((h .exact).1 0 _ (metricsSeries_ok Nat.one_pos _) _ _ _ hemit (0, [])
    mem_cons_self).1
  norm_num at hfirst

end Stoker
