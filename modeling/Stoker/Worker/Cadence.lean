import Mathlib.Tactic

/-!
# Replay at the recorded cadence

`RawReplayEngine._run_cadence`. A recorded dataset is played once: the first line anchors the clock,
and each later line is sent a gap behind the one before it. The gap is the step between the
timestamps of two lines, or a fixed fallback where one of them is missing or the step goes back; the
time multiple scales both. A socket that the agent has closed ends the replay.

A line is its timestamp, if one was parsed; timestamps are exact, and so always finite.
-/

open List

namespace Stoker

/-! ### The engine -/

/-- `_gap`. -/
def cadenceGap (prevTs ts : Option ℚ) (timeMultiple fallbackGapS : ℚ) : ℚ :=
  if timeMultiple = 0 then 0
  else
    match prevTs, ts with
    | some prev, some ts =>
      let delta := (ts - prev) * timeMultiple
      if delta < 0 then fallbackGapS * timeMultiple else delta
    | _, _ => fallbackGapS * timeMultiple

/-- What the loop carries from line to line: whether the clock is anchored, the seconds since then,
and the last timestamp that was parsed. -/
structure Cadence where
  anchored : Bool := false
  cumulative : ℚ := 0
  prevTs : Option ℚ := none

section

variable (tm fallback : ℚ)

/-- One line, up to its envelope. -/
def Cadence.step (c : Cadence) (ts : Option ℚ) : Cadence where
  anchored := true
  cumulative := if c.anchored then c.cumulative + cadenceGap c.prevTs ts tm fallback else 0
  prevTs := ts.or c.prevTs

/-- The loop of `_run_cadence`: the offsets of the lines that are sent; `accepts` says of which line
the socket still takes the envelope. -/
def Cadence.run (accepts : ℕ → Bool) : ℕ → Cadence → List (Option ℚ) → List ℚ
  | _, _, [] => []
  | i, c, ts :: lines =>
    if accepts i then (c.step tm fallback ts).cumulative ::
      run accepts (i + 1) (c.step tm fallback ts) lines
    else []

/-- `_run_cadence`: the offset at which each line is sent. -/
def runCadence (accepts : ℕ → Bool) (lines : List (Option ℚ)) : List ℚ :=
  Cadence.run tm fallback accepts 0 {} lines

end

/-! ### What is recorded -/

/-- A line is sent on the fallback. -/
def onFallback (prevTs ts : Option ℚ) : Bool :=
  match prevTs, ts with
  | some prev, some ts => ts < prev
  | _, _ => true

def stepForward (prevTs ts : Option ℚ) : ℚ :=
  match prevTs, ts with
  | some prev, some ts => max 0 (ts - prev)
  | _, _ => 0

/-- How many lines behind an anchored one are sent on the fallback. -/
def fallbacksFrom : Option ℚ → List (Option ℚ) → ℕ
  | _, [] => 0
  | prevTs, ts :: lines => (if onFallback prevTs ts then 1 else 0) +
      fallbacksFrom (ts.or prevTs) lines

def fallbacks : List (Option ℚ) → ℕ
  | [] => 0
  | ts :: lines => fallbacksFrom ts lines

def riseFrom : Option ℚ → List (Option ℚ) → ℚ
  | _, [] => 0
  | prevTs, ts :: lines => stepForward prevTs ts + riseFrom (ts.or prevTs) lines

def rise : List (Option ℚ) → ℚ
  | [] => 0
  | ts :: lines => riseFrom ts lines

/-- The latest timestamp minus the first one. -/
def recordedSpan (lines : List (Option ℚ)) : ℚ :=
  match lines.filterMap id with
  | [] => 0
  | first :: later => later.foldl max first - first

def NeverBack (lines : List (Option ℚ)) : Prop := (lines.filterMap id).Pairwise (· ≤ ·)

instance (lines : List (Option ℚ)) : Decidable (NeverBack lines) :=
  inferInstanceAs (Decidable (List.Pairwise _ _))

/-! ### Offsets -/

section

variable {tm fallback : ℚ}

lemma cadenceGap_eq (htm : 0 ≤ tm) (prevTs ts : Option ℚ) :
    cadenceGap prevTs ts tm fallback =
      tm * (stepForward prevTs ts + fallback * if onFallback prevTs ts then 1 else 0) := by
  unfold cadenceGap
  rcases htm.eq_or_lt with rfl | hpos
  · simp
  rw [if_neg hpos.ne']
  cases prevTs with
  | none => simp [stepForward, onFallback, mul_comm]
  | some prev =>
    cases ts with
    | none => simp [stepForward, onFallback, mul_comm]
    | some ts =>
      simp only [stepForward, onFallback, decide_eq_true_eq]
      by_cases hback : ts < prev
      · have hdelta : (ts - prev) * tm < 0 := mul_neg_of_neg_of_pos (sub_neg.2 hback) hpos
        rw [if_pos hdelta, if_pos hback, max_eq_left (sub_nonpos.2 hback.le)]
        ring
      · have hdelta : ¬(ts - prev) * tm < 0 :=
          not_lt.2 (mul_nonneg (sub_nonneg.2 (not_lt.1 hback)) htm)
        rw [if_neg hdelta, if_neg hback, max_eq_right (sub_nonneg.2 (not_lt.1 hback))]
        ring

lemma cadenceGap_nonneg (htm : 0 ≤ tm) (hfallback : 0 ≤ fallback) (prevTs ts : Option ℚ) :
    0 ≤ cadenceGap prevTs ts tm fallback := by
  rw [cadenceGap_eq htm]
  refine mul_nonneg htm (add_nonneg ?_ (mul_nonneg hfallback ?_))
  · unfold stepForward
    split
    · exact le_max_left _ _
    · exact le_rfl
  · split_ifs
    · exact zero_le_one
    · exact le_rfl

/-- From an anchored line on, every line adds its step forward or the fallback. -/
lemma Cadence.foldl_step (htm : 0 ≤ tm) (lines : List (Option ℚ)) (c : Cadence)
    (hanchored : c.anchored = true) :
    (lines.foldl (Cadence.step tm fallback) c).cumulative =
      c.cumulative + tm * (riseFrom c.prevTs lines + fallback * fallbacksFrom c.prevTs lines) := by
  induction lines generalizing c with
  | nil => simp [riseFrom, fallbacksFrom]
  | cons ts lines ih =>
    have hone : (c.step tm fallback ts).cumulative =
        c.cumulative + cadenceGap c.prevTs ts tm fallback := if_pos hanchored
    rw [foldl_cons, ih _ rfl, hone, cadenceGap_eq htm, riseFrom, fallbacksFrom]
    simp only [Cadence.step]
    push_cast
    ring

/-- The offset of a line in terms of the timestamps up to it. -/
lemma Cadence.cumulative_eq (htm : 0 ≤ tm) (lines : List (Option ℚ)) :
    (lines.foldl (Cadence.step tm fallback) {}).cumulative =
      tm * (rise lines + fallback * fallbacks lines) := by
  cases lines with
  | nil => simp [rise, fallbacks]
  | cons ts lines =>
    rw [foldl_cons, Cadence.foldl_step htm _ _ rfl, rise, fallbacks]
    simp [Cadence.step]

/-- What is sent for a line is the state that the lines up to it lead to. -/
lemma Cadence.getElem?_run (accepts : ℕ → Bool) (lines : List (Option ℚ)) (k : ℕ)
    (c : Cadence) {i : ℕ}
    {offset : ℚ} (h : (Cadence.run tm fallback accepts k c lines)[i]? = some offset) :
    offset = ((lines.take (i + 1)).foldl (Cadence.step tm fallback) c).cumulative := by
  induction lines generalizing k c i with
  | nil => simp [Cadence.run] at h
  | cons ts lines ih =>
    rw [Cadence.run] at h
    split_ifs at h
    · cases i with
      | zero => simpa using h.symm
      | succ i =>
        exact ih _ _ h
    · simp at h

/-- A line is sent no earlier than those in front of it. -/
lemma Cadence.pairwise_run (htm : 0 ≤ tm) (hfallback : 0 ≤ fallback) (accepts : ℕ → Bool)
    (lines : List (Option ℚ)) (k : ℕ) (c : Cadence) :
    (Cadence.run tm fallback accepts k c lines).Pairwise (· ≤ ·) ∧
      (c.anchored = true → ∀ offset ∈ Cadence.run tm fallback accepts k c lines,
        c.cumulative ≤ offset) := by
  induction lines generalizing k c with
  | nil => simp [Cadence.run]
  | cons ts lines ih =>
    rw [Cadence.run]
    split_ifs
    · obtain ⟨hpair, hle⟩ := ih (k + 1) (c.step tm fallback ts)
      refine ⟨pairwise_cons.2 ⟨hle rfl, hpair⟩, fun hanchored offset hmem => ?_⟩
      have hstep : c.cumulative ≤ (c.step tm fallback ts).cumulative := by
        have hgap := cadenceGap_nonneg htm hfallback c.prevTs ts
        simp only [Cadence.step, if_pos hanchored]
        linarith
      rcases mem_cons.1 hmem with rfl | hmem
      · exact hstep
      · exact hstep.trans (hle rfl offset hmem)
    · simp

/-- Timestamps that never go back rise by what lies between the first and the latest. -/
lemma riseFrom_eq (lines : List (Option ℚ)) (prev : ℚ)
    (h : (prev :: lines.filterMap id).Pairwise (· ≤ ·)) :
    riseFrom (some prev) lines = (lines.filterMap id).foldl max prev - prev := by
  induction lines generalizing prev with
  | nil => simp [riseFrom]
  | cons ts lines ih =>
    cases ts with
    | none =>
      simpa [riseFrom, stepForward] using ih prev h
    | some ts =>
      have hcons : (some ts :: lines).filterMap id = ts :: lines.filterMap id :=
        filterMap_cons_some rfl
      rw [hcons] at h ⊢
      obtain ⟨hprev, hlater⟩ := pairwise_cons.1 h
      have hle : prev ≤ ts := hprev ts mem_cons_self
      rw [riseFrom, Option.some_or, ih ts hlater, stepForward, max_eq_right (sub_nonneg.2 hle),
        foldl_cons, max_eq_right hle]
      ring

lemma rise_eq_recordedSpan {lines : List (Option ℚ)} (h : NeverBack lines) :
    rise lines = recordedSpan lines := by
  -- the lines in front of the first timestamp add nothing
  have hfrom : ∀ lines : List (Option ℚ), NeverBack lines →
      riseFrom none lines = recordedSpan lines := by
    intro lines
    induction lines with
    | nil => exact fun _ => rfl
    | cons ts lines ih =>
      intro hback
      cases ts with
      | none => simpa [riseFrom, stepForward, recordedSpan, NeverBack] using ih hback
      | some ts =>
        rw [riseFrom, Option.some_or, riseFrom_eq lines ts hback]
        simp [stepForward, recordedSpan]
  cases lines with
  | nil => rfl
  | cons ts lines =>
    cases ts with
    | none => simpa [rise, recordedSpan, NeverBack] using hfrom lines h
    | some ts =>
      rw [rise, riseFrom_eq lines ts h]
      simp [recordedSpan]

end

/-- Lines are sent in order, each at the time multiple times what the timestamps have risen from
line to line and the fallback gap for each line that is sent on it. Timestamps that never go back
rise from the first to the latest and no more. -/
theorem cadence_follows_the_recording (tm fallback : ℚ) (htm : 0 ≤ tm) (hfallback : 0 ≤ fallback)
    (accepts : ℕ → Bool) (lines : List (Option ℚ)) :
    (runCadence tm fallback accepts lines).Pairwise (· ≤ ·) ∧
      ∀ i offset, (runCadence tm fallback accepts lines)[i]? = some offset →
        offset = tm * (rise (lines.take (i + 1)) + fallback * fallbacks (lines.take (i + 1))) ∧
          (NeverBack (lines.take (i + 1)) →
            rise (lines.take (i + 1)) = recordedSpan (lines.take (i + 1))) := by
  refine ⟨(Cadence.pairwise_run htm hfallback accepts lines 0 {}).1, fun i offset h => ⟨?_, ?_⟩⟩
  · rw [Cadence.getElem?_run accepts lines 0 {} h, Cadence.cumulative_eq htm]
  · exact rise_eq_recordedSpan

/-- A replay at half the pace, of lines that go back once and one that has no timestamp. -/
theorem cadence_follows_a_recording :
    (0 : ℚ) ≤ 2 ∧ (0 : ℚ) ≤ 1 / 10 ∧
      let lines := [some 0, some 10, some 0, none, some 10]
      (runCadence 2 (1 / 10) (fun _ => true) lines).Pairwise (· ≤ ·) ∧
        ∀ i offset, (runCadence 2 (1 / 10) (fun _ => true) lines)[i]? = some offset →
          offset = 2 * (rise (lines.take (i + 1)) + 1 / 10 * fallbacks (lines.take (i + 1))) ∧
            (NeverBack (lines.take (i + 1)) →
              rise (lines.take (i + 1)) = recordedSpan (lines.take (i + 1))) :=
  ⟨by norm_num, by norm_num, cadence_follows_the_recording 2 (1 / 10) (by norm_num)
    (by norm_num) _ _⟩

/-- The fallback is scaled as the steps are, and a timestamp that goes back is climbed from again:
both send a line later than the latest timestamp and the plain fallback gaps allow. -/
theorem cadence_later_than_the_recording :
    runCadence 2 (1 / 10) (fun _ => true) [none, none] = [0, 1 / 5] ∧
      2 * recordedSpan [none, none] + 1 / 10 * fallbacks [none, none] < (1 / 5 : ℚ) ∧
      runCadence 1 (1 / 10) (fun _ => true) [some 0, some 10, some 0, some 10] =
        [0, 10, 101 / 10, 201 / 10] ∧
      1 * recordedSpan [some 0, some 10, some 0, some 10] +
        1 / 10 * fallbacks [some 0, some 10, some 0, some 10] < (201 / 10 : ℚ) := by
  decide +kernel

end Stoker
