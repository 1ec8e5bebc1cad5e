import Mathlib.Data.Rat.Floor
import Mathlib.Algebra.BigOperators.Group.List.Basic
import Mathlib.Data.List.ModifyLast
import Mathlib.Data.List.Sort
import Stoker.Server.Rows

/-!
# Apportionment of a run's rate

`server/engines/apportion.py`, over exact rationals. A rate in events or GB per day is split in
proportion to the weights and the rounding residue goes into the last share; a count is split by
largest remainder. `buildShareList` gives every worker the same weight, so an exact rate is split
into equal shares (`buildShareList_rate`) and the residue is zero.
-/

open List

namespace Stoker

/-- `largest_remainder`: integer parts proportional to the weights that sum to `total`. -/
def largestRemainder (total : ℤ) (weights : List ℚ) : Except String (List ℤ) :=
  if total < 0 then .error "total must be >= 0"
  else if weights.length = 0 then .ok []
  else
    -- degenerate weights fall back to an equal split
    let (ws, weightSum) :=
      if weights.sum ≤ 0 then (replicate weights.length (1 : ℚ), (weights.length : ℚ))
      else (weights, weights.sum)
    let exact := ws.map fun w => (total : ℚ) * (w / weightSum)
    let floors := exact.map fun x => ⌊x⌋
    let shortfall := total - floors.sum
    let part := fun i => exact.getD i 0 - floors.getD i 0
    -- larger remainders first, ties to the lower index
    let remainders := (range weights.length).insertionSort fun i j =>
      part j < part i ∨ (part i = part j ∧ i ≤ j)
    let chosen := remainders.take shortfall.toNat
    .ok (floors.mapIdx fun i f => if i ∈ chosen then f + 1 else f)

/-- Python's `round`: to the nearest integer, halves to the even one. -/
def pyRound (q : ℚ) : ℤ :=
  let f := ⌊q⌋
  if q - f < 1 / 2 then f
  else if 1 / 2 < q - f then f + 1
  else if f % 2 = 0 then f else f + 1

/-- `_fix_float_residue`: what is missing from `total` goes into the last share. -/
def fixFloatResidue (values : List ℚ) (total : ℚ) : List ℚ :=
  values.modifyLast (· + (total - values.sum))

/-- `apportion_shares`: one single-key share for each worker. -/
def apportionShares (mode : RateMode) (rateValue : Option ℚ) (workers : ℕ) (weights : List ℚ) :
    Except String (List PublicShare) :=
  if workers < 1 then .error "workers must be >= 1"
  else if weights.length ≠ workers then .error "weights length differs from workers"
  else
    match mode with
    | .eps | .perDayGb =>
      match rateValue with
      | none => .error "the mode requires rate_value > 0"
      | some rate =>
        if rate ≤ 0 then .error "the mode requires rate_value > 0"
        else
          let (ws, weightSum) :=
            if weights.sum ≤ 0 then (replicate workers (1 : ℚ), (workers : ℚ))
            else (weights, weights.sum)
          let shares := ws.map fun w => rate * (w / weightSum)
          .ok ((fixFloatResidue shares rate).map fun v => [(mode.key, v)])
    | .countInterval =>
      let total := match rateValue with
        | none => 0
        | some rate => if rate = 0 then 0 else pyRound rate
      match largestRemainder total weights with
      | .error e => .error e
      | .ok counts => .ok (counts.map fun (c : ℤ) => [(mode.key, (c : ℚ))])

/-- `apportion_weights`: every slot weighs the same. -/
def apportionWeights (workers : ℕ) : List ℚ :=
  replicate (max 1 workers) 1

def buildShareList (mode : RateMode) (rateValue : Option ℚ) (workers : ℕ) :
    Except String (List PublicShare) :=
  apportionShares mode rateValue workers (apportionWeights workers)

/-! ### Equal shares -/

/-- The mode is paced by a rate, not by the conf's own counts. -/
def RateMode.paced : RateMode → Bool
  | .eps | .perDayGb => true
  | .countInterval => false

lemma modifyLast_add_zero (values : List ℚ) : values.modifyLast (· + 0) = values := by
  induction values using reverseRecOn with
  | nil => rfl
  | append_singleton vs v ih => simp [modifyLast_concat]

lemma fixFloatResidue_eq (values : List ℚ) (total : ℚ) (h : values.sum = total) :
    fixFloatResidue values total = values := by
  simp only [fixFloatResidue, h, sub_self]
  exact modifyLast_add_zero values

variable {mode : RateMode} {n : ℕ} {rateValue : Option ℚ}

/-- In a paced mode an empty fleet, a missing rate and a rate that is not positive are refused. -/
lemma buildShareList_error (hm : mode.paced = true)
    (h : n = 0 ∨ ∀ rate, rateValue = some rate → rate ≤ 0) :
    ∃ e, buildShareList mode rateValue n = .error e := by
  simp only [buildShareList, apportionShares]
  by_cases hn : n < 1
  · rw [if_pos hn]
    exact ⟨_, rfl⟩
  rw [if_neg hn]
  by_cases hl : (apportionWeights n).length ≠ n
  · rw [if_pos hl]
    exact ⟨_, rfl⟩
  rw [if_neg hl]
  have hrate := h.resolve_left (by omega)
  cases mode with
  | countInterval => simp [RateMode.paced] at hm
  | eps | perDayGb =>
    cases rateValue with
    | none => exact ⟨_, rfl⟩
    | some rate =>
      simp only [if_pos (hrate rate rfl)]
      exact ⟨_, rfl⟩

/-- A positive rate over `n` workers is split into `n` equal shares. -/
theorem buildShareList_rate (hm : mode.paced = true) {rate : ℚ} (hr : 0 < rate) (hn : 0 < n) :
    buildShareList mode (some rate) n = .ok (replicate n [(mode.key, rate / n)]) := by
  have hmax : max 1 n = n := by omega
  have hq : (0 : ℚ) < n := by exact_mod_cast hn
  have hlen : (apportionWeights n).length = n := by simp [apportionWeights, hmax]
  have hsum : (apportionWeights n).sum = n := by simp [apportionWeights, hmax]
  have hmap : (apportionWeights n).map (fun w => rate * (w / (n : ℚ)))
      = replicate n (rate / n) := by
    simp [apportionWeights, hmax, div_eq_mul_inv]
  have hres : fixFloatResidue (replicate n (rate / n)) rate = replicate n (rate / n) := by
    apply fixFloatResidue_eq
    rw [sum_replicate, nsmul_eq_mul]
    field_simp
  cases mode with
  | countInterval => simp [RateMode.paced] at hm
  | eps | perDayGb =>
    simp only [buildShareList, apportionShares]
    rw [if_neg (by omega), if_neg (by simp [hlen]), if_neg (not_le.mpr hr), hsum,
      if_neg (not_le.mpr hq)]
    simp only [hmap, hres, map_replicate]

variable {shares : List PublicShare}

theorem buildShareList_ok (hm : mode.paced = true)
    (h : buildShareList mode rateValue n = .ok shares) :
    ∃ rate, rateValue = some rate ∧ 0 < rate ∧ 0 < n ∧
      shares = replicate n [(mode.key, rate / n)] := by
  by_cases hc : n = 0 ∨ ∀ rate, rateValue = some rate → rate ≤ 0
  · obtain ⟨e, he⟩ := buildShareList_error hm hc
    rw [he] at h
    cases h
  · push Not at hc
    obtain ⟨hn, rate, rfl, hr⟩ := hc
    have hpos : 0 < n := by omega
    rw [buildShareList_rate hm hr hpos] at h
    exact ⟨rate, rfl, hr, hpos, (Except.ok.inj h).symm⟩

/-! ### The shape of a split -/

lemma largestRemainder_length {total : ℤ} {weights : List ℚ} {counts : List ℤ}
    (h : largestRemainder total weights = .ok counts) : counts.length = weights.length := by
  unfold largestRemainder at h
  split_ifs at h with _ hw hs
  · cases h
    exact hw.symm
  · cases h
    simp
  · cases h
    simp

lemma buildShareList_shape (h : buildShareList mode rateValue n = .ok shares) :
    shares.length = n ∧ ∀ share ∈ shares, ∃ v, share = [(mode.key, v)] := by
  by_cases hm : mode.paced = true
  · obtain ⟨rate, _, _, _, rfl⟩ := buildShareList_ok hm h
    exact ⟨length_replicate, fun share hs => ⟨_, eq_of_mem_replicate hs⟩⟩
  · have hmode : mode = .countInterval := by
      cases mode with
      | countInterval => rfl
      | eps | perDayGb => exact absurd rfl hm
    subst hmode
    simp only [buildShareList, apportionShares] at h
    split_ifs at h with _ hlen
    split at h
    · cases h
    · rename_i counts hc
      cases h
      rw [not_not] at hlen
      refine ⟨by rw [length_map, largestRemainder_length hc, hlen], fun share hs => ?_⟩
      obtain ⟨c, _, rfl⟩ := mem_map.1 hs
      exact ⟨_, rfl⟩

end Stoker
