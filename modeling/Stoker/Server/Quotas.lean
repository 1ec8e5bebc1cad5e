import Mathlib.Data.List.GetD
import Stoker.Dealing.Largest
import Stoker.Dealing.Stride
import Stoker.Server.Apportion

/-!
# Quotas

What `largest_remainder` gives each index: the floor of its exact quota, and one more to the indices
with the largest remainders. The remainders are fractions that add up to what the floors leave of
the total, so the rules of `Dealing.largest` apply to them. Equal weights give equal parts, the
first ones one larger.
-/

open List

namespace Stoker

open Dealing

/-- What an index would get if parts did not have to be whole. -/
def quota (total : ℤ) (weights : List ℚ) (i : ℕ) : ℚ := total * (weights.getD i 0 / weights.sum)

def remainder (total : ℤ) (weights : List ℚ) (i : ℕ) : ℚ := Int.fract (quota total weights i)

/-- What the floors of the quotas leave of the total. -/
def shortfall (total : ℤ) (weights : List ℚ) : ℕ :=
  (total - ((range weights.length).map fun i => ⌊quota total weights i⌋).sum).toNat

/-- The indices that get one more than the floor of their quota. -/
def raised (total : ℤ) (weights : List ℚ) : List ℕ :=
  largest (remainder total weights) weights.length (shortfall total weights)

def wholePart (total : ℤ) (weights : List ℚ) (i : ℕ) : ℤ :=
  ⌊quota total weights i⌋ + if i ∈ raised total weights then 1 else 0

section

variable {total : ℕ} {weights : List ℚ}

lemma getD_map_zero {α β : Type} [Zero α] [Zero β] (f : α → β) (hf : f 0 = 0) (l : List α) (i : ℕ) :
    (l.map f).getD i 0 = f (l.getD i 0) := by
  rw [← hf, getD_map]

section

variable (total : ℤ) (weights : List ℚ)

def exactParts : List ℚ := weights.map fun w => (total : ℚ) * (w / weights.sum)

lemma getD_exactParts (i : ℕ) : (exactParts total weights).getD i 0 = quota total weights i :=
  getD_map_zero (fun w => (total : ℚ) * (w / weights.sum)) (by simp) weights i

lemma getD_floors (i : ℕ) :
    ((exactParts total weights).map fun x => ⌊x⌋).getD i 0 = ⌊quota total weights i⌋ := by
  rw [getD_map_zero _ Int.floor_zero, getD_exactParts]

lemma exactParts_eq : exactParts total weights =
    (range weights.length).map (quota total weights) := by
  refine ext_getElem (by simp [exactParts]) fun i hi _ => ?_
  rw [exactParts, length_map] at hi
  simp [exactParts, quota, hi]

lemma floors_eq :
    ((exactParts total weights).map fun x => ⌊x⌋) =
      (range weights.length).map fun i => ⌊quota total weights i⌋ := by
  rw [exactParts_eq, map_map]
  rfl

end

lemma length_ne_zero_of_sum (hsum : 0 < weights.sum) : weights.length ≠ 0 := by
  intro h
  rw [length_eq_zero_iff.1 h] at hsum
  exact lt_irrefl 0 hsum

theorem largestRemainder_eq (hsum : 0 < weights.sum) :
    largestRemainder total weights =
      .ok ((range weights.length).map (wholePart total weights)) := by
  unfold largestRemainder
  rw [if_neg (by simp), if_neg (length_ne_zero_of_sum hsum), if_neg (not_le.2 hsum)]
  dsimp only
  rw [← exactParts]
  simp only [getD_exactParts, getD_floors]
  rw [floors_eq]
  refine congrArg Except.ok (ext_getElem (by simp) fun i _ _ => ?_)
  simp only [getElem_mapIdx, getElem_map, getElem_range, wholePart]
  change (if i ∈ raised total weights then ⌊quota total weights i⌋ +
    1 else ⌊quota total weights i⌋) = _
  split_ifs
  · rfl
  · rw [add_zero]

/-! ### The remainders -/

lemma sum_map_range {M : Type} [AddCommMonoid M] (f : ℕ → M) (n : ℕ) :
    ((range n).map f).sum = ∑ i ∈ Finset.range n, f i := by
  induction n with
  | zero => rfl
  | succ n ih => simp [range_succ, Finset.sum_range_succ, ih]

lemma sum_quota (hsum : 0 < weights.sum) :
    ∑ i ∈ Finset.range weights.length, quota total weights i = total := by
  rw [← sum_map_range, ← exactParts_eq, exactParts, sum_map_mul_left]
  have hshares : (weights.map fun w => w / weights.sum).sum = 1 := by
    simp only [div_eq_mul_inv]
    rw [sum_map_mul_right, map_id', mul_inv_cancel₀ hsum.ne']
  rw [hshares, mul_one]
  rfl

/-- What the floors leave is what the remainders add up to. -/
lemma sum_remainder (hsum : 0 < weights.sum) :
    ∑ i ∈ Finset.range weights.length, remainder total weights i = shortfall total weights := by
  have hsplit : ∑ i ∈ Finset.range weights.length, remainder total weights i =
      ((total - ∑ i ∈ Finset.range weights.length, ⌊quota total weights i⌋ : ℤ) : ℚ) := by
    push_cast
    rw [← sum_quota hsum, ← Finset.sum_sub_distrib]
    rfl
  have hnonneg : 0 ≤ (total : ℤ) - ∑ i ∈ Finset.range weights.length, ⌊quota total weights i⌋ := by
    have hfract : 0 ≤ ∑ i ∈ Finset.range weights.length, remainder total weights i :=
      Finset.sum_nonneg fun i _ => Int.fract_nonneg _
    rw [hsplit] at hfract
    exact_mod_cast hfract
  rw [hsplit, shortfall, sum_map_range]
  exact_mod_cast (Int.toNat_of_nonneg hnonneg).symm

lemma remainder_lt (i : ℕ) : remainder total weights i < 1 := Int.fract_lt_one _

lemma shortfall_le (hsum : 0 < weights.sum) : shortfall total weights ≤ weights.length :=
  le_of_sum_fractions (fun i _ => remainder_lt i) (sum_remainder hsum)

/-! ### The parts -/

/-- The parts add up to the total. -/
theorem sum_wholePart (hsum : 0 < weights.sum) :
    ((range weights.length).map (wholePart total weights)).sum = total := by
  have hraised : ∑ i ∈ Finset.range weights.length,
      (if i ∈ raised total weights then (1 : ℚ) else 0) =
      shortfall total weights := by
    rw [Finset.sum_boole, raised, card_largest (shortfall_le hsum)]
  have hcast : ((∑ i ∈ Finset.range weights.length, wholePart total weights i : ℤ) : ℚ) =
      total := by
    calc ((∑ i ∈ Finset.range weights.length, wholePart total weights i : ℤ) : ℚ)
        = ∑ i ∈ Finset.range weights.length, (⌊quota total weights i⌋ : ℚ) +
            ∑ i ∈ Finset.range weights.length,
              (if i ∈ raised total weights then (1 : ℚ) else 0) := by
          rw [← Finset.sum_add_distrib]
          push_cast [wholePart]
          rfl
      _ = ∑ i ∈ Finset.range weights.length, quota total weights i := by
          rw [hraised, ← sum_remainder hsum, ← Finset.sum_add_distrib]
          exact Finset.sum_congr rfl fun i _ => Int.floor_add_fract _
      _ = total := sum_quota hsum
  exact_mod_cast hcast

theorem wholePart_floor_or_ceil (hsum : 0 < weights.sum) (i : ℕ) :
    wholePart total weights i = ⌊quota total weights i⌋ ∨
      wholePart total weights i = ⌈quota total weights i⌉ := by
  unfold wholePart
  by_cases hi : i ∈ raised total weights
  · right
    have hpos : 0 < remainder total weights i :=
      pos_of_mem_largest (fun j _ => Int.fract_nonneg _) (fun j _ => remainder_lt j)
        (sum_remainder hsum) hi
    rw [if_pos hi, (Int.ceil_eq_floor_add_one_iff_notMem _).2 (Int.fract_ne_zero_iff.1 hpos.ne')]
  · left
    rw [if_neg hi, add_zero]

theorem extra_mono {i j : ℕ} (hi : i < weights.length) (hij : Ahead (remainder total weights) i j) :
    wholePart total weights j - ⌊quota total weights j⌋ ≤
      wholePart total weights i - ⌊quota total weights i⌋ := by
  simp only [wholePart, add_sub_cancel_left]
  by_cases hj : j ∈ raised total weights
  · have hmem : i ∈ raised total weights := mem_largest_of_ahead hj hi hij
    rw [if_pos hj, if_pos hmem]
  · rw [if_neg hj]
    split_ifs <;> decide

end

/-! ### Equal weights -/

section

variable {total n i : ℕ} {w : ℚ}

lemma sum_replicate_pos (hw : 0 < w) (hn : 0 < n) : 0 < (replicate n w).sum := by
  rw [sum_replicate]
  exact nsmul_pos hw hn.ne'

/-- Only the proportions of the weights count. -/
lemma quota_replicate (hw : 0 < w) (hi : i < n) :
    quota total (replicate n w) i = (total : ℚ) / n := by
  rw [quota, getD_replicate _ hi, sum_replicate, nsmul_eq_mul]
  push_cast
  field_simp

lemma floor_quota_replicate (hw : 0 < w) (hi : i < n) :
    ⌊quota total (replicate n w) i⌋ = (total / n : ℕ) := by
  rw [quota_replicate hw hi, Rat.floor_natCast_div_natCast]
  simp

lemma shortfall_replicate (hw : 0 < w) : shortfall total (replicate n w) = total % n := by
  have hfloors : ((range n).map fun i => ⌊quota total (replicate n w) i⌋) =
      replicate n ((total / n : ℕ) : ℤ) := by
    rw [map_congr_left fun i hi => floor_quota_replicate hw (mem_range.1 hi)]
    simp
  have hdiv := Nat.div_add_mod total n
  rw [shortfall, length_replicate, hfloors, sum_replicate, nsmul_eq_mul, ← Nat.cast_mul]
  omega

lemma wholePart_replicate (hw : 0 < w) (hi : i < n) :
    wholePart total (replicate n w) i = evenPart total n i := by
  have hequal : ∀ j < n, remainder total (replicate n w) j = Int.fract ((total : ℚ) / n) := by
    intro j hj
    rw [remainder, quota_replicate hw hj]
  have hraised : raised total (replicate n w) = range (total % n) := by
    rw [raised, shortfall_replicate hw, length_replicate]
    exact largest_of_const (Nat.mod_lt total (by omega)).le hequal
  rw [wholePart, floor_quota_replicate hw hi, hraised, evenPart]
  simp only [mem_range]
  split_ifs <;> simp

lemma largestRemainder_even (total : ℕ) (hn : 0 < n) :
    largestRemainder total (replicate n 1) =
      .ok ((range n).map fun i => (evenPart total n i : ℤ)) := by
  rw [largestRemainder_eq (sum_replicate_pos one_pos hn), length_replicate]
  refine congrArg Except.ok (map_congr_left fun i hi => ?_)
  exact wholePart_replicate one_pos (mem_range.1 hi)

end

end Stoker
