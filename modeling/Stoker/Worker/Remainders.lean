import Stoker.Worker.ConfRewrite
import Stoker.Worker.Work

/-!
# Two ways to take the largest remainders

The server keeps the list of the chosen indices and adds one where an index is in it; the worker
sorts by a key and raises the chosen parts one after the other. On the same weights both give the
parts that `Quotas` describes.
-/

open List

namespace Stoker

open Dealing

/-! ### The worker's order -/

lemma sum_num (weights : List ℚ) : PyFloat.sum (weights.map .num) = .num weights.sum := by
  have hfold : ∀ (l : List ℚ) (a : ℚ),
      (l.map PyFloat.num).foldl PyFloat.add (.num a) = .num (a + l.sum) := by
    intro l
    induction l with
    | nil => simp
    | cons w l ih =>
      intro a
      change (l.map PyFloat.num).foldl PyFloat.add (.num (a + w)) = _
      rw [ih, sum_cons, add_assoc]
  rw [PyFloat.sum, hfold, zero_add]

/-- The key that the worker sorts by puts the larger remainders first. -/
lemma key_le_iff {part : ℕ → ℚ} {i j : ℕ} :
    toLex (-part i, i) ≤ toLex (-part j, j) ↔ Ahead part i j := by
  rw [Prod.Lex.toLex_le_toLex, Ahead, neg_lt_neg_iff, neg_inj]

lemma take_key_eq_largest (part : ℕ → ℚ) (n k : ℕ) :
    ((range n).insertionSort fun i j => toLex (-part i, i) ≤ toLex (-part j, j)).take k =
      largest part n k := by
  refine take_eq_largest k (perm_insertionSort _ _) ?_
  exact (pairwise_insertionSort _ _).imp fun h => key_le_iff.1 h

/-- Raising parts one after the other raises each chosen one once. -/
lemma getElem?_foldl_raise {chosen : List ℕ} (hnodup : chosen.Nodup) (parts : List ℤ) (i : ℕ) :
    (chosen.foldl (fun parts i => parts.modify i (· + 1)) parts)[i]? =
      parts[i]?.map (· + if i ∈ chosen then 1 else 0) := by
  induction chosen generalizing parts with
  | nil => simp
  | cons j chosen ih =>
    rw [nodup_cons] at hnodup
    rw [foldl_cons, ih hnodup.2, getElem?_modify]
    by_cases hij : j = i
    · subst hij
      cases parts[j]? with
      | none => rfl
      | some x => simp [hnodup.1]
    · have hmem : i ∈ j :: chosen ↔ i ∈ chosen := by simp [Ne.symm hij]
      cases parts[i]? with
      | none => simp
      | some x => simp [hij, hmem]

section

variable {total : ℕ} {weights : List ℚ}

lemma usableWeights_num (hsum : 0 < weights.sum) :
    ConfRewrite.usableWeights (weights.map .num) = (weights.map .num, weights.sum) := by
  unfold ConfRewrite.usableWeights
  rw [sum_num]
  exact if_neg (not_le.2 hsum)

/-- The worker's `largest_remainder` gives every index its part. -/
theorem ConfRewrite.largestRemainder_eq (hsum : 0 < weights.sum) :
    ConfRewrite.largestRemainder total (weights.map .num) =
      .ok ((range weights.length).map (wholePart total weights)) := by
  have hexact : (weights.map PyFloat.num).map
      (fun w => ((total : ℤ) : ℚ) * (w.value / weights.sum)) =
      exactParts total weights := map_map
  unfold ConfRewrite.largestRemainder
  rw [if_neg (by simp), length_map, if_neg (length_ne_zero_of_sum hsum), usableWeights_num hsum]
  dsimp only
  rw [hexact]
  simp only [getD_exactParts, getD_floors, take_key_eq_largest]
  rw [floors_eq]
  refine congrArg Except.ok (ext_getElem? fun i => ?_)
  change ((raised total weights).foldl (fun (parts : List ℤ) i => parts.modify i (· + 1)) _)[i]? = _
  have hnodup : (raised total weights).Nodup := nodup_largest
  rw [getElem?_foldl_raise hnodup, getElem?_map, getElem?_map]
  by_cases hi : i < weights.length
  · rw [getElem?_range hi]
    rfl
  · rw [getElem?_eq_none (by simpa using hi)]
    rfl

/-- With equal weights the worker gives the first indices the larger parts, too. -/
lemma ConfRewrite.largestRemainder_even (total : ℕ) {n : ℕ} (hn : 0 < n) :
    ConfRewrite.largestRemainder total (replicate n (.num 1)) =
      .ok ((range n).map fun i => (evenPart total n i : ℤ)) := by
  have hparts : ConfRewrite.largestRemainder total ((replicate n 1).map .num) = _ :=
    ConfRewrite.largestRemainder_eq (sum_replicate_pos one_pos hn)
  rw [map_replicate, length_replicate] at hparts
  rw [hparts]
  refine congrArg Except.ok (map_congr_left fun i hi => ?_)
  exact wholePart_replicate one_pos (mem_range.1 hi)

/-! ### The law -/

/-- Largest remainder: the server and the worker give the same whole parts. They add up to the total
and each is the floor or the ceiling of its quota; what is over goes to the larger remainders, and
of equal ones to the lower index. Equal weights give equal parts, the first `total % n` of them one
larger. -/
theorem largestRemainder_parts (total : ℕ) (weights : List ℚ) (hsum : 0 < weights.sum) :
    ∃ parts : List ℤ,
      largestRemainder total weights = .ok parts ∧
      ConfRewrite.largestRemainder total (weights.map .num) = .ok parts ∧
      parts.length = weights.length ∧
      parts.sum = total ∧
      (∀ i < weights.length, parts.getD i 0 = ⌊quota total weights i⌋ ∨
        parts.getD i 0 = ⌈quota total weights i⌉) ∧
      (∀ i < weights.length, ∀ j < weights.length,
        remainder total weights j < remainder total weights i →
        parts.getD j 0 - ⌊quota total weights j⌋ ≤ parts.getD i 0 - ⌊quota total weights i⌋) ∧
      (∀ j < weights.length, ∀ i < j, remainder total weights i = remainder total weights j →
        parts.getD j 0 - ⌊quota total weights j⌋ ≤ parts.getD i 0 - ⌊quota total weights i⌋) ∧
      (∀ w : ℚ, weights = replicate weights.length w → ∀ s < weights.length,
        parts.getD s 0 = (total / weights.length + if s < total % weights.length then 1
          else 0 : ℕ)) := by
  have hpart : ∀ i < weights.length,
      ((range weights.length).map (wholePart total weights)).getD i 0 =
        wholePart total weights i := by
    intro i hi
    simp [hi]
  refine ⟨_, largestRemainder_eq hsum, ConfRewrite.largestRemainder_eq hsum, by simp,
    sum_wholePart hsum, ?_, ?_, ?_, ?_⟩
  · intro i hi
    rw [hpart i hi]
    exact wholePart_floor_or_ceil hsum i
  · intro i hi j hj hij
    rw [hpart i hi, hpart j hj]
    exact extra_mono hi (.inl hij)
  · intro j hj i hij heq
    rw [hpart i (hij.trans hj), hpart j hj]
    exact extra_mono (hij.trans hj) (.inr ⟨heq, hij.le⟩)
  · intro w hw s hs
    have hpos : 0 < w := by
      rw [hw, sum_replicate, nsmul_eq_mul] at hsum
      exact (pos_iff_pos_of_mul_pos hsum).1 (by exact_mod_cast (by omega : 0 < weights.length))
    rw [hpart s hs, hw, length_replicate]
    exact wholePart_replicate hpos hs

/-- Seven over three weights. -/
theorem largestRemainder_parts_seven :
    ∃ parts : List ℤ, largestRemainder 7 [1, 2, 3] = .ok parts ∧ parts.sum = 7 := by
  obtain ⟨parts, hserver, _, _, hsum, _⟩ := largestRemainder_parts 7 [1, 2, 3] (by norm_num)
  exact ⟨parts, hserver, hsum⟩

end

end Stoker
