import Mathlib.Tactic
import Mathlib.Algebra.BigOperators.Intervals
import Mathlib.Data.List.Sort
import Mathlib.Data.Rat.Floor

/-!
# The largest remainders

Indices with a remainder each are put in order, the larger remainders first and ties by the index,
and the first `k` of them are chosen. The choice does not depend on how the indices are sorted
(`take_eq_largest`), it is closed under going ahead in the order (`mem_largest_of_ahead`), and where
the remainders are fractions that add up to `k`, no index without a remainder is chosen
(`pos_of_mem_largest`).
-/

open List

namespace Dealing

variable {i : ℕ}

section Order

variable {R : Type*} [LinearOrder R] {part : ℕ → R}

/-- The order in which indices are chosen. -/
def Ahead (part : ℕ → R) (i j : ℕ) : Prop := part j < part i ∨ (part i = part j ∧ i ≤ j)

instance (part : ℕ → R) : DecidableRel (Ahead part) := fun i j =>
  inferInstanceAs (Decidable (part j < part i ∨ (part i = part j ∧ i ≤ j)))

lemma ahead_total (i j : ℕ) : Ahead part i j ∨ Ahead part j i := by
  rcases lt_trichotomy (part i) (part j) with h | h | h
  · exact .inr (.inl h)
  · rcases le_total i j with hij | hij
    · exact .inl (.inr ⟨h, hij⟩)
    · exact .inr (.inr ⟨h.symm, hij⟩)
  · exact .inl (.inl h)

variable {j : ℕ}

lemma ahead_trans {k : ℕ} (hij : Ahead part i j) (hjk : Ahead part j k) : Ahead part i k := by
  rcases hij with hij | ⟨hij, hle⟩ <;> rcases hjk with hjk | ⟨hjk, hle'⟩
  · exact .inl (hjk.trans hij)
  · exact .inl (hjk ▸ hij)
  · exact .inl (hij ▸ hjk)
  · exact .inr ⟨hij.trans hjk, hle.trans hle'⟩

lemma ahead_antisymm (hij : Ahead part i j) (hji : Ahead part j i) : i = j := by
  rcases hij with hij | ⟨hij, hle⟩ <;> rcases hji with hji | ⟨hji, hle'⟩
  · exact absurd hij hji.asymm
  · exact absurd hij hji.not_lt
  · exact absurd hji hij.not_lt
  · exact hle.antisymm hle'

instance : Std.Total (Ahead part) := ⟨ahead_total⟩

instance : IsTrans ℕ (Ahead part) := ⟨fun _ _ _ => ahead_trans⟩

/-- The first `k` of the indices below `n`. -/
def largest (part : ℕ → R) (n k : ℕ) : List ℕ := ((range n).insertionSort (Ahead part)).take k

/-- Any list of the indices that is in order has them in the same places. -/
lemma take_eq_largest {n : ℕ} (k : ℕ) {l : List ℕ} (hperm : l.Perm (range n))
    (hl : l.Pairwise (Ahead part)) : l.take k = largest part n k := by
  have hsort : l.Perm ((range n).insertionSort (Ahead part)) :=
    hperm.trans (perm_insertionSort (Ahead part) _).symm
  have heq := hsort.eq_of_pairwise (fun i j _ _ => ahead_antisymm) hl
    (pairwise_insertionSort (Ahead part) _)
  rw [heq, largest]

variable {n k : ℕ}

lemma lt_of_mem_largest (hi : i ∈ largest part n k) : i < n := by
  have hmem := mem_of_mem_take hi
  rwa [mem_insertionSort, mem_range] at hmem

lemma nodup_largest : (largest part n k).Nodup := by
  have hnodup : ((range n).insertionSort (Ahead part)).Nodup :=
    (perm_insertionSort (Ahead part) _).nodup_iff.2 nodup_range
  exact hnodup.sublist (take_sublist _ _)

lemma length_largest (hk : k ≤ n) : (largest part n k).length = k := by
  rw [largest, length_take, length_insertionSort, length_range]
  exact Nat.min_eq_left hk

theorem mem_largest_of_ahead (hj : j ∈ largest part n k) (hi : i < n) (hij : Ahead part i j) :
    i ∈ largest part n k := by
  by_contra hni
  have hsorted := pairwise_insertionSort (Ahead part) (range n)
  have hmem : i ∈ (range n).insertionSort (Ahead part) := by
    rw [mem_insertionSort, mem_range]
    exact hi
  rw [← take_append_drop k ((range n).insertionSort (Ahead part))] at hsorted hmem
  -- an index left out comes after all the chosen ones
  have hji : Ahead part j i :=
    (pairwise_append.1 hsorted).2.2 j hj i ((mem_append.1 hmem).resolve_left hni)
  exact hni (ahead_antisymm hij hji ▸ hj)

lemma largest_of_const {c : R} (hk : k ≤ n) (h : ∀ i < n, part i = c) :
    largest part n k = range k := by
  have hsorted : (range n).Pairwise (Ahead part) := by
    refine List.Pairwise.imp_of_mem ?_ pairwise_lt_range
    intro i j hi hj hij
    rw [mem_range] at hi hj
    exact .inr ⟨(h i hi).trans (h j hj).symm, hij.le⟩
  rw [← take_eq_largest k (Perm.refl _) hsorted, take_range, Nat.min_eq_left hk]

lemma card_largest (hk : k ≤ n) : ((Finset.range n).filter (· ∈ largest part n k)).card = k := by
  have hfin : (Finset.range n).filter (· ∈ largest part n k) = (largest part n k).toFinset := by
    ext i
    simp only [Finset.mem_filter, Finset.mem_range, mem_toFinset]
    exact ⟨fun h => h.2, fun h => ⟨lt_of_mem_largest h, h⟩⟩
  rw [hfin, toFinset_card_of_nodup nodup_largest, length_largest hk]

end Order

section Fractions

variable {R : Type*} [Field R] [LinearOrder R] [IsStrictOrderedRing R] {part : ℕ → R} {n k : ℕ}

lemma le_of_sum_fractions (hlt : ∀ i < n, part i < 1) (hsum : ∑ i ∈ Finset.range n, part i = k) :
    k ≤ n := by
  have hle : (k : R) ≤ n := by
    rw [← hsum]
    calc ∑ i ∈ Finset.range n, part i ≤ ∑ i ∈ Finset.range n, (1 : R) := by
          apply Finset.sum_le_sum
          intro i hi
          exact (hlt i (Finset.mem_range.1 hi)).le
      _ = n := by simp
  exact_mod_cast hle

/-- Of fractions that add up to `k`, the `k` largest are not zero. -/
theorem pos_of_mem_largest (hpos : ∀ i < n, 0 ≤ part i) (hlt : ∀ i < n, part i < 1)
    (hsum : ∑ i ∈ Finset.range n, part i = k) (hi : i ∈ largest part n k) : 0 < part i := by
  by_contra hzero
  have hin := lt_of_mem_largest hi
  have hi0 : part i = 0 := le_antisymm (not_lt.1 hzero) (hpos i hin)
  set chosen := (Finset.range n).filter (· ∈ largest part n k) with hchosen
  have hmem : i ∈ chosen := Finset.mem_filter.2 ⟨Finset.mem_range.2 hin, hi⟩
  -- an index that is not chosen comes after `i`, so it has no remainder either
  have hrest : ∀ j ∈ Finset.range n, j ∉ chosen → part j = 0 := by
    intro j hj hnot
    rw [Finset.mem_range] at hj
    refine le_antisymm (not_lt.1 fun hjpos => hnot ?_) (hpos j hj)
    refine Finset.mem_filter.2 ⟨Finset.mem_range.2 hj, ?_⟩
    exact mem_largest_of_ahead hi hj (.inl (by rw [hi0]; exact hjpos))
  have hcard : (chosen.erase i).card + 1 = k := by
    rw [Finset.card_erase_add_one hmem]
    exact card_largest (le_of_sum_fractions hlt hsum)
  have hle : (k : R) ≤ (chosen.erase i).card := by
    calc (k : R) = ∑ j ∈ chosen, part j := by
          rw [← hsum]
          exact (Finset.sum_subset (Finset.filter_subset _ _) hrest).symm
      _ = ∑ j ∈ chosen.erase i, part j := (Finset.sum_erase chosen hi0).symm
      _ ≤ ∑ j ∈ chosen.erase i, (1 : R) := by
          apply Finset.sum_le_sum
          intro j hj
          have hjn := (Finset.mem_filter.1 (Finset.mem_of_mem_erase hj)).1
          exact (hlt j (Finset.mem_range.1 hjn)).le
      _ = (chosen.erase i).card := by simp
  have hnat : k ≤ (chosen.erase i).card := by exact_mod_cast hle
  omega

end Fractions

end Dealing
