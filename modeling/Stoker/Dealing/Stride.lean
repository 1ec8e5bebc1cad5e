import Mathlib.Tactic
import Mathlib.Data.List.Perm.Basic
import Mathlib.Algebra.BigOperators.Group.List.Basic

/-!
# Dealing work out

Two ways to deal work to `n` parties without asking any of them. A list is dealt by position: party
`i` takes the positions `i`, `i + n`, `i + 2 n` and so on. A number is dealt into parts that differ
by at most one, the larger ones to the first parties. Either way the parties together have
everything, and no two of them have the same thing.
-/

open List

namespace Dealing

/-! ### By position -/

/-- The positions below `length` from `start` on, `step` apart. -/
def positions (start step length : ℕ) : List ℕ :=
  (range ((length - start + step - 1) / step)).map fun k => start + step * k

/-- The elements of a list at those positions. -/
def deal {α : Type} (start step : ℕ) (l : List α) : List α :=
  (positions start step l.length).filterMap fun p => l[p]?

section

variable {step : ℕ} {start length p : ℕ} {α : Type}

lemma mem_positions (hs : 0 < step) :
    p ∈ positions start step length ↔ p < length ∧ ∃ k, p = start + step * k := by
  simp only [positions, mem_map, mem_range]
  constructor
  · rintro ⟨k, hk, rfl⟩
    refine ⟨?_, k, rfl⟩
    have hle : step * (k + 1) ≤ length - start + step - 1 := by
      rw [mul_comm]
      exact (Nat.le_div_iff_mul_le hs).1 hk
    rw [mul_add, mul_one] at hle
    omega
  · rintro ⟨hp, k, rfl⟩
    refine ⟨k, ?_, rfl⟩
    apply (Nat.le_div_iff_mul_le hs).2
    rw [Nat.succ_mul, mul_comm]
    omega

/-- A position belongs to the party it leaves as a remainder. -/
lemma mem_positions_iff (h : start < step) :
    p ∈ positions start step length ↔ p < length ∧ p % step = start := by
  rw [mem_positions (by omega)]
  refine and_congr_right fun _ => ⟨?_, fun hp => ⟨p / step, ?_⟩⟩
  · rintro ⟨k, rfl⟩
    rw [Nat.add_mul_mod_self_left, Nat.mod_eq_of_lt h]
  · rw [← hp]
    exact (Nat.mod_add_div p step).symm

lemma nodup_positions (hs : 0 < step) (start length : ℕ) : (positions start step length).Nodup := by
  refine Nodup.map (fun j k hjk => ?_) nodup_range
  have hmul : step * j = step * k := Nat.add_left_cancel hjk
  exact Nat.eq_of_mul_eq_mul_left hs hmul

theorem positions_disjoint {i j : ℕ} (hi : i < step) (hj : j < step) (hij : i ≠ j) (length : ℕ) :
    List.Disjoint (positions i step length) (positions j step length) := by
  intro p hp hp'
  rw [mem_positions_iff hi] at hp
  rw [mem_positions_iff hj] at hp'
  exact hij (hp.2.symm.trans hp'.2)

theorem positions_perm (hs : 0 < step) (length : ℕ) :
    Perm ((range step).flatMap fun i => positions i step length) (range length) := by
  refine (perm_ext_iff_of_nodup ?_ nodup_range).2 fun p => ?_
  · refine nodup_flatMap.2 ⟨fun i _ => nodup_positions hs i length, ?_⟩
    refine List.Pairwise.imp_of_mem (fun hi hj hij => ?_) nodup_range
    exact positions_disjoint (mem_range.1 hi) (mem_range.1 hj) hij length
  · rw [mem_flatMap, mem_range]
    constructor
    · rintro ⟨i, hi, hp⟩
      exact ((mem_positions_iff (mem_range.1 hi)).1 hp).1
    · intro hp
      have hlt : p % step < step := Nat.mod_lt p hs
      exact ⟨p % step, mem_range.2 hlt, (mem_positions_iff hlt).2 ⟨hp, rfl⟩⟩

lemma filterMap_range (l : List α) :
    (range l.length).filterMap (fun p => l[p]?) = l := by
  have hmap : (range l.length).map (fun p => l[p]?) = l.map some := by
    refine ext_getElem (by simp) fun i _ _ => ?_
    simp
  calc (range l.length).filterMap (fun p => l[p]?)
      = ((range l.length).map fun p => l[p]?).filterMap id := by rw [filterMap_map]; rfl
    _ = l := by rw [hmap, filterMap_map]; exact filterMap_some

theorem deal_perm (hs : 0 < step) (l : List α) :
    Perm ((range step).flatMap fun i => deal i step l) l := by
  have hperm := (positions_perm hs l.length).filterMap fun p => l[p]?
  rw [filterMap_range, filterMap_flatMap] at hperm
  exact hperm

end

/-! ### In even parts -/

def evenPart (total n i : ℕ) : ℕ := total / n + if i < total % n then 1 else 0

variable {n : ℕ}

lemma evenPart_pos_iff {total i : ℕ} (hi : i < n) : 0 < evenPart total n i ↔ i < total := by
  unfold evenPart
  rcases lt_or_ge total n with hlt | hge
  · rw [Nat.div_eq_of_lt hlt, Nat.mod_eq_of_lt hlt, zero_add]
    split_ifs with h
    · exact ⟨fun _ => h, fun _ => Nat.one_pos⟩
    · exact ⟨fun h0 => absurd h0 (lt_irrefl 0), fun h' => absurd h' h⟩
  · have hdiv : 0 < total / n := Nat.div_pos hge (by omega)
    exact ⟨fun _ => by omega, fun _ => by omega⟩

lemma sum_below (m n : ℕ) (h : m ≤ n) :
    ((range n).map fun i => if i < m then 1 else 0).sum = m := by
  induction n with
  | zero => simp_all
  | succ n ih =>
    rw [sum_range_succ]
    by_cases hm : m ≤ n
    · rw [ih hm, if_neg (by omega), add_zero]
    · have hall : ((range n).map fun i => if i < m then 1 else 0) = replicate n 1 := by
        refine eq_replicate_iff.2 ⟨by simp, fun x hx => ?_⟩
        obtain ⟨i, hi, rfl⟩ := mem_map.1 hx
        rw [mem_range] at hi
        rw [if_pos (by omega)]
      rw [hall, sum_replicate, if_pos (by omega), smul_eq_mul]
      omega

theorem sum_evenPart (total : ℕ) (hn : 0 < n) :
    ((range n).map (evenPart total n)).sum = total := by
  have hmod : total % n ≤ n := (Nat.mod_lt total hn).le
  calc ((range n).map (evenPart total n)).sum
      = ((range n).map fun _ => total / n).sum +
        ((range n).map fun i => if i < total % n then 1 else 0).sum := by
        rw [← sum_map_add]
        rfl
    _ = n * (total / n) + total % n := by
        rw [sum_below _ _ hmod]
        simp
    _ = total := Nat.div_add_mod total n

theorem sum_evenPart_le (total : ℕ) (hn : 0 < n) {parties : List ℕ}
    (h : parties.Sublist (range n)) : (parties.map (evenPart total n)).sum ≤ total := by
  calc (parties.map (evenPart total n)).sum
      ≤ ((range n).map (evenPart total n)).sum :=
        (h.map _).sum_le_sum fun _ _ => Nat.zero_le _
    _ = total := sum_evenPart total hn

end Dealing
