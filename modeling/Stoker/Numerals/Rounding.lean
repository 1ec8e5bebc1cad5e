import Mathlib.Algebra.Order.Round
import Mathlib.Tactic

/-!
# Rounded numbers

A computation whose every operation is rounded to 53 binary digits (the exponent is not bounded).
The error relative to the exact result grows by two units of the last place with every operation,
and a comparison with a whole number comes out as the exact one would, if the exact result keeps
clear of that number.
-/

structure Rounding where
  fl : ℚ → ℚ
  close : ∀ x, |fl x - x| ≤ |x| / 2 ^ 53

namespace Rounding

def exact : Rounding := ⟨id, fun x => by simpa using (by positivity : (0 : ℚ) ≤ |x| / 2 ^ 53)⟩

/-- A number that is off by at most so many units relative to another. -/
def Near (k : ℕ) (y x : ℚ) : Prop := |y - x| ≤ k * (x / 2 ^ 53)

section

variable {k : ℕ} {x y : ℚ}

lemma Near.refl (x : ℚ) : Near 0 x x := by simp [Near]

lemma Near.mono (h : Near k y x) {l : ℕ} (hx : 0 ≤ x) (hkl : k ≤ l) : Near l y x :=
  h.trans (mul_le_mul_of_nonneg_right (Nat.cast_le.2 hkl) (by positivity))

variable {c : ℚ}

lemma Near.mul (h : Near k y x) (hc : 0 ≤ c) : Near k (y * c) (x * c) := by
  unfold Near at h ⊢
  rw [← sub_mul, abs_mul, abs_of_nonneg hc, mul_div_right_comm, ← mul_assoc]
  exact mul_le_mul_of_nonneg_right h hc

lemma Near.div (h : Near k y x) (hc : 0 ≤ c) : Near k (y / c) (x / c) := by
  rw [div_eq_mul_inv, div_eq_mul_inv]
  exact h.mul (inv_nonneg.2 hc)

/-- What is off by few units is less than the number itself. -/
lemma units_le (hx : 0 ≤ x) (hk : k ≤ 2 ^ 26) : k * (x / 2 ^ 53) ≤ x / 2 ^ 27 := by
  have hcast : (k : ℚ) ≤ 2 ^ 26 := by exact_mod_cast hk
  calc k * (x / 2 ^ 53) ≤ 2 ^ 26 * (x / 2 ^ 53) := mul_le_mul_of_nonneg_right hcast (by positivity)
    _ = x / 2 ^ 27 := by ring

lemma Near.fl (R : Rounding) (h : Near k y x) (hx : 0 ≤ x) (hk : k ≤ 2 ^ 26) :
    Near (k + 2) (R.fl y) x := by
  have hunits := units_le hx hk
  have hclose := abs_le.1 (R.close y)
  unfold Near at h ⊢
  have hoff := abs_le.1 h
  have hsize : |y| ≤ 2 * x := abs_le.2 ⟨by linarith, by linarith⟩
  rw [abs_le]
  push_cast
  constructor <;> linarith

lemma Near.pos (h : Near k y x) (hx : 0 < x) (hk : k ≤ 2 ^ 26) : 0 < y := by
  have hunits := units_le hx.le hk
  have hoff := abs_le.1 h
  linarith

/-- A number that keeps clear of a whole one is told from it after rounding. -/
lemma Near.le_iff (h : Near k y x) (hx : 0 ≤ x) (hk : k ≤ 2 ^ 26) {m : ℕ}
    (hclear : (m : ℚ) / 2 ^ 26 < |x - m|) : y ≤ m ↔ x ≤ m := by
  have hunits := units_le hx hk
  have hoff := abs_le.1 h
  have hm : (0 : ℚ) ≤ m := Nat.cast_nonneg m
  rcases le_or_gt x m with hle | hgt
  · rw [abs_of_nonpos (by linarith)] at hclear
    exact iff_of_true (by linarith) hle
  · rw [abs_of_pos (by linarith)] at hclear
    exact iff_of_false (not_le.2 (by linarith)) (not_le.2 hgt)

end

/-- A ratio that keeps clear of all whole numbers. -/
def Clear (ratio : ℚ) : Prop := ∀ m : ℕ, 0 < m → (m : ℚ) / 2 ^ 26 < |ratio - m|

section

variable {ratio y : ℚ} {k n : ℕ} (h : Clear ratio) (hpos : 0 < ratio) (hn : 0 < n)
  (hy : Near k y (ratio / n)) (hk : k ≤ 2 ^ 26)

include h hpos hn hy hk

/-- A part of such a ratio is told from every whole number after rounding. -/
lemma Clear.part_le_iff (m : ℕ) : y ≤ m ↔ ratio / n ≤ m := by
  have hq : (0 : ℚ) < n := Nat.cast_pos.2 hn
  have hpart : 0 < ratio / n := div_pos hpos hq
  refine hy.le_iff hpart.le hk ?_
  rcases Nat.eq_zero_or_pos m with rfl | hm
  · simpa using hpart.ne'
  · have hclear := h (n * m) (Nat.mul_pos hn hm)
    have hwhole : ratio - (n * m : ℕ) = n * (ratio / n - m) := by
      push_cast
      field_simp
    rw [hwhole, abs_mul, abs_of_pos hq, Nat.cast_mul, mul_div_assoc] at hclear
    exact lt_of_mul_lt_mul_left hclear hq.le

lemma Clear.ceil_part_eq : ⌈y⌉ = ⌈ratio / n⌉ := by
  have hiff := h.part_le_iff hpos hn hy hk
  have hq : (0 : ℚ) < n := Nat.cast_pos.2 hn
  have hceil : 0 < ⌈ratio / n⌉ := Int.ceil_pos.2 (div_pos hpos hq)
  obtain ⟨c, hc⟩ := Int.eq_ofNat_of_zero_le (by omega : 0 ≤ ⌈ratio / n⌉ - 1)
  have hc' : ⌈ratio / n⌉ = (c + 1 : ℕ) := by omega
  obtain ⟨hlow, hhigh⟩ := Int.ceil_eq_iff.1 hc'
  rw [hc', Int.ceil_eq_iff]
  push_cast at hlow hhigh ⊢
  refine ⟨?_, ?_⟩
  · rw [add_sub_cancel_right] at hlow ⊢
    exact lt_of_not_ge fun hle => absurd ((hiff c).1 hle) (not_le.2 hlow)
  · exact_mod_cast (hiff (c + 1)).2 (by exact_mod_cast hhigh)

end

end Rounding
