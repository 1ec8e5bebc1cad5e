import Mathlib.Data.Nat.Digits.Defs
import Mathlib.Tactic

/-!
# Positional numerals

A number written with a fixed count of digits in some base, the highest first. It is read back up to
the size of what so many digits can hold, and it is the usual writing padded with zeros.
-/

open List

namespace Positional

/-- The last `w` digits of a number, the highest first. -/
def numeral (b : ℕ) : ℕ → ℕ → List ℕ
  | 0, _ => []
  | w + 1, n => numeral b w (n / b) ++ [n % b]

variable {b : ℕ}

@[simp] lemma length_numeral (b w n : ℕ) : (numeral b w n).length = w := by
  induction w generalizing n with
  | zero => rfl
  | succ w ih => simp [numeral, ih]

variable {n w m : ℕ}

lemma lt_of_mem_numeral (hb : 0 < b) {d : ℕ} (h : d ∈ numeral b w n) : d < b := by
  induction w generalizing n with
  | zero => cases h
  | succ w ih =>
    rw [numeral, mem_append, mem_singleton] at h
    rcases h with h | rfl
    · exact ih h
    · exact Nat.mod_lt _ hb

/-- Quotient and remainder are told from the number they make up. -/
lemma mul_add_inj {q q' r r' : ℕ} (hr : r < b) (hr' : r' < b)
    (h : q * b + r = q' * b + r') : q = q' ∧ r = r' := by
  have hmod : r = r' := by
    have := congrArg (· % b) h
    simpa [Nat.mul_add_mod', Nat.mod_eq_of_lt hr, Nat.mod_eq_of_lt hr'] using this
  subst hmod
  exact ⟨Nat.eq_of_mul_eq_mul_right (by omega) (Nat.add_right_cancel h), rfl⟩

lemma mod_mul_eq_iff {a c : ℕ} :
    m % (a * c) = n % (a * c) ↔ m % a = n % a ∧ m / a % c = n / a % c := by
  constructor
  · intro h
    rw [← Nat.mod_mul_right_mod m a c, ← Nat.mod_mul_right_div_self m a c, h, Nat.mod_mul_right_mod,
      Nat.mod_mul_right_div_self]
    exact ⟨rfl, rfl⟩
  · rintro ⟨hlow, hhigh⟩
    rw [Nat.mod_mul, Nat.mod_mul, hlow, hhigh]

/-- A numeral is read back, up to the numbers that have one. -/
lemma numeral_eq_iff : numeral b w m = numeral b w n ↔ m % b ^ w = n % b ^ w := by
  induction w generalizing m n with
  | zero => simp [numeral, Nat.mod_one]
  | succ w ih =>
    rw [pow_succ', mod_mul_eq_iff, ← ih, numeral, numeral]
    constructor
    · intro h
      obtain ⟨hrest, hlast⟩ := append_inj' h rfl
      exact ⟨singleton_inj.1 hlast, hrest⟩
    · rintro ⟨hlast, hrest⟩
      rw [hlast, hrest]

lemma numeral_mod (b w n : ℕ) : numeral b w (n % b ^ w) = numeral b w n :=
  numeral_eq_iff.2 (Nat.mod_mod n _)

lemma numeral_injOn (b w : ℕ) : Set.InjOn (numeral b w) (Set.Iio (b ^ w)) := by
  intro m hm n hn h
  have hmod := numeral_eq_iff.1 h
  rwa [Nat.mod_eq_of_lt hm, Nat.mod_eq_of_lt hn] at hmod

lemma numeral_eq_map (b w n : ℕ) :
    numeral b w n = (range w).map fun i => n / b ^ (w - 1 - i) % b := by
  induction w generalizing n with
  | zero => rfl
  | succ w ih =>
    rw [numeral, ih, range_succ, map_append, map_singleton]
    congr 1
    · refine map_congr_left fun i hi => ?_
      have hplace : w + 1 - 1 - i = (w - 1 - i) + 1 := by
        have := mem_range.1 hi
        omega
      rw [hplace, pow_succ', Nat.div_div_eq_div_mul]
    · simp

lemma leftpad_toDigits (hb : 1 < b) (hw : 0 < w) (hn : n < b ^ w) :
    (Nat.toDigits b n).leftpad w '0' = (numeral b w n).map Nat.digitChar := by
  induction w generalizing n with
  | zero => exact absurd hw (lt_irrefl 0)
  | succ w ih =>
    rw [numeral, map_append, map_singleton]
    rcases Nat.lt_or_ge n b with hlt | hge
    · -- one digit, and zeros in front of it
      have hzeros : ∀ k, (numeral b k 0).map Nat.digitChar = replicate k '0' := by
        intro k
        induction k with
        | zero => rfl
        | succ k ihk => simp [numeral, ihk, replicate_succ', Nat.digitChar]
      rw [Nat.toDigits_of_lt_base hlt, Nat.div_eq_of_lt hlt, Nat.mod_eq_of_lt hlt, hzeros]
      simp [leftpad]
    · have hdiv : n / b < b ^ w := by
        rw [Nat.div_lt_iff_lt_mul (by omega), ← pow_succ]
        exact hn
      have hw' : 0 < w := by
        rcases Nat.eq_zero_or_pos w with rfl | hpos
        · rw [zero_add, pow_one] at hn
          exact absurd hge (not_le.2 hn)
        · exact hpos
      rw [Nat.toDigits_of_base_le hb hge, ← ih hw' hdiv]
      simp [leftpad]

end Positional
