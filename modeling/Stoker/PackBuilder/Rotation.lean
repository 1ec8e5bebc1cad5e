import Mathlib.Data.Nat.Size
import Stoker.Numerals.Positional
import Stoker.Permuting.Feistel
import Stoker.PackBuilder.Format

/-!
# The rotation counter

`permute` and `rotate_ident` of `server/packbuilder/pseudonym.py`: the number of the identity that a
worker gives the `k`-th value of a format class on one of its passes, and the shuffle that spreads
these numbers over the format's space.
-/

namespace Stoker

open Permuting Positional

def mask64 : ℕ := 2 ^ 64 - 1

def mix64 (x : ℕ) : ℕ :=
  let x := x &&& mask64
  let x := ((x ^^^ (x >>> 30)) * 0xBF58476D1CE4E5B9) &&& mask64
  let x := ((x ^^^ (x >>> 27)) * 0x94D049BB133111EB) &&& mask64
  x ^^^ (x >>> 31)

/-- Half the bits of the next even power of two. -/
def halfBits (size : ℕ) : ℕ := ((size - 1).size + 1) / 2

/-- What a round mixes in, of so many bits. -/
def roundKey (half rnd right : ℕ) : ℕ :=
  mix64 ((right + rnd * 0x9E3779B9) &&& mask64) &&& (2 ^ half - 1)

def halves (half v : ℕ) : ℕ × ℕ := ((v >>> half) &&& (2 ^ half - 1), v &&& (2 ^ half - 1))

def joined (half : ℕ) (p : ℕ × ℕ) : ℕ := (p.1 <<< half) ||| p.2

/-- The four rounds of `permute`. -/
def feistelStep (half v : ℕ) : ℕ :=
  joined half (rounds (· ^^^ ·) ((List.range 4).map (roundKey half)) (halves half v))

/-- The walk of `permute` back into the space: where it ends, if it does within 64 steps. -/
def returned (x size : ℕ) : Option ℕ :=
  walk (feistelStep (halfBits size)) (fun v => v < size) 64 (x % size)

def permute (x size : ℕ) : ℕ := if size ≤ 1 then 0 else (returned x size).getD (x % size)

def rotateIdent (pass workers slot distinct k : ℕ) : ℕ :=
  (pass * max 1 workers + slot) * max 1 distinct + k

def passRotation (libs : Libs) (span : Text) (pass workers slot distinct k : ℕ)
    (widen : Option Format) : Option Text :=
  if span = [] then none
  else
    let normalised := libs.nfc span
    let fmt := standInFormat widen normalised
    if fmt.shape = .none then none
    else
      render fmt (permute (rotateIdent pass workers slot distinct k) (space fmt))
        (caseClass libs normalised)

/-! ### The shuffle -/

variable {size : ℕ}

lemma le_two_pow_halfBits (h : 1 ≤ size) : size ≤ 2 ^ (2 * halfBits size) := by
  have hsize : size - 1 < 2 ^ (size - 1).size := Nat.lt_size_self _
  have hpow : 2 ^ (size - 1).size ≤ 2 ^ (2 * halfBits size) :=
    Nat.pow_le_pow_right (by norm_num) (by unfold halfBits; omega)
  omega

lemma roundKey_lt (half rnd right : ℕ) : roundKey half rnd right < 2 ^ half := by
  rw [roundKey, Nat.and_two_pow_sub_one_eq_mod]
  exact Nat.mod_lt _ (by positivity)

def Halves (half : ℕ) : Set (ℕ × ℕ) := Set.Iio (2 ^ half) ×ˢ Set.Iio (2 ^ half)

lemma halves_eq (half v : ℕ) : halves half v = (v / 2 ^ half % 2 ^ half, v % 2 ^ half) := by
  rw [halves, Nat.shiftRight_eq_div_pow, Nat.and_two_pow_sub_one_eq_mod,
    Nat.and_two_pow_sub_one_eq_mod]

variable {half : ℕ} {p : ℕ × ℕ}

lemma joined_eq (h : p ∈ Halves half) : joined half p = p.1 * 2 ^ half + p.2 := by
  rw [joined, ← Nat.shiftLeft_add_eq_or_of_lt h.2, Nat.shiftLeft_eq]

lemma halves_mem (half v : ℕ) : halves half v ∈ Halves half := by
  rw [halves_eq]
  exact ⟨Nat.mod_lt _ (by positivity), Nat.mod_lt _ (by positivity)⟩

lemma joined_lt (h : p ∈ Halves half) : joined half p < 2 ^ (2 * half) := by
  have hfst : p.1 < 2 ^ half := h.1
  have hsnd : p.2 < 2 ^ half := h.2
  rw [joined_eq h, two_mul, pow_add]
  calc p.1 * 2 ^ half + p.2
    _ < p.1 * 2 ^ half + 2 ^ half := by omega
    _ = (p.1 + 1) * 2 ^ half := by ring
    _ ≤ 2 ^ half * 2 ^ half := Nat.mul_le_mul_right _ hfst

lemma halves_joined (h : p ∈ Halves half) : halves half (joined half p) = p := by
  have hfst : p.1 < 2 ^ half := h.1
  have hsnd : p.2 < 2 ^ half := h.2
  rw [halves_eq, joined_eq h, Nat.add_comm, Nat.add_mul_div_right _ _ (by positivity),
    Nat.div_eq_of_lt hsnd, Nat.zero_add, Nat.mod_eq_of_lt hfst, Nat.add_mul_mod_self_right,
    Nat.mod_eq_of_lt hsnd]

lemma joined_halves {v : ℕ} (h : v < 2 ^ (2 * half)) : joined half (halves half v) = v := by
  have hdiv : v / 2 ^ half < 2 ^ half := by
    rw [Nat.div_lt_iff_lt_mul (by positivity), ← pow_add, ← two_mul]
    exact h
  rw [joined_eq (halves_mem half v), halves_eq, Nat.mod_eq_of_lt hdiv]
  exact Nat.div_add_mod' v (2 ^ half)

lemma invOn_halves (half : ℕ) :
    Set.InvOn (joined half) (halves half) (Set.Iio (2 ^ (2 * half))) (Halves half) :=
  ⟨fun _ hv => joined_halves hv, fun _ hp => halves_joined hp⟩

/-- Each step permutes the numbers of so many bits. -/
lemma feistelStep_bijOn (half : ℕ) :
    Set.BijOn (feistelStep half) (Set.Iio (2 ^ (2 * half))) (Set.Iio (2 ^ (2 * half))) := by
  have hsplit : Set.BijOn (halves half) (Set.Iio (2 ^ (2 * half))) (Halves half) :=
    (invOn_halves half).bijOn (fun v _ => halves_mem half v) fun p hp => joined_lt hp
  have hjoin : Set.BijOn (joined half) (Halves half) (Set.Iio (2 ^ (2 * half))) :=
    (invOn_halves half).symm.bijOn (fun p hp => joined_lt hp) fun v _ => halves_mem half v
  have hrounds : Set.BijOn (rounds (· ^^^ ·) ((List.range 4).map (roundKey half)))
      (Halves half) (Halves half) := by
    refine rounds_bijOn (S := Set.Iio (2 ^ half)) (fun a b => ?_)
      (fun a ha b hb => ?_) fun f hf a _ => ?_
    · rw [Nat.xor_assoc, Nat.xor_self, Nat.xor_zero]
    · exact Nat.xor_lt_two_pow ha hb
    · obtain ⟨rnd, -, rfl⟩ := List.mem_map.1 hf
      exact roundKey_lt half rnd a
  refine (hjoin.comp (hrounds.comp hsplit)).congr fun v _ => ?_
  rw [feistelStep, Function.comp_apply, Function.comp_apply]

variable {x : ℕ}

lemma permute_eq (h : 2 ≤ size) : permute x size = (returned x size).getD (x % size) :=
  if_neg (by omega)

lemma returned_lt {z : ℕ} (h : returned x size = some z) : z < size :=
  of_decide_eq_true (walk_eq_some h).1

lemma permute_lt (h : 2 ≤ size) (x : ℕ) : permute x size < size := by
  rw [permute_eq h]
  cases hz : returned x size with
  | none => exact Nat.mod_lt x (by omega)
  | some z => exact returned_lt hz

lemma permute_injective {y : ℕ} (h : 2 ≤ size) (hx : x < size) (hy : y < size)
    (hrx : (returned x size).isSome) (hry : (returned y size).isSome)
    (heq : permute x size = permute y size) : x = y := by
  obtain ⟨z, hz⟩ := Option.isSome_iff_exists.1 hrx
  obtain ⟨z', hz'⟩ := Option.isSome_iff_exists.1 hry
  rw [permute_eq h, permute_eq h, hz, hz', Option.getD_some, Option.getD_some] at heq
  subst heq
  rw [returned, Nat.mod_eq_of_lt hx] at hz
  rw [returned, Nat.mod_eq_of_lt hy] at hz'
  have hbij := feistelStep_bijOn (halfBits size)
  have hdomain : size ≤ 2 ^ (2 * halfBits size) := le_two_pow_halfBits (by omega)
  exact walk_injective hbij.mapsTo hbij.injOn (Set.mem_Iio.2 (hx.trans_le hdomain))
    (Set.mem_Iio.2 (hy.trans_le hdomain)) (decide_eq_true hx) (decide_eq_true hy) hz hz'

/-! ### The counter -/

lemma rotateIdent_injective {workers distinct pass pass' slot slot' k k' : ℕ}
    (hslot : slot < workers) (hslot' : slot' < workers) (hk : k < distinct) (hk' : k' < distinct)
    (h : rotateIdent pass workers slot distinct k = rotateIdent pass' workers slot' distinct k') :
    (pass, slot, k) = (pass', slot', k') := by
  obtain ⟨hturn, rfl⟩ := mul_add_inj (lt_max_of_lt_right hk) (lt_max_of_lt_right hk') h
  obtain ⟨rfl, rfl⟩ := mul_add_inj (lt_max_of_lt_right hslot) (lt_max_of_lt_right hslot') hturn
  rfl

/-- The shuffle of the rotation counter loses nothing. Each of its steps permutes a power of two
that the space fits in, it stays in the space, and it keeps apart what its walks bring back in time;
the counters it starts from are different for every pass, worker and value of a class. So as long as
the counters fit into the space, no two of them are the same identity. -/
theorem rotation_loses_nothing {size : ℕ} (hsize : 2 ≤ size) :
    (size ≤ 2 ^ (2 * halfBits size) ∧
      Set.BijOn (feistelStep (halfBits size)) (Set.Iio (2 ^ (2 * halfBits size)))
        (Set.Iio (2 ^ (2 * halfBits size)))) ∧
    (∀ x, permute x size < size) ∧
    (∀ x y, x < size → y < size → (returned x size).isSome → (returned y size).isSome → x ≠ y →
      permute x size ≠ permute y size) ∧
    ∀ workers distinct pass pass' slot slot' k k', slot < workers → slot' < workers → k < distinct →
      k' < distinct → (pass, slot, k) ≠ (pass', slot', k') →
      let x := rotateIdent pass workers slot distinct k
      let y := rotateIdent pass' workers slot' distinct k'
      x ≠ y ∧ (x < size → y < size → (returned x size).isSome → (returned y size).isSome →
        permute x size ≠ permute y size) := by
  refine ⟨⟨le_two_pow_halfBits (by omega), feistelStep_bijOn _⟩, permute_lt hsize, ?_, ?_⟩
  · exact fun x y hx hy hrx hry hne heq => hne (permute_injective hsize hx hy hrx hry heq)
  · intro workers distinct pass pass' slot slot' k k' hslot hslot' hk hk' hne x y
    have hxy : x ≠ y := fun heq => hne (rotateIdent_injective hslot hslot' hk hk' heq)
    exact ⟨hxy, fun hx hy hrx hry heq => hxy (permute_injective hsize hx hy hrx hry heq)⟩

/-- Identities of six digits, on the second and the third pass of two workers. -/
theorem rotation_loses_nothing_six_digits :
    permute (rotateIdent 1 2 0 7 3) 900000 ≠ permute (rotateIdent 2 2 1 7 0) 900000 :=
  ((rotation_loses_nothing (by decide)).2.2.2 2 7 1 2 0 1 3 0 (by decide) (by decide) (by decide)
    (by decide) (by decide)).2 (by decide) (by decide) (by decide +kernel) (by decide +kernel)

end Stoker
