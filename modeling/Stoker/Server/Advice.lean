import Stoker.Numerals.Rounding
import Stoker.Server.Launch

/-!
# The advice of the ceiling gate

A launch whose share for each worker exceeds a ceiling is refused with a number of workers to use
instead. The gate as a function of the worker count is a threshold (`ceilingGate_eq_none_iff`): for
each bound, the total rate over the bound, rounded up, and of these the larger. The number in the
advice is worked out from the share of one worker, and from the bound that was found exceeded first.
So it is the threshold for one worker, if the first bound that is exceeded asks for the most
workers, and otherwise less.

The share is worked out in floating point, with what is missing from the total folded into the last
one. This decides the gate as exact numbers would unless the total is within a small distance of a
whole number of workers at the bound.
-/

namespace Stoker

open Rounding

def Bounds.of (b : Bounds) : LimitingFactor → Option ℚ
  | .eps => b.maxEps
  | .gbDay => b.maxGbDay

/-! ### The gate -/

/-- The bound that the check of a mode looks at first. -/
def firstFactor (mode : RateMode) : LimitingFactor := if mode = .perDayGb then .gbDay else .eps

def secondFactor (mode : RateMode) : LimitingFactor := if mode = .perDayGb then .eps else .gbDay

section

variable (R : Rounding)

/-- `_per_worker_share`: the largest of the shares of `apportion_shares`, which are all the same but
for the last one (`_fix_float_residue`). -/
def roundedShare (rate : ℚ) (n : ℕ) : ℚ :=
  let share := R.fl (rate * R.fl (1 / n))
  let last := R.fl (share + R.fl (rate - R.fl (n * share)))
  if n = 1 then last else max share last

/-- A share in the unit of a bound, with `eps_to_gb_day` and `gb_day_to_eps`. -/
def roundedIn (mode : RateMode) (share : ℚ) (bytesPerEvent : Option ℚ) : LimitingFactor → Option ℚ
  | .eps =>
    if mode = .perDayGb then
      (positive bytesPerEvent).map fun b => R.fl (R.fl (R.fl (share * 1000000000) / b) / 86400)
    else some share
  | .gbDay =>
    if mode = .perDayGb then some share
    else (positive bytesPerEvent).map fun b => R.fl (R.fl (R.fl (share * b) * 86400) / 1000000000)

/-- `_exceeded`, where the value is above the bound. -/
def roundedExceeds (factor : LimitingFactor) (value bound : Option ℚ) : Option Exceeded :=
  match value, bound with
  | some v, some b => if b < v then some ⟨max 2 ⌈R.fl (v / b)⌉, factor⟩ else none
  | _, _ => none

/-- The ceiling gate of `run_spec` for a spec with a number of workers: `check_slice` of the share
of a worker. -/
def ceilingGate (spec : Snapshot) (settings : CapSettings) (world : LaunchWorld) (workers : ℕ) :
    Option Exceeded :=
  match spec.rateMode.paced, positive spec.rateValue,
      resolveCeilings spec.engine settings world.fleet world.impl with
  | true, some rate, some b =>
    let share := roundedShare R rate (max 1 workers)
    let check := fun factor =>
      roundedExceeds R factor (roundedIn R spec.rateMode share world.checkedBytes factor)
        (b.of factor)
    if share ≤ 0 then none
    else (check (firstFactor spec.rateMode)).or (check (secondFactor spec.rateMode))
  | _, _, _ => none

end

lemma roundedShare_exact (rate : ℚ) {n : ℕ} (hn : 0 < n) :
    roundedShare .exact rate n = rate / n := by
  have hq : (n : ℚ) ≠ 0 := Nat.cast_ne_zero.2 hn.ne'
  have hshare : rate * (1 / n) = rate / n := mul_one_div rate _
  have hlast : rate / n + (rate - n * (rate / n)) = rate / n := by
    rw [mul_div_cancel₀ rate hq, sub_self, add_zero]
  simp only [roundedShare, Rounding.exact, id_eq, hshare, hlast, max_self, ite_self]

/-- Without rounding the gate is the check of the exact share. -/
lemma ceilingGate_exact (spec : Snapshot) (settings : CapSettings) (world : LaunchWorld)
    (workers : ℕ) :
    ceilingGate .exact spec settings world workers =
      checkSlice spec.rateMode (perWorkerShare spec.rateMode spec.rateValue workers)
        world.checkedBytes (resolveCeilings spec.engine settings world.fleet world.impl) := by
  unfold ceilingGate checkSlice
  cases hrate : positive spec.rateValue with
  | none =>
    have hnone : perWorkerShare spec.rateMode spec.rateValue workers = none := by
      cases spec.rateMode <;> simp [perWorkerShare, hrate]
    rw [hnone]
    cases spec.rateMode.paced <;> cases resolveCeilings .. <;> rfl
  | some rate =>
    obtain ⟨hvalue, hpos⟩ := Option.filter_eq_some_iff.1 hrate
    have hpos : 0 < rate := of_decide_eq_true hpos
    cases hmode : spec.rateMode with
    | countInterval => cases resolveCeilings .. <;> rfl
    | eps | perDayGb =>
      rw [hvalue, perWorkerShare_eq rfl hpos]
      cases resolveCeilings spec.engine settings world.fleet world.impl with
      | none => rfl
      | some b =>
        dsimp only [RateMode.paced]
        rw [roundedShare_exact rate (by omega)]
        rfl

/-- The gate passes with the number of workers in the advice and with no smaller one. -/
def AdviceWorks (gate : ℕ → Option Exceeded) (suggested : ℤ) : Prop :=
  gate suggested.toNat = none ∧ ∀ n : ℕ, n < suggested → gate n ≠ none

/-! ### Resolved bounds are positive -/

def Bounds.Positive (b : Bounds) : Prop := ∀ factor, ∀ bound ∈ b.of factor, 0 < bound

lemma normaliseBound_pos {value bound : ℚ} (h : bound ∈ normaliseBound value) : 0 < bound := by
  unfold normaliseBound at h
  split_ifs at h with hpos
  · rw [Option.mem_some_iff] at h
    rwa [← h]
  · cases h

lemma Bounds.Positive.set {b : Bounds} (h : b.Positive) (key : CeilingKey) (value : ℚ) :
    (b.set key (normaliseBound value)).Positive := by
  intro factor bound hb
  cases key <;> cases factor
  · exact h .eps bound hb
  · exact normaliseBound_pos hb
  · exact normaliseBound_pos hb
  · exact h .gbDay bound hb

lemma Bounds.Positive.layer {b : Bounds} (h : b.Positive) (key : CeilingKey) (value : Option ℚ) :
    (b.layer key value).Positive := by
  cases value with
  | none => exact h
  | some v => exact h.set key v

variable {impl : Option EngineImpl} {engine : Engine}

lemma builtInCeilings_positive {b : Bounds} (h : builtInCeilings engine impl = some b) :
    b.Positive := by
  have htable : b = ⟨some 25, some 5000⟩ ∨ b = ⟨some 250, some 10000⟩ := by
    cases engine with
    | eventgen =>
      simp only [builtInCeilings] at h
      split_ifs at h
      · exact .inl (Option.some.inj h).symm
      · exact .inr (Option.some.inj h).symm
    | rawreplay => exact .inl (Option.some.inj h).symm
    | metrics => cases h
  intro factor bound hb
  rcases htable with rfl | rfl <;> cases factor <;> cases hb <;> norm_num

lemma resolveCeilings_positive {settings : CapSettings} {fleet : Option FleetCaps} {b : Bounds}
    (h : resolveCeilings engine settings fleet impl = some b) : b.Positive := by
  obtain ⟨table, ht, rfl⟩ := Option.map_eq_some_iff.1 h
  have henv :=
    ((builtInCeilings_positive ht).layer .maxGbDayPerWorker settings.maxGbDayPerWorker).layer
    .maxEpsPerWorker settings.maxEpsPerWorker
  have hfold : ∀ (entries : List (Engine × CeilingKey × ℚ)) (b : Bounds), b.Positive →
      (entries.foldl (fun b entry => b.set entry.2.1 (normaliseBound entry.2.2)) b).Positive := by
    intro entries
    induction entries with
    | nil => exact fun b hb => hb
    | cons entry entries ih => exact fun b hb => ih _ (hb.set entry.2.1 entry.2.2)
  have hengine := hfold (settings.perEngineCeilings.filter (·.1 = engine)) _ henv
  cases fleet with
  | none => exact hengine
  | some caps => exact (hengine.layer _ _).layer _ _

/-! ### The threshold -/

def inUnit (mode : RateMode) (rate : ℚ) (bytesPerEvent : Option ℚ) : LimitingFactor → Option ℚ
  | .eps => if mode = .perDayGb then gbDayToEps rate bytesPerEvent else some rate
  | .gbDay => if mode = .perDayGb then some rate else epsToGbDay rate bytesPerEvent

/-- The total rate over a bound. -/
def loadOn (spec : Snapshot) (world : LaunchWorld) (rate : ℚ) (b : Bounds)
    (factor : LimitingFactor) : Option ℚ :=
  match inUnit spec.rateMode rate world.checkedBytes factor, b.of factor with
  | some value, some bound => some (value / bound)
  | _, _ => none

/-- How many workers a bound asks for. -/
def workersFor (load : Option ℚ) : ℤ := ⌈load.getD 0⌉

/-- What a check of a bound with `n` workers says, in exact numbers. -/
def exactCheck (load : Option ℚ) (n : ℕ) (factor : LimitingFactor) : Option Exceeded :=
  load.bind fun ratio => if (n : ℚ) < ratio then some ⟨max 2 ⌈ratio / n⌉, factor⟩ else none

section

variable {R : Rounding} {spec : Snapshot} {settings : CapSettings} {world : LaunchWorld} {rate : ℚ}
  {b : Bounds} {n : ℕ}

lemma near_roundedShare (R : Rounding) (hrate : 0 < rate) (hn : 0 < n) (hle : n ≤ 2 ^ 20) :
    Near (12 * n + 6) (roundedShare R rate n) (rate / n) := by
  have hq : (0 : ℚ) < n := Nat.cast_pos.2 hn
  have hpart : 0 ≤ rate / n := (div_pos hrate hq).le
  have hinv : Near 2 (R.fl (1 / n)) (1 / n) := (Near.refl _).fl R (by positivity) (by norm_num)
  have hshare : Near 4 (R.fl (rate * R.fl (1 / n))) (rate / n) := by
    have hmul := hinv.mul hrate.le
    rw [mul_comm, one_div_mul_eq_div] at hmul
    exact hmul.fl R hpart (by norm_num)
  unfold roundedShare
  set share := R.fl (rate * R.fl (1 / n))
  have hsum : Near 6 (R.fl (n * share)) rate := by
    have hmul := hshare.mul hq.le
    rw [mul_comm, div_mul_cancel₀ _ hq.ne'] at hmul
    exact hmul.fl R hrate.le (by norm_num)
  -- what is missing from the total is small against the total, if not against one share
  have hlast : Near (12 * n + 4) (share + R.fl (rate - R.fl (n * share))) (rate / n) := by
    have hclose := abs_le.1 (R.close (rate - R.fl (n * share)))
    have hmissing := abs_le.1 hsum
    have hsize : |rate - R.fl (n * share)| ≤ 6 * (rate / 2 ^ 53) := by
      rw [abs_sub_comm]
      exact hsum
    have hoff := abs_le.1 hshare
    have hunits : ((12 * n + 4 : ℕ) : ℚ) * (rate / n / 2 ^ 53) =
        12 * (rate / 2 ^ 53) + 4 * (rate / n / 2 ^ 53) := by
      push_cast
      field_simp
    rw [Near, hunits, abs_le]
    push_cast at hoff hmissing
    constructor <;> linarith
  have hrounded : Near (12 * n + 6) (R.fl (share + R.fl (rate - R.fl (n * share)))) (rate / n) :=
    hlast.fl R hpart (by omega)
  dsimp only
  split_ifs
  · exact hrounded
  · rcases max_choice share (R.fl (share + R.fl (rate - R.fl (n * share)))) with hmax | hmax
    · rw [hmax]
      exact hshare.mono hpart (by omega)
    · rw [hmax]
      exact hrounded

/-- Three more operations change the unit. -/
lemma near_roundedIn {mode : RateMode} {bytesPerEvent : Option ℚ} {k : ℕ} {share : ℚ}
    (h : Near k share (rate / n)) (hrate : 0 < rate)
    (hk : k + 6 ≤ 2 ^ 26) (factor : LimitingFactor) :
    Option.Rel (fun v value => 0 < value ∧ Near (k + 6) v (value / n))
      (roundedIn R mode share bytesPerEvent factor) (inUnit mode rate bytesPerEvent factor) := by
  have hsame : 0 < rate ∧ Near (k + 6) share (rate / n) :=
    ⟨hrate, h.mono (by positivity) (by omega)⟩
  cases hbytes : positive bytesPerEvent with
  | none =>
    cases factor <;> simp only [roundedIn, inUnit, gbDayToEps, epsToGbDay, hbytes] <;> split_ifs
    · exact .none
    · exact .some hsame
    · exact .some hsame
    · exact .none
  | some bytes =>
    have hpos : 0 < bytes := by simpa using (Option.filter_eq_some_iff.1 hbytes).2
    cases factor <;> simp only [roundedIn, inUnit, gbDayToEps, epsToGbDay, hbytes] <;> split_ifs
    · have heps :=
          ((((h.mul (by norm_num : (0 : ℚ) ≤ 1000000000)).fl R (by positivity) (by omega)).div
        hpos.le).fl R (by positivity) (by omega)).div (by norm_num : (0 : ℚ) ≤ 86400)
      refine .some ⟨by positivity, ?_⟩
      convert heps.fl R (by positivity) (by omega) using 1
      ring
    · exact .some hsame
    · exact .some hsame
    · have hgb := ((((h.mul hpos.le).fl R (by positivity) (by omega)).mul
        (by norm_num : (0 : ℚ) ≤ 86400)).fl R (by positivity) (by omega)).div
          (by norm_num : (0 : ℚ) ≤ 1000000000)
      refine .some ⟨by positivity, ?_⟩
      convert hgb.fl R (by positivity) (by omega) using 1
      ring

variable {e : Exceeded} {factor : LimitingFactor} {load : Option ℚ} {workers : ℕ}

/-- Where the load of a bound is clear of whole numbers, the check is decided as with exact
numbers. -/
lemma roundedExceeds_eq (hb : b.Positive) (hrate : 0 < rate) (hn : 0 < n) (hle : n ≤ 2 ^ 20)
    (hclear : ∀ ratio ∈ loadOn spec world rate b factor, Clear ratio) :
    roundedExceeds R factor
        (roundedIn R spec.rateMode (roundedShare R rate n) world.checkedBytes factor)
          (b.of factor) =
      exactCheck (loadOn spec world rate b factor) n factor := by
  have hnear : Option.Rel _ (roundedIn R spec.rateMode _ world.checkedBytes factor) _ :=
    near_roundedIn (near_roundedShare R hrate hn hle) hrate (by omega) factor
  unfold loadOn at hclear ⊢
  generalize roundedIn R spec.rateMode (roundedShare R rate n) world.checkedBytes factor =
    v at hnear ⊢
  generalize inUnit spec.rateMode rate world.checkedBytes factor = value at hnear hclear ⊢
  cases hnear with
  | none => rfl
  | @some v value hvalue =>
    cases hbound : b.of factor with
    | none => rfl
    | some bound =>
      obtain ⟨hpos, hv⟩ := hvalue
      have hbpos : 0 < bound := hb factor bound hbound
      have hclear : Clear (value / bound) := hclear _ (by rw [hbound]; rfl)
      have hload : 0 < value / bound := div_pos hpos hbpos
      have hquot := hv.div hbpos.le
      rw [div_right_comm] at hquot
      have hover := hclear.part_le_iff hload hn hquot (by omega) 1
      rw [Nat.cast_one, div_le_one hbpos, div_le_one (Nat.cast_pos.2 hn)] at hover
      have hceil := hclear.ceil_part_eq hload hn (hquot.fl R (by positivity) (by omega)) (by omega)
      simp only [roundedExceeds, exactCheck, Option.bind_some, hceil, ← not_le, hover]

lemma exactCheck_eq_none_iff (factor : LimitingFactor) :
    exactCheck load n factor = none ↔ workersFor load ≤ n := by
  cases load with
  | none => simp [exactCheck, workersFor]
  | some ratio => simp [exactCheck, workersFor, Int.ceil_le]

lemma exactCheck_eq_some (h : exactCheck load n factor = some e) :
    ∃ ratio : ℚ, load = some ratio ∧ (n : ℚ) < ratio ∧ e.suggestedWorkers = max 2 ⌈ratio / n⌉ := by
  obtain ⟨ratio, hload, hratio⟩ := Option.bind_eq_some_iff.1 h
  split_ifs at hratio with hlt
  cases hratio
  exact ⟨ratio, hload, hlt, rfl⟩

/-- The loads of both bounds are clear of whole numbers, and ask for a million workers at most. -/
def ClearLoads (spec : Snapshot) (world : LaunchWorld) (rate : ℚ) (b : Bounds) : Prop :=
  ∀ factor, ∀ ratio ∈ loadOn spec world rate b factor, Clear ratio ∧ ratio ≤ 2 ^ 20

/-- How many workers the bound asks for that is looked at first. -/
def firstNeed (spec : Snapshot) (world : LaunchWorld) (rate : ℚ) (b : Bounds) : ℤ :=
  workersFor (loadOn spec world rate b (firstFactor spec.rateMode))

def secondNeed (spec : Snapshot) (world : LaunchWorld) (rate : ℚ) (b : Bounds) : ℤ :=
  workersFor (loadOn spec world rate b (secondFactor spec.rateMode))

/-- Only a paced run with a positive rate is refused. -/
lemma ceilingGate_eq_some (h : ceilingGate R spec settings world workers = some e) :
    spec.rateMode.paced = true ∧ ∃ rate, spec.rateValue = some rate ∧ 0 < rate := by
  unfold ceilingGate at h
  split at h
  · rename_i rate b hpaced hrate _
    obtain ⟨hrate, hpos⟩ := Option.filter_eq_some_iff.1 hrate
    exact ⟨hpaced, rate, hrate, by simpa using hpos⟩
  · cases h

section Paced

variable (hm : spec.rateMode.paced = true) (hrate : spec.rateValue = some rate) (hpos : 0 < rate)
  (hb : resolveCeilings spec.engine settings world.fleet world.impl = some b)
  (hclear : ClearLoads spec world rate b)

include hm hrate hpos hb hclear

lemma ceilingGate_eq (hn : n ≤ 2 ^ 20) :
    ceilingGate R spec settings world n =
      (exactCheck (loadOn spec world rate b (firstFactor spec.rateMode)) (max 1 n)
        (firstFactor spec.rateMode)).or
      (exactCheck (loadOn spec world rate b (secondFactor spec.rateMode)) (max 1 n)
        (secondFactor spec.rateMode)) := by
  have hbounds := resolveCeilings_positive hb
  have hone : 0 < max 1 n := by omega
  have hmany : max 1 n ≤ 2 ^ 20 := by omega
  have hshare : ¬ roundedShare R rate (max 1 n) ≤ 0 :=
    ((near_roundedShare R hpos hone hmany).pos (by positivity) (by omega)).not_ge
  unfold ceilingGate
  rw [hm, hrate, positive_some hpos, hb]
  dsimp only
  rw [if_neg hshare, roundedExceeds_eq hbounds hpos hone hmany fun r hr => (hclear _ r hr).1,
    roundedExceeds_eq hbounds hpos hone hmany fun r hr => (hclear _ r hr).1]

theorem ceilingGate_eq_none_iff (hn : n ≤ 2 ^ 20) :
    ceilingGate R spec settings world n = none ↔
      max (firstNeed spec world rate b) (secondNeed spec world rate b) ≤ (max 1 n : ℕ) := by
  rw [ceilingGate_eq hm hrate hpos hb hclear hn, Option.or_eq_none_iff, exactCheck_eq_none_iff,
    exactCheck_eq_none_iff, max_le_iff]
  rfl

/-- The bound that is reported is the first one that asks for more workers than there are. -/
lemma ceilingGate_reports {workers : ℕ} (hn : workers ≤ 2 ^ 20) {e : Exceeded}
    (h : ceilingGate R spec settings world workers = some e) :
    ∃ ratio : ℚ, (max 1 workers : ℕ) < ratio ∧ ratio ≤ 2 ^ 20 ∧
      e.suggestedWorkers = max 2 ⌈ratio / (max 1 workers : ℕ)⌉ ∧
      ⌈ratio⌉ = if firstNeed spec world rate b ≤ (max 1 workers : ℕ)
        then secondNeed spec world rate b
        else firstNeed spec world rate b := by
  rw [ceilingGate_eq hm hrate hpos hb hclear hn, Option.or_eq_some_iff] at h
  rcases h with h | ⟨hnone, h⟩
  · obtain ⟨ratio, hload, hlt, hadvice⟩ := exactCheck_eq_some h
    have hneed : firstNeed spec world rate b = ⌈ratio⌉ := by rw [firstNeed, hload, workersFor]; rfl
    refine ⟨ratio, hlt, (hclear _ ratio hload).2, hadvice, ?_⟩
    rw [hneed, if_neg]
    exact not_le.2 (Int.lt_ceil.2 (by exact_mod_cast hlt))
  · obtain ⟨ratio, hload, hlt, hadvice⟩ := exactCheck_eq_some h
    refine ⟨ratio, hlt, (hclear _ ratio hload).2, hadvice, ?_⟩
    have hfirst : firstNeed spec world rate b ≤ _ := (exactCheck_eq_none_iff _).1 hnone
    rw [if_pos hfirst, secondNeed, hload, workersFor]
    rfl

/-- The advice is right exactly where it is the needed number of workers. -/
lemma adviceWorks_iff {k : ℤ} (hk : 2 ≤ k) (hle : k ≤ 2 ^ 20) :
    AdviceWorks (ceilingGate R spec settings world) k ↔
      k = max (firstNeed spec world rate b) (secondNeed spec world rate b) := by
  have hgate : ∀ n : ℕ, n ≤ k → (ceilingGate R spec settings world n = none ↔ _) :=
    fun n hn => ceilingGate_eq_none_iff hm hrate hpos hb hclear (by omega)
  constructor
  · rintro ⟨hpass, hfewer⟩
    rw [hgate _ (by omega)] at hpass
    have hlast := hfewer (k - 1).toNat (by omega)
    rw [Ne, hgate _ (by omega)] at hlast
    omega
  · intro heq
    constructor
    · rw [hgate _ (by omega)]
      omega
    · intro n hn
      rw [Ne, hgate _ (by omega)]
      omega

end Paced

/-- A share of a share of two or more workers asks for too few. -/
lemma suggested_lt {ratio : ℚ} {n : ℕ} (hn : 2 ≤ n) (h : (n : ℚ) < ratio) :
    max 2 ⌈ratio / n⌉ < ⌈ratio⌉ := by
  have htwo : (2 : ℚ) ≤ n := by exact_mod_cast hn
  apply max_lt
  · exact Int.lt_ceil.2 (by push_cast; linarith)
  · have hhalf : ratio / n ≤ ratio / 2 := div_le_div_of_nonneg_left (by linarith) (by norm_num) htwo
    have hceil := Int.ceil_lt_add_one (ratio / n)
    exact Int.lt_ceil.2 (by linarith)

end

end Stoker
