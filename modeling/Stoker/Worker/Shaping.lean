import Stoker.Worker.ConfRewrite

/-!
# The time-of-day curve of a run

`worker/stoker_agent/shaping.py`. A pack may declare how its rate moves with the hour, the weekday,
the minute, the day of the month and the month. A shaped eps run follows the product of these maps,
divided by its mean: the engine is rewritten to produce the curve's peak, and the token bucket of
the agent is aimed at the rate of the moment.

The clock of the machine (`time.localtime`) and the JSON of the maps are taken from outside; the
factors are exact, and finite: a map with an infinite one, which JSON can hold, is not modelled.
-/

open List

namespace Stoker

/-! ### Maps -/

/-- The maps that a pack can declare. -/
inductive RateMap where
  | hourOfDay
  | dayOfWeek
  | minuteOfHour
  | dayOfMonth
  | monthOfYear
  deriving DecidableEq

/-- What a shaped run reads off `time.localtime`. -/
structure LocalTime where
  hour : Fin 24
  minute : Fin 60
  weekday : Fin 7
  monthDay : {d : ℕ // 1 ≤ d ∧ d ≤ 31}
  month : {m : ℕ // 1 ≤ m ∧ m ≤ 12}

namespace RateMap

def all : List RateMap := [hourOfDay, dayOfWeek, minuteOfHour, dayOfMonth, monthOfYear]

lemma mem_all (n : RateMap) : n ∈ all.toFinset := by cases n <;> decide

instance : Fintype RateMap := ⟨all.toFinset, mem_all⟩

/-- The option of a conf that holds the map. -/
def key : RateMap → Text
  | hourOfDay => "hourOfDayRate"
  | dayOfWeek => "dayOfWeekRate"
  | minuteOfHour => "minuteOfHourRate"
  | dayOfMonth => "dayOfMonthRate"
  | monthOfYear => "monthOfYearRate"

def keys (first count : ℕ) : Finset ℤ := (Finset.range count).image fun i => ((first + i : ℕ) : ℤ)

def domain : RateMap → Finset ℤ
  | hourOfDay => keys 0 24
  | dayOfWeek => keys 0 7
  | minuteOfHour => keys 0 60
  | dayOfMonth => keys 1 31
  | monthOfYear => keys 1 12

/-- The key of a moment. The week of a map begins on Sunday, that of `time.localtime` on Monday. -/
def read : RateMap → LocalTime → ℤ
  | hourOfDay, tm => tm.hour.val
  | dayOfWeek, tm => (tm.weekday.val + 1) % 7
  | minuteOfHour, tm => tm.minute.val
  | dayOfMonth, tm => tm.monthDay.val
  | monthOfYear, tm => tm.month.val

lemma mem_keys {first count : ℕ} {k : ℤ} :
    k ∈ keys first count ↔ first ≤ k ∧ k < first + count := by
  simp only [keys, Finset.mem_image, Finset.mem_range]
  constructor
  · rintro ⟨i, hi, rfl⟩
    omega
  · rintro ⟨hle, hlt⟩
    exact ⟨(k - first).toNat, by omega, by omega⟩

lemma domain_nonempty (n : RateMap) : n.domain.Nonempty := by
  cases n <;> exact ⟨_, Finset.mem_image_of_mem _ (Finset.mem_range.2 (Nat.zero_lt_succ _))⟩

lemma read_mem_domain (n : RateMap) (tm : LocalTime) : n.read tm ∈ n.domain := by
  have hday := tm.monthDay.property
  have hmonth := tm.month.property
  cases n <;> simp only [read, domain, mem_keys] <;> omega

lemma nodup_all : all.Nodup := by decide

end RateMap

/-- A map as it was read: factors by key. -/
abbrev Factors := List (ℤ × ℚ)

variable {values : Factors}

namespace Factors

/-- `values.get(k, 1.0)`. -/
def get (values : Factors) (k : ℤ) : ℚ := (values.lookup k).getD 1

def mean (n : RateMap) (values : Factors) : ℚ := (∑ k ∈ n.domain, values.get k) / n.domain.card

def peak (n : RateMap) (values : Factors) : ℚ := n.domain.sup' n.domain_nonempty values.get

/-- No factor is below zero. -/
def Nonneg (values : Factors) : Prop := ∀ m ∈ values, 0 ≤ m.2

lemma Nonneg.get (h : values.Nonneg) (k : ℤ) : 0 ≤ values.get k := by
  unfold Factors.get
  cases hl : values.lookup k with
  | none => exact zero_le_one
  | some f =>
    obtain ⟨front, back, heq, _⟩ := lookup_eq_some_iff.1 hl
    refine h (k, f) ?_
    rw [heq]
    exact mem_append_right _ mem_cons_self

lemma get_le_peak (values : Factors) {n : RateMap} {k : ℤ} (hk : k ∈ n.domain) :
    values.get k ≤ values.peak n :=
  Finset.le_sup' values.get hk

end Factors

/-- Some maps, none with a factor below zero. -/
def NonnegMaps (maps : RateMap → Option Factors) : Prop := ∀ n, ∀ values ∈ maps n, values.Nonneg

/-! ### Curves -/

structure ShapeCurve where
  maps : RateMap → Option Factors

def minRate : ℚ := 1 / 1000

namespace ShapeCurve

/-- A loop over the maps that multiplies something up. -/
def product (c : ShapeCurve) (f : RateMap → Factors → ℚ) : ℚ :=
  RateMap.all.foldl (fun acc n =>
    match c.maps n with
    | none => acc
    | some values => acc * f n values) 1

def mean (c : ShapeCurve) : ℚ := c.product fun n values => values.mean n

def peak (c : ShapeCurve) : ℚ := c.product fun n values => values.peak n

def peakRatio (c : ShapeCurve) : ℚ := c.peak / c.mean

def factorAt (c : ShapeCurve) (keys : RateMap → ℤ) :
    ℚ := c.product fun n values => values.get (keys n)

section

variable (localtime : ℚ → LocalTime)

def factor (c : ShapeCurve) (epoch : ℚ) : ℚ := c.factorAt fun n => n.read (localtime epoch)

def rate (c : ShapeCurve) (shareEps epoch : ℚ) : ℚ :=
  max minRate (shareEps * c.factor localtime epoch / c.mean)

end

/-- The full product of the domains of a curve's maps; where there is no map, the key is left at
zero. -/
def grid (c : ShapeCurve) : Finset (RateMap → ℤ) :=
  Fintype.piFinset fun n => if (c.maps n).isSome then n.domain else {0}

end ShapeCurve

/-- `_engine_share`: what the conf rewrite makes the engine produce. -/
def engineShare (shape : Option ShapeCurve) (rateValue : Option ℚ) : Option ℚ :=
  match shape, rateValue with
  | some curve, some value => some (value * curve.peakRatio)
  | _, value => value

/-! ### The curve of a pack -/

/-- What reading the maps takes from outside, besides what a conf does: the items of a JSON object,
each with the finite number that its value is, if it is one. -/
structure ShapeHost extends ConfHost where
  json : Text → Option (List (Text × Option ℚ))

section

variable (host : ShapeHost)

def parseMap (text : Text) : Option Factors :=
  match host.json text with
  | none => none
  | some items =>
    let out := items.foldl (fun (out : Factors) item =>
      match host.int (host.strip item.1), item.2 with
      | some k, some v => (k, max 0 v) :: out
      | _, _ => out) []
    if out.isEmpty then none else some out

/-- A map under an option that is there and is not empty. -/
def mapOf (raw : Option (Option Text)) : Option Factors :=
  match raw.join with
  | none => none
  | some text => if text.isEmpty then none else parseMap host text

/-- The maps of the global sections, the later ones over the earlier ones. -/
def globalMaps (p : Parser) : RateMap → Option Factors :=
  (p.names.filter fun name => isGlobal host.toHost name).foldl
    (fun maps name n => (mapOf host (p.get name n.key)).or (maps n)) fun _ => none

/-- The maps of the first stanza that has any, replays apart. -/
def stanzaMaps (p : Parser) : List Text → Except PyError (RateMap → Option Factors)
  | [] => .ok fun _ => none
  | name :: names => do
    if ← ConfRewrite.isReplay host.toConfHost p name then stanzaMaps p names
    else
      let own := fun n : RateMap => mapOf host (p.get name n.key)
      if RateMap.all.any fun n => (own n).isSome then return own else stanzaMaps p names

def curveFromParser (p : Parser) : Except PyError (Option ShapeCurve) := do
  let declared := fun n : RateMap =>
    (globalMaps host p n).or (mapOf host (p.defaults.get n.key))
  let own ← stanzaMaps host p (p.sampleSections host.toConfHost)
  let curve : ShapeCurve := { maps := fun n => (own n).or (declared n) }
  if RateMap.all.all fun n => (curve.maps n).isNone then return none
  else if curve.mean ≤ 0 ∨ curve.peak ≤ 0 then return none
  else return some curve

end

/-! ### Averages -/

/-- The mean of a product over a product of finite sets is the product of the means. -/
lemma mean_piFinset {ι κ : Type} [Fintype ι] [DecidableEq ι] (s : ι → Finset κ) (f : ι → κ → ℚ) :
    (∑ x ∈ Fintype.piFinset s, ∏ i, f i (x i)) / (Fintype.piFinset s).card =
      ∏ i, (∑ k ∈ s i, f i k) / (s i).card := by
  rw [Fintype.card_piFinset, Nat.cast_prod, ← Finset.prod_univ_sum, Finset.prod_div_distrib]

namespace ShapeCurve

variable {c : ShapeCurve}

lemma product_eq (c : ShapeCurve) (f : RateMap → Factors → ℚ) :
    c.product f = ∏ n, (c.maps n).elim 1 (f n) := by
  have hloop : c.product f = (RateMap.all.map fun n => (c.maps n).elim 1 (f n)).prod := by
    rw [prod_eq_foldl, foldl_map, product]
    congr 1
    funext acc n
    cases c.maps n with
    | none => exact (mul_one acc).symm
    | some values => rfl
  rw [hloop]
  exact (prod_toFinset _ RateMap.nodup_all).symm

/-- The mean of a curve is the mean of its factor over the full product of the domains. -/
lemma mean_eq (c : ShapeCurve) : c.mean = (∑ keys ∈ c.grid, c.factorAt keys) / c.grid.card := by
  have hfactor : ∀ keys, c.factorAt keys = ∏ n,
      (c.maps n).elim 1 fun values => values.get (keys n) :=
    fun keys => c.product_eq _
  simp only [hfactor]
  rw [mean, product_eq, grid, mean_piFinset _ fun n k => (c.maps n).elim 1 fun values =>
    values.get k]
  refine Finset.prod_congr rfl fun n _ => ?_
  cases c.maps n with
  | none => simp
  | some values => rfl

def Nonneg (c : ShapeCurve) : Prop := NonnegMaps c.maps

lemma Nonneg.elim_get (h : c.Nonneg) (n : RateMap) (k : ℤ) :
    0 ≤ (c.maps n).elim 1 fun values => values.get k := by
  cases hm : c.maps n with
  | none => exact zero_le_one
  | some values => exact (h n values hm).get k

lemma Nonneg.factor_le_peak (h : c.Nonneg) (localtime : ℚ → LocalTime) (epoch : ℚ) :
    c.factor localtime epoch ≤ c.peak := by
  rw [factor, factorAt, peak, product_eq, product_eq]
  refine Finset.prod_le_prod (fun n _ => h.elim_get n _) fun n _ => ?_
  cases c.maps n with
  | none => exact le_rfl
  | some values => exact values.get_le_peak (n.read_mem_domain _)

lemma mean_pos (h : ∀ n, ∀ values ∈ c.maps n, 0 < values.mean n) : 0 < c.mean := by
  rw [mean, product_eq]
  refine Finset.prod_pos fun n _ => ?_
  cases hm : c.maps n with
  | none => exact one_pos
  | some values => exact h n values hm

/-- A share above zero is shaped to its peak at most, any other to `MIN_RATE`. -/
lemma Nonneg.rate_le (h : c.Nonneg) (hmean : 0 < c.mean) (localtime : ℚ → LocalTime)
    (share epoch : ℚ) : c.rate localtime share epoch ≤ max minRate (share * c.peakRatio) := by
  refine max_le (le_max_left _ _) ?_
  rcases le_total 0 share with hshare | hshare
  · refine le_max_of_le_right ?_
    have hpeak := h.factor_le_peak localtime epoch
    rw [peakRatio, mul_div_assoc]
    gcongr
  · refine le_max_of_le_left ?_
    have hfactor : 0 ≤ c.factor localtime epoch := by
      rw [factor, factorAt, product_eq]
      exact Finset.prod_nonneg fun n _ => h.elim_get n _
    have hshaped : share * c.factor localtime epoch / c.mean ≤ 0 :=
      div_nonpos_of_nonpos_of_nonneg (mul_nonpos_of_nonpos_of_nonneg hshare hfactor) hmean.le
    exact hshaped.trans (by norm_num [minRate])

end ShapeCurve

/-- A shaped run delivers its share on average, over all keys its maps can have together, and at no
moment is the bucket aimed higher than what the engine was rewritten to produce, or than
`MIN_RATE`. -/
theorem shaped_rate_keeps_average (c : ShapeCurve) (hnonneg : c.Nonneg)
    (hmean : ∀ n, ∀ values ∈ c.maps n, 0 < values.mean n) (share : ℚ) :
    (∑ keys ∈ c.grid, share * c.factorAt keys / c.mean) / c.grid.card = share ∧
      ∀ localtime epoch, ∀ produced ∈ engineShare (some c) (some share),
        c.rate localtime share epoch ≤ max minRate produced := by
  have hpos : 0 < c.mean := ShapeCurve.mean_pos hmean
  refine ⟨?_, ?_⟩
  · calc (∑ keys ∈ c.grid, share * c.factorAt keys / c.mean) / c.grid.card
        = share * ((∑ keys ∈ c.grid, c.factorAt keys) / c.grid.card) / c.mean := by
          rw [← Finset.sum_div, ← Finset.mul_sum]
          ring
      _ = share := by
          rw [← c.mean_eq]
          exact mul_div_cancel_right₀ share hpos.ne'
  · rintro localtime epoch _ ⟨⟩
    exact hnonneg.rate_le hpos localtime share epoch

/-- Sundays at three times the pace of the other days. -/
def busySundays : ShapeCurve where
  maps
    | .dayOfWeek => some [(0, 3)]
    | _ => none

theorem busy_sundays_keep_average :
    (∑ keys ∈ busySundays.grid, 9 * busySundays.factorAt keys / busySundays.mean) /
        busySundays.grid.card = 9 ∧
      ∀ localtime epoch, ∀ produced ∈ engineShare (some busySundays) (some 9),
        busySundays.rate localtime 9 epoch ≤ max minRate produced := by
  refine shaped_rate_keeps_average busySundays ?_ ?_ 9
  · intro n values hm
    cases n <;> cases hm
    simp [Factors.Nonneg]
  · intro n values hm
    cases n <;> cases hm
    decide +kernel

end Stoker
