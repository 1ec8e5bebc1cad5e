import Stoker.Grouping.Ranked
import Stoker.Server.Shown

/-!
# Rolling up the metric samples

Maintenance deletes the samples that are older than the prune window and, of what is older than the
roll-up window, replaces every bucket of at least two samples with one: the last of the cumulative
counters, the mean of the gauges, at the floor of the bucket. A pass may come when only a part of a
bucket is old enough; the rest is then rolled up by a later one, together with what the first pass
left there.
-/

open List

namespace Stoker

open Grouping

/-- The columns in `_ROLLUP_MEAN`. -/
inductive Gauge where
  | eps | bps | lagS | rssMb | cpuPct | engineCpuPct
  deriving DecidableEq

/-- A row of `metric_samples`, with the columns that are rolled up: the counters and the three
others in `_ROLLUP_LAST`, and the gauges. -/
structure SampleRow extends MetricSample where
  run : ℕ
  queueDepth : Option ℤ := none
  engineThreads : Option ℤ := none
  cpuLimitCores : Option ℚ := none
  gauges : Gauge → Option ℚ := fun _ => none
  epoch : 0 ≤ ts

/-- The key under which samples are rolled up together. -/
@[ext]
structure BucketKey where
  run : ℕ
  slot : ℕ
  idx : ℕ
  deriving DecidableEq

def mean (values : List (Option ℚ)) : Option ℚ :=
  let nums := values.filterMap id
  if nums = [] then none else some (nums.sum / nums.length)

section

variable (bucketS : ℕ)

def bucketOf (s : SampleRow) : BucketKey := ⟨s.run, s.slot, ⌊s.ts⌋₊ / bucketS⟩

/-- The instant at which a bucket begins. -/
def BucketKey.floor (k : BucketKey) : ℚ := ((k.idx * bucketS : ℕ) : ℚ)

lemma BucketKey.floor_nonneg (k : BucketKey) : 0 ≤ k.floor bucketS := Nat.cast_nonneg _

def aggregateBucket (k : BucketKey) (members : List SampleRow) : Option SampleRow :=
  let ordered := sortOn (fun s => s.ts) members
  ordered.getLast?.map fun last =>
    { last with
      run := k.run
      slot := k.slot
      ts := k.floor bucketS
      gauges := fun g => mean (ordered.map fun s => s.gauges g)
      epoch := k.floor_nonneg bucketS }

def rollUp (rollupBefore : Time) (table : List SampleRow) : List SampleRow :=
  let rows := sortOn (fun s => s.ts) (table.filter fun s => s.ts < rollupBefore)
  let members := fun k => under (bucketOf bucketS) k rows
  table.filter (fun s => ¬(s.ts < rollupBefore ∧ 2 ≤ (members (bucketOf bucketS s)).length)) ++
    (keysOf (bucketOf bucketS) rows).filterMap fun k =>
      if (members k).length < 2 then none else aggregateBucket bucketS k (members k)

end

def prune (pruneBefore : Time) (table : List SampleRow) : List SampleRow :=
  table.filter fun s => pruneBefore ≤ s.ts

/-- The settings of maintenance, the two windows in seconds. -/
structure MaintenanceSettings where
  metricRollupAfter : ℚ
  metricPruneAfter : ℚ
  metricRollupBucketS : ℤ

namespace MaintenanceSettings

variable (settings : MaintenanceSettings)

def bucketS : ℕ := (max 1 settings.metricRollupBucketS).toNat

def rollupBefore (now : Time) : Time := now - settings.metricRollupAfter

def pruneBefore (now : Time) : Time := now - settings.metricPruneAfter

lemma bucketS_pos : 0 < settings.bucketS := by
  unfold bucketS
  omega

end MaintenanceSettings

def rollUpAndPrune (settings : MaintenanceSettings) (table : List SampleRow) (now : Time) :
    List SampleRow :=
  rollUp settings.bucketS (settings.rollupBefore now) (prune (settings.pruneBefore now) table)

/-- Maintenance at some instants, one after the other. -/
def maintain (settings : MaintenanceSettings) (times : List Time) (table : List SampleRow) :
    List SampleRow :=
  times.foldl (rollUpAndPrune settings) table

/-! ### Aggregates -/

lemma mean_perm {values values' : List (Option ℚ)} (h : values.Perm values') :
    mean values = mean values' := by
  have hnums := h.filterMap id
  unfold mean
  dsimp only
  rw [hnums.sum_eq, hnums.length_eq]
  simp only [← length_eq_zero_iff, hnums.length_eq]

lemma mean_some (nums : List ℚ) (h : nums ≠ []) :
    mean (nums.map some) = some (nums.sum / nums.length) := by
  simp [mean, h]

section

variable {bucketS : ℕ} {k : BucketKey} {members : List SampleRow} {s : SampleRow}

structure Aggregated (bucketS : ℕ) (k : BucketKey) (members : List SampleRow) (s : SampleRow) :
    Prop where
  run : s.run = k.run
  slot : s.slot = k.slot
  ts : s.ts = k.floor bucketS
  counters : ∃ last, (peaks (fun s : SampleRow => s.ts) members).getLast? = some last ∧
  s.counters = last.counters
  gauges : ∀ g, s.gauges g = mean (members.map fun m => m.gauges g)

lemma aggregateBucket_sortOn (members : List SampleRow) :
    aggregateBucket bucketS k (sortOn (fun s => s.ts) members) =
      aggregateBucket bucketS k members := by
  unfold aggregateBucket
  rw [sortOn_sortOn]

lemma exists_aggregateBucket (bucketS : ℕ) (k : BucketKey) (h : members ≠ []) :
    ∃ s, aggregateBucket bucketS k members = some s := by
  have hne : sortOn (fun s : SampleRow => s.ts) members ≠ [] := by
    rw [← length_pos_iff, (sortOn_perm _ members).length_eq]
    exact length_pos_iff.2 h
  refine Option.isSome_iff_exists.1 ?_
  unfold aggregateBucket
  rw [Option.isSome_map, getLast?_eq_some_getLast hne]
  rfl

lemma aggregated (h : aggregateBucket bucketS k members = some s) :
    Aggregated bucketS k members s := by
  obtain ⟨last, hlast, rfl⟩ := Option.map_eq_some_iff.1 h
  rw [getLast?_sortOn] at hlast
  exact ⟨rfl, rfl, rfl, ⟨last, hlast, rfl⟩, fun g => mean_perm ((sortOn_perm _ members).map _)⟩

lemma Aggregated.bucketOf_eq (hpos : 0 < bucketS) (h : Aggregated bucketS k members s) :
    bucketOf bucketS s = k := by
  unfold bucketOf
  rw [h.run, h.slot, h.ts, BucketKey.floor, Nat.floor_natCast, Nat.mul_div_cancel _ hpos]

lemma floor_bucketOf_le (s : SampleRow) : (bucketOf bucketS s).floor bucketS ≤ s.ts :=
  calc (((⌊s.ts⌋₊ / bucketS * bucketS : ℕ)) : ℚ) ≤ (⌊s.ts⌋₊ : ℚ) :=
    Nat.cast_le.2 (Nat.div_mul_le_self _ _)
    _ ≤ s.ts := Nat.floor_le s.epoch

lemma floor_le_of_mem_under (h : s ∈ under (bucketOf bucketS) k members) :
    k.floor bucketS ≤ s.ts := by
  rw [← (mem_under.1 h).2]
  exact floor_bucketOf_le s

end

/-! ### One bucket -/

def rollBucket (bucketS : ℕ) (k : BucketKey) (before : Time) (rows : List SampleRow) :
    List SampleRow :=
  if (rows.filter fun s => s.ts < before).length < 2 then rows
  else rows.filter (fun s => ¬s.ts < before) ++
    (aggregateBucket bucketS k (rows.filter fun s => s.ts < before)).toList

section

variable {bucketS : ℕ} {k : BucketKey} {before : Time} {table rows : List SampleRow}

/-- A pass treats each bucket for itself. -/
lemma under_rollUp (hpos : 0 < bucketS) (k : BucketKey) (before : Time) (table : List SampleRow) :
    under (bucketOf bucketS) k (rollUp bucketS before table) =
      rollBucket bucketS k before (under (bucketOf bucketS) k table) := by
  set old := (under (bucketOf bucketS) k table).filter fun s => s.ts < before with hold
  have hmembers : under (bucketOf bucketS) k
      (sortOn (fun s => s.ts) (table.filter fun s => s.ts < before)) =
      sortOn (fun s => s.ts) old := by
    rw [under, filter_sortOn, hold, under, filter_filter, filter_filter]
    simp only [Bool.and_comm]
  have hlength : (under (bucketOf bucketS) k
      (sortOn (fun s => s.ts) (table.filter fun s => s.ts < before))).length = old.length := by
    rw [hmembers, (sortOn_perm _ old).length_eq]
  have hkeep : under (bucketOf bucketS) k (table.filter fun s => ¬(s.ts < before ∧ 2 ≤ (under
      (bucketOf bucketS) (bucketOf bucketS s)
        (sortOn (fun s => s.ts) (table.filter fun s => s.ts < before))).length)) =
      (under (bucketOf bucketS) k table).filter fun s => ¬(s.ts < before ∧ 2 ≤ old.length) := by
    unfold under
    rw [filter_filter, filter_filter]
    refine filter_congr fun s _ => ?_
    by_cases hs : bucketOf bucketS s = k
    · rw [← hlength, hs]
      simp [under]
    · simp [hs]
  unfold rollUp
  dsimp only
  rw [under_append, hkeep, under_filterMap _ (nodup_keysOf _ _), hlength, hmembers,
    aggregateBucket_sortOn, rollBucket, ← hold]
  · by_cases hfew : old.length < 2
    · rw [if_pos hfew, if_pos hfew, Option.toList_none, ite_self, append_nil, filter_eq_self]
      simp [hfew]
    · have hkey : k ∈ keysOf (bucketOf bucketS)
          (sortOn (fun s => s.ts) (table.filter fun s => s.ts < before)) := by
        obtain ⟨s, hs⟩ := length_pos_iff_exists_mem.1 (by omega : 0 < old.length)
        rw [← (sortOn_perm (fun s => s.ts) old).mem_iff, ← hmembers] at hs
        exact mem_keysOf.2 ⟨s, (mem_under.1 hs).1, (mem_under.1 hs).2⟩
      rw [if_pos hkey, if_neg hfew, if_neg hfew]
      congr 1
      refine filter_congr fun s _ => ?_
      simp [not_lt.1 hfew]
  · intro j a ha
    split_ifs at ha
    · cases ha
    · exact (aggregated ha).bucketOf_eq hpos

/-- A row that a pass leaves is no later than some row of its bucket was. -/
lemma mem_rollUp_later (hpos : 0 < bucketS) {s : SampleRow} (h : s ∈ rollUp bucketS before table) :
    ∃ s' ∈ table, bucketOf bucketS s' = bucketOf bucketS s ∧ s.ts ≤ s'.ts := by
  have hs : s ∈ under (bucketOf bucketS) (bucketOf bucketS s) (rollUp bucketS before table) :=
    mem_under.2 ⟨h, rfl⟩
  rw [under_rollUp hpos, rollBucket] at hs
  split_ifs at hs with hfew
  · exact ⟨s, (mem_under.1 hs).1, rfl, le_rfl⟩
  rcases mem_append.1 hs with hs | hs
  · exact ⟨s, (mem_under.1 (mem_of_mem_filter hs)).1, rfl, le_rfl⟩
  · -- the aggregate lies at the floor of the bucket, no later than any of its members
    have hagg := aggregated (Option.mem_toList.1 hs)
    obtain ⟨m, hm⟩ := length_pos_iff_exists_mem.1 (lt_of_lt_of_le Nat.zero_lt_two (not_lt.1 hfew))
    have hm := mem_of_mem_filter hm
    exact ⟨m, (mem_under.1 hm).1, (mem_under.1 hm).2, hagg.ts ▸ floor_le_of_mem_under hm⟩

/-- What becomes of a bucket when all of it is old enough. -/
def wholeBucket (bucketS : ℕ) (k : BucketKey) (rows : List SampleRow) : List SampleRow :=
  if rows.length < 2 then rows else (aggregateBucket bucketS k rows).toList

lemma rollBucket_of_few (h : (rows.filter fun s => s.ts < before).length < 2) :
    rollBucket bucketS k before rows = rows := if_pos h

lemma rollBucket_of_all (h : ∀ s ∈ rows, s.ts < before) :
    rollBucket bucketS k before rows = wholeBucket bucketS k rows := by
  have hold : (rows.filter fun s => s.ts < before) = rows := by simpa using h
  have hnew : (rows.filter fun s => ¬s.ts < before) = [] := by simpa using h
  unfold rollBucket
  rw [hold, hnew, nil_append]
  rfl

lemma wholeBucket_of_two (bucketS : ℕ) (k : BucketKey) (h : 2 ≤ rows.length) :
    ∃ s, wholeBucket bucketS k rows = [s] ∧ Aggregated bucketS k rows s := by
  have hne : rows ≠ [] := ne_nil_of_length_pos (by omega)
  obtain ⟨s, hs⟩ := exists_aggregateBucket bucketS k hne
  refine ⟨s, ?_, aggregated hs⟩
  rw [wholeBucket, if_neg (by omega), hs, Option.toList_some]

lemma rollBucket_wholeBucket (before : Time) :
    rollBucket bucketS k before (wholeBucket bucketS k rows) = wholeBucket bucketS k rows := by
  refine rollBucket_of_few (lt_of_le_of_lt (length_filter_le _ _) ?_)
  by_cases h : rows.length < 2
  · rwa [wholeBucket, if_pos h]
  · obtain ⟨s, hs, -⟩ := wholeBucket_of_two bucketS k (not_lt.1 h)
    rw [hs]
    exact Nat.one_lt_two

end

section

variable {settings : MaintenanceSettings} {k : BucketKey} {table rows : List SampleRow}
  {times : List Time}

def rollAll (settings : MaintenanceSettings) (k : BucketKey) (times : List Time)
    (rows : List SampleRow) : List SampleRow :=
  times.foldl (fun rows now => rollBucket settings.bucketS k (settings.rollupBefore now) rows) rows

lemma rollAll_append (earlier later : List Time) (rows : List SampleRow) :
    rollAll settings k (earlier ++ later) rows =
      rollAll settings k later (rollAll settings k earlier rows) :=
  foldl_append

/-- A bucket that no prune reaches is only rolled up. -/
lemma under_maintain (h : ∀ now ∈ times, settings.pruneBefore now ≤ k.floor settings.bucketS)
    (table : List SampleRow) :
    under (bucketOf settings.bucketS) k (maintain settings times table) =
      rollAll settings k times (under (bucketOf settings.bucketS) k table) := by
  induction times generalizing table with
  | nil => rfl
  | cons now times ih =>
    have hkept : under (bucketOf settings.bucketS) k (prune (settings.pruneBefore now) table) =
        under (bucketOf settings.bucketS) k table := by
      rw [under, prune, filter_filter]
      refine filter_congr fun s _ => ?_
      by_cases hs : bucketOf settings.bucketS s = k
      · have hle := (h now mem_cons_self).trans (hs ▸ floor_bucketOf_le s)
        simp [hle]
      · simp [hs]
    have hstep : under (bucketOf settings.bucketS) k (rollUpAndPrune settings table now) =
        rollBucket settings.bucketS k (settings.rollupBefore now)
          (under (bucketOf settings.bucketS) k table) := by
      rw [rollUpAndPrune, under_rollUp settings.bucketS_pos, hkept]
    change under _ k (maintain settings times (rollUpAndPrune settings table now)) = _
    rw [ih (fun t ht => h t (mem_cons_of_mem _ ht)), hstep]
    rfl

/-- Some instants get old enough in one piece: at every pass at most one of them is, or all are. -/
def InOnePiece (settings : MaintenanceSettings) (times : List Time) (instants : List Time) : Prop :=
  ∀ now ∈ times, (instants.filter fun t => t < settings.rollupBefore now).length < 2 ∨
    ∀ t ∈ instants, t < settings.rollupBefore now

lemma inOnePiece_nil (instants : List Time) : InOnePiece settings [] instants :=
  fun _ hnow => absurd hnow not_mem_nil

lemma inOnePiece_rows : InOnePiece settings times (rows.map fun s => s.ts) ↔
    ∀ now ∈ times, (rows.filter fun s => s.ts < settings.rollupBefore now).length < 2 ∨
      ∀ s ∈ rows, s.ts < settings.rollupBefore now := by
  simp only [InOnePiece, filter_map, length_map, forall_mem_map]
  rfl

variable {last : Time}

/-- Passes over a bucket that is old enough in one piece end where the last of them alone does. -/
lemma rollAll_of_inOnePiece (h : InOnePiece settings times (rows.map fun s => s.ts))
    (hlast : ∀ s ∈ rows, s.ts < settings.rollupBefore last) :
    rollAll settings k (times ++ [last]) rows = wholeBucket settings.bucketS k rows := by
  rw [inOnePiece_rows] at h
  have hsofar : rollAll settings k times rows = rows ∨
      rollAll settings k times rows = wholeBucket settings.bucketS k rows := by
    induction times using reverseRecOn with
    | nil => exact .inl rfl
    | append_singleton times now ih =>
      rw [rollAll_append]
      change rollBucket _ k _ _ = _ ∨ rollBucket _ k _ _ = _
      rcases ih fun t ht => h t (mem_append_left _ ht) with hsame | hwhole
      · rw [hsame]
        rcases h now (by simp) with hfew | hall
        · exact .inl (rollBucket_of_few hfew)
        · exact .inr (rollBucket_of_all hall)
      · rw [hwhole]
        exact .inr (rollBucket_wholeBucket _)
  rw [rollAll_append]
  change rollBucket _ k _ _ = _
  rcases hsofar with hsame | hwhole
  · rw [hsame, rollBucket_of_all hlast]
  · rw [hwhole, rollBucket_wholeBucket]

/-! ### A bucket that is cut

A gauge that is zero before an instant and one from then on tells whether a bucket was cut there. -/

/-- The rows of a bucket after some passes: those from the instant on as they were, and older ones
for which the gauge is zero. -/
structure Marked (bucketS : ℕ) (k : BucketKey) (cut : Time) (young rows : List SampleRow) :
    Prop where
  gauge : ∀ s ∈ rows, s.gauges .eps = some (if s.ts < cut then 0 else 1)
  young : (rows.filter fun s => ¬s.ts < cut) = young
  old : ∃ s ∈ rows, s.ts < cut
  floor : ∀ s ∈ rows, k.floor bucketS ≤ s.ts

namespace Marked

variable {bucketS : ℕ} {cut before : Time} {young : List SampleRow}

lemma length (h : Marked bucketS k cut young rows) :
    rows.length = (rows.filter fun s => s.ts < cut).length + young.length := by
  rw [← h.young, length_eq_length_filter_add fun s => decide (s.ts < cut)]
  simp only [decide_not]

lemma mean_eq (h : Marked bucketS k cut young rows) :
    mean (rows.map fun s => s.gauges .eps) = some ((young.length : ℚ) / rows.length) := by
  have hnums : (rows.map fun s => s.gauges .eps) =
      (rows.map fun s => if s.ts < cut then (0 : ℚ) else 1).map some := by
    rw [map_map]
    exact map_congr_left h.gauge
  have hsum : ∀ l : List SampleRow, (l.map fun s => if s.ts < cut then (0 : ℚ) else 1).sum =
      (l.filter fun s => ¬s.ts < cut).length := by
    intro l
    induction l with
    | nil => rfl
    | cons s l ih =>
      rw [map_cons, sum_cons, ih]
      by_cases hs : s.ts < cut
      · simp [hs]
      · simp only [filter_cons, hs, if_false, not_false_eq_true, decide_true, if_true,
          length_cons, Nat.cast_add, Nat.cast_one, add_comm]
  obtain ⟨s, hs, -⟩ := h.old
  rw [hnums, mean_some _ (by simpa using ne_nil_of_mem hs), hsum, h.young, length_map]

/-- A pass that reaches no further than the instant keeps the marks. -/
lemma roll (h : Marked bucketS k cut young rows) (hle : before ≤ cut) :
    Marked bucketS k cut young (rollBucket bucketS k before rows) := by
  unfold rollBucket
  split_ifs with hfew
  · exact h
  set old := rows.filter fun s => s.ts < before with hold
  have hmem : ∀ s ∈ old, s ∈ rows ∧ s.ts < before := by simp [hold]
  obtain ⟨m, hm⟩ := length_pos_iff_exists_mem.1 (by omega : 0 < old.length)
  obtain ⟨a, ha⟩ := exists_aggregateBucket bucketS k (ne_nil_of_mem hm)
  have hagg := aggregated ha
  have hts : a.ts < cut := by
    rw [hagg.ts]
    exact (h.floor m (hmem m hm).1).trans_lt ((hmem m hm).2.trans_le hle)
  have hzero : a.gauges .eps = some 0 := by
    have hnums : (old.map fun s => s.gauges .eps) = (old.map fun _ => (0 : ℚ)).map some := by
      rw [map_map]
      refine map_congr_left fun s hs => ?_
      rw [h.gauge s (hmem s hs).1, if_pos ((hmem s hs).2.trans_le hle)]
      rfl
    rw [hagg.gauges, hnums, mean_some _ (by simpa using ne_nil_of_mem hm)]
    simp
  rw [ha, Option.toList_some]
  refine ⟨?_, ?_, ⟨a, by simp, hts⟩, ?_⟩
  · intro s hs
    rcases mem_append.1 hs with hs | hs
    · exact h.gauge s (mem_of_mem_filter hs)
    · rw [mem_singleton.1 hs, hzero, if_pos hts]
  · have hnone : [a].filter (fun s => ¬s.ts < cut) = [] := by simpa using hts
    rw [filter_append, filter_filter, hnone, append_nil, ← h.young]
    refine filter_congr fun s _ => ?_
    by_cases hs : s.ts < cut
    · simp [hs]
    · simp [hs, hle.trans (not_lt.1 hs)]
  · intro s hs
    rcases mem_append.1 hs with hs | hs
    · exact h.floor s (mem_of_mem_filter hs)
    · rw [mem_singleton.1 hs, hagg.ts]

/-- The pass at the instant leaves one older row. -/
lemma length_roll (h : Marked bucketS k cut young rows) :
    (rollBucket bucketS k cut rows).length = young.length + 1 := by
  unfold rollBucket
  split_ifs with hfew
  · obtain ⟨s, hs, hlt⟩ := h.old
    have hpos : 0 < (rows.filter fun s => s.ts < cut).length :=
      length_pos_of_mem (mem_filter.2 ⟨hs, decide_eq_true hlt⟩)
    rw [h.length]
    omega
  · obtain ⟨a, ha⟩ := exists_aggregateBucket bucketS k
      (ne_nil_of_length_pos (by omega : 0 < (rows.filter fun s => s.ts < cut).length))
    rw [ha, length_append, h.young]
    rfl

lemma rollAll (settings : MaintenanceSettings) (h : Marked settings.bucketS k cut young rows)
    (hle : ∀ now ∈ times, settings.rollupBefore now ≤ cut) :
    Marked settings.bucketS k cut young (rollAll settings k times rows) := by
  induction times generalizing rows with
  | nil => exact h
  | cons now times ih =>
    exact ih (h.roll (hle now mem_cons_self)) fun t ht => hle t (mem_cons_of_mem _ ht)

end Marked

/-- A pass that cuts a bucket leaves its mark on the mean, whatever comes before and after. -/
lemma rollAll_of_cut {earlier later : List Time} {now : Time} {young : List SampleRow}
    (h : Marked settings.bucketS k (settings.rollupBefore now) young rows) (hyoung : young ≠ [])
    (hold : 2 ≤ (rows.filter fun s => s.ts < settings.rollupBefore now).length)
    (hearlier : ∀ t ∈ earlier, settings.rollupBefore t ≤ settings.rollupBefore now)
    (hlater : ∀ t ∈ later ++ [last], ∀ s ∈ rows, s.ts < settings.rollupBefore t) :
    rollAll settings k (earlier ++ now :: later ++ [last]) rows ≠
      wholeBucket settings.bucketS k rows := by
  have hcut := (h.rollAll settings hearlier).roll le_rfl
  have hlength := (h.rollAll settings hearlier).length_roll
  set rows' := rollBucket settings.bucketS k (settings.rollupBefore now)
      (rollAll settings k earlier rows)
  have hall : ∀ t ∈ later ++ [last], ∀ s ∈ rows', s.ts < settings.rollupBefore t := by
    intro t ht s hs
    by_cases hlt : s.ts < settings.rollupBefore now
    · obtain ⟨y, hy⟩ := exists_mem_of_ne_nil _ hyoung
      rw [← h.young, mem_filter, decide_eq_true_eq, not_lt] at hy
      exact hlt.trans (hy.2.trans_lt (hlater t ht y hy.1))
    · have hs' : s ∈ young := by
        rw [← hcut.young]
        exact mem_filter.2 ⟨hs, decide_eq_true hlt⟩
      rw [← h.young] at hs'
      exact hlater t ht s (mem_of_mem_filter hs')
  have hrun : rollAll settings k (earlier ++ now :: later ++ [last]) rows =
      wholeBucket settings.bucketS k rows' := by
    rw [append_assoc, cons_append, rollAll_append]
    refine rollAll_of_inOnePiece (inOnePiece_rows.2 fun t ht => .inr ?_) (hall last (by simp))
    exact hall t (mem_append_left _ ht)
  have hpos := length_pos_iff.2 hyoung
  have hrows := h.length
  obtain ⟨a, ha, hagg⟩ := wholeBucket_of_two settings.bucketS k (by omega : 2 ≤ rows'.length)
  obtain ⟨b, hb, hagg'⟩ := wholeBucket_of_two settings.bucketS k (by omega : 2 ≤ rows.length)
  rw [hrun, ha, hb]
  intro heq
  have hmean : some ((young.length : ℚ) / rows'.length) =
      some ((young.length : ℚ) / rows.length) := by
    rw [← hcut.mean_eq, ← h.mean_eq, ← hagg.gauges, ← hagg'.gauges, singleton_inj.1 heq]
  rw [Option.some_inj, div_eq_mul_inv, div_eq_mul_inv, mul_right_inj' (Nat.cast_ne_zero.2 hpos.ne'),
    inv_inj, Nat.cast_inj] at hmean
  omega

end

/-! ### What a pass leaves -/

section

variable {bucketS : ℕ}

lemma length_old_rollBucket (k : BucketKey) (before : Time) (rows : List SampleRow) :
    ((rollBucket bucketS k before rows).filter fun s => s.ts < before).length < 2 := by
  unfold rollBucket
  split_ifs with hfew
  · exact hfew
  · have hnew : (rows.filter fun s => ¬s.ts < before).filter (fun s => s.ts < before) = [] := by
      simp [filter_filter]
    rw [filter_append, hnew, nil_append]
    refine (length_filter_le _ _).trans_lt ?_
    cases aggregateBucket bucketS k (rows.filter fun s => s.ts < before) <;> simp

lemma ts_lt_of_bucketOf_eq (hpos : 0 < bucketS) {s s' : SampleRow}
    (h : bucketOf bucketS s' = bucketOf bucketS s) : s'.ts < s.ts + bucketS := by
  have hlt : ⌊s'.ts⌋₊ + 1 ≤ (bucketOf bucketS s').idx * bucketS + bucketS :=
    Nat.lt_div_mul_add hpos
  calc s'.ts < ((⌊s'.ts⌋₊ + 1 : ℕ) : ℚ) := by exact_mod_cast Nat.lt_floor_add_one s'.ts
    _ ≤ (((bucketOf bucketS s').idx * bucketS + bucketS : ℕ) : ℚ) := Nat.cast_le.2 hlt
    _ = (bucketOf bucketS s).floor bucketS + bucketS := by rw [h, Nat.cast_add, BucketKey.floor]
    _ ≤ s.ts + bucketS := by gcongr; exact floor_bucketOf_le s

end

/-- A pass bounds the table: of what is older than the roll-up window it leaves at most one row for
each bucket of a slot, and no row older than the prune window by a bucket or more. To roll up once
more at the same instant changes no bucket. -/
theorem maintenance_bounds_table (settings : MaintenanceSettings) (table : List SampleRow)
    (now : Time) :
    let swept := rollUpAndPrune settings table now
    (∀ k, ((under (bucketOf settings.bucketS) k swept).filter
        fun s => s.ts < settings.rollupBefore now).length ≤ 1) ∧
    (∀ s ∈ swept, settings.pruneBefore now < s.ts + settings.bucketS) ∧
    ∀ k, under (bucketOf settings.bucketS) k
        (rollUp settings.bucketS (settings.rollupBefore now) swept) =
      under (bucketOf settings.bucketS) k swept := by
  intro swept
  have hpos := settings.bucketS_pos
  have hfew : ∀ k, ((under (bucketOf settings.bucketS) k swept).filter
      fun s => s.ts < settings.rollupBefore now).length < 2 := by
    intro k
    rw [show under _ k swept = _ from under_rollUp hpos k _ _]
    exact length_old_rollBucket k _ _
  refine ⟨fun k => Nat.le_of_lt_succ (hfew k), fun s hs => ?_, fun k => ?_⟩
  · obtain ⟨s', hs', hbucket, _⟩ := mem_rollUp_later hpos hs
    have hkept : settings.pruneBefore now ≤ s'.ts := by simpa using (mem_filter.1 hs').2
    exact hkept.trans_lt (ts_lt_of_bucketOf_eq hpos hbucket)
  · rw [under_rollUp hpos, rollBucket_of_few (hfew k)]

end Stoker
