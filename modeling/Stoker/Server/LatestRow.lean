import Stoker.Server.RollUp

/-!
# The latest samples of a slot

The totals that are shown of a run count the first row with the latest instant of each slot. A pass
of the roll-up moves the latest rows of a slot only when all of them are old enough: then one row is
left for them, which has the counters of the last.
-/

open List

namespace Stoker

open Grouping

def latest (run slot : ℕ) (table : List SampleRow) : List SampleRow :=
  peaks (fun s => s.ts) (table.filter fun s => s.run = run ∧ s.slot = slot)

section

variable {bucketS run slot : ℕ} {before : Time} {table rows : List SampleRow} {s : SampleRow}
  {k : BucketKey}

lemma mem_latest : s ∈ latest run slot table ↔ s ∈ table ∧ s.run = run ∧ s.slot = slot ∧
    ∀ s' ∈ table, s'.run = run → s'.slot = slot → s'.ts ≤ s.ts := by
  simp [latest, and_assoc]

lemma latest_eq_peaks_under (bucketS : ℕ) (h : s ∈ latest run slot table) :
    latest run slot table = peaks (fun s => s.ts)
      (under (bucketOf bucketS) (bucketOf bucketS s) table) := by
  obtain ⟨hs, hrun, hslot, hmax⟩ := mem_latest.1 h
  unfold latest peaks under
  rw [filter_filter, filter_filter]
  refine filter_congr fun a ha => ?_
  rw [Bool.eq_iff_iff, Bool.and_eq_true, Bool.and_eq_true, decide_eq_true_eq, decide_eq_true_eq,
    decide_eq_true_eq, decide_eq_true_eq]
  constructor
  · rintro ⟨hall, rfl, rfl⟩
    have hts : a.ts = s.ts := le_antisymm (hmax a ha rfl rfl) (hall s (by simp [hs, hrun, hslot]))
    refine ⟨fun b hb => ?_, by simp [bucketOf, hts, hrun, hslot]⟩
    have hb := mem_under.1 hb
    have hkey := BucketKey.mk.inj hb.2
    exact (hmax b hb.1 (hkey.1.trans hrun) (hkey.2.1.trans hslot)).trans hts.ge
  · rintro ⟨hall, hkey⟩
    have hkey := BucketKey.mk.inj hkey
    refine ⟨fun b hb => ?_, hkey.1.trans hrun, hkey.2.1.trans hslot⟩
    have hb : b ∈ table ∧ b.run = run ∧ b.slot = slot := by simpa using hb
    exact (hmax b hb.1 hb.2.1 hb.2.2).trans (hall s (mem_under.2 ⟨hs, rfl⟩))

lemma lt_floor_succ (hpos : 0 < bucketS) (s : SampleRow) :
    s.ts < (((bucketOf bucketS s).idx + 1) * bucketS : ℕ) := by
  refine (Nat.lt_floor_add_one s.ts).trans_le ?_
  rw [← Nat.cast_add_one, Nat.cast_le]
  exact Nat.lt_mul_of_div_lt (Nat.lt_succ_self _) hpos

lemma floor_le_floor {j k : BucketKey} (h : j.idx + 1 ≤ k.idx) :
    (((j.idx + 1) * bucketS : ℕ) : ℚ) ≤ k.floor bucketS :=
  Nat.cast_le.2 (Nat.mul_le_mul_right _ h)

lemma rollBucket_ne_nil (h : rows ≠ []) : rollBucket bucketS k before rows ≠ [] := by
  unfold rollBucket
  split_ifs with hfew
  · exact h
  · obtain ⟨a, ha⟩ := exists_aggregateBucket bucketS k
      (ne_nil_of_length_pos (lt_of_lt_of_le Nat.zero_lt_two (not_lt.1 hfew)))
    rw [ha]
    simp

/-- The latest rows after a pass are those that it leaves of the last bucket. -/
lemma latest_rollUp (hpos : 0 < bucketS) (before : Time) (h : s ∈ latest run slot table) :
    latest run slot (rollUp bucketS before table) = peaks (fun s => s.ts) (rollBucket bucketS
      (bucketOf bucketS s) before (under (bucketOf bucketS) (bucketOf bucketS s) table)) := by
  obtain ⟨hs, hrun, hslot, hmax⟩ := mem_latest.1 h
  set k := bucketOf bucketS s
  have hne : rollBucket bucketS k before (under (bucketOf bucketS) k table) ≠ [] :=
    rollBucket_ne_nil (ne_nil_of_mem (mem_under.2 ⟨hs, rfl⟩))
  obtain ⟨b, hb⟩ := exists_mem_of_ne_nil _ hne
  obtain ⟨a, ha⟩ := exists_mem_peaks (fun s : SampleRow => s.ts) hb
  rw [← under_rollUp hpos] at ha ⊢
  obtain ⟨ha, hamax⟩ := mem_peaks.1 ha
  obtain ⟨ha, hkey⟩ := mem_under.1 ha
  rw [← hkey]
  refine latest_eq_peaks_under bucketS (mem_latest.2 ⟨ha, ?_, ?_, fun b hb hbrun hbslot => ?_⟩)
  · exact (congrArg BucketKey.run hkey).trans hrun
  · exact (congrArg BucketKey.slot hkey).trans hslot
  -- another row of the slot is in the same bucket, or in an earlier one
  obtain ⟨b', hb', hkey', -⟩ := mem_rollUp_later hpos hb
  have hle : b'.ts ≤ s.ts := hmax b' hb' ((congrArg BucketKey.run hkey').trans hbrun)
    ((congrArg BucketKey.slot hkey').trans hbslot)
  have hidx : (bucketOf bucketS b).idx ≤ k.idx := by
    rw [← hkey']
    exact Nat.div_le_div_right (Nat.floor_le_floor hle)
  rcases hidx.eq_or_lt with heq | hlt
  · refine hamax b (mem_under.2 ⟨hb, ?_⟩)
    exact BucketKey.ext (hbrun.trans hrun.symm) (hbslot.trans hslot.symm) heq
  · calc b.ts ≤ (((bucketOf bucketS b).idx + 1) * bucketS : ℕ) := (lt_floor_succ hpos b).le
      _ ≤ k.floor bucketS := floor_le_floor hlt
      _ ≤ a.ts := hkey ▸ floor_bucketOf_le a

/-- Rows that are not old enough stay the latest of their slot. -/
lemma latest_rollUp_of_new (hpos : 0 < bucketS) (h : s ∈ latest run slot table)
    (hnew : before ≤ s.ts) :
    latest run slot (rollUp bucketS before table) = latest run slot table := by
  rw [latest_rollUp hpos before h, latest_eq_peaks_under bucketS h]
  rw [latest_eq_peaks_under bucketS h] at h
  unfold rollBucket
  split_ifs with hfew
  · rfl
  obtain ⟨m, hm⟩ := length_pos_iff_exists_mem.1 (lt_of_lt_of_le Nat.zero_lt_two (not_lt.1 hfew))
  obtain ⟨hm, hold⟩ := mem_filter.1 hm
  obtain ⟨a, ha⟩ := exists_aggregateBucket bucketS (bucketOf bucketS s)
    (ne_nil_of_length_pos (lt_of_lt_of_le Nat.zero_lt_two (not_lt.1 hfew)))
  have hlt : a.ts < s.ts := by
    rw [(aggregated ha).ts]
    exact (floor_le_of_mem_under hm).trans_lt ((of_decide_eq_true hold).trans_le hnew)
  rw [ha, Option.toList_some, peaks_append_of_lt]
  · refine peaks_filter h fun b hb => decide_eq_true (not_lt.2 ?_)
    exact hnew.trans (rank_eq_of_mem_peaks h hb).le
  · intro b hb
    rw [mem_singleton.1 hb]
    exact ⟨s, mem_filter.2 ⟨(mem_peaks.1 h).1, decide_eq_true (not_lt.2 hnew)⟩, hlt⟩

lemma latest_rollUp_of_old (hpos : 0 < bucketS) (h : s ∈ latest run slot table)
    (hold : s.ts < before) :
    (latest run slot table = [s] ∧ latest run slot (rollUp bucketS before table) = [s]) ∨
      ∃ a last, latest run slot (rollUp bucketS before table) = [a] ∧
        (latest run slot table).getLast? = some last ∧ a.counters = last.counters := by
  rw [latest_rollUp hpos before h, latest_eq_peaks_under bucketS h]
  rw [latest_eq_peaks_under bucketS h] at h
  obtain ⟨hs, hmax⟩ := mem_peaks.1 h
  set rows := under (bucketOf bucketS) (bucketOf bucketS s) table
  rw [rollBucket_of_all fun b hb => (hmax b hb).trans_lt hold]
  by_cases hfew : rows.length < 2
  · left
    rw [wholeBucket, if_pos hfew, and_self]
    have hone : rows = [s] := by
      obtain ⟨a, ha⟩ := length_eq_one_iff.1
        (le_antisymm (Nat.le_of_lt_succ hfew) (length_pos_of_mem hs))
      rw [ha] at hs ⊢
      rw [mem_singleton.1 hs]
    rw [hone]
    simp [peaks]
  · right
    obtain ⟨a, ha, hagg⟩ := wholeBucket_of_two bucketS (bucketOf bucketS s) (not_lt.1 hfew)
    obtain ⟨last, hlast, hcounters⟩ := hagg.counters
    exact ⟨a, last, by rw [ha]; simp [peaks], hlast, hcounters⟩

lemma latest_eq_nil : latest run slot table = [] ↔ ∀ s ∈ table, s.run = run → s.slot ≠ slot := by
  simp [latest, peaks_eq_nil]

/-- A slot without rows stays without. -/
lemma latest_rollUp_of_nil (hpos : 0 < bucketS) (h : latest run slot table = []) :
    latest run slot (rollUp bucketS before table) = [] := by
  rw [latest_eq_nil] at h ⊢
  intro s hs hrun hslot
  obtain ⟨s', hs', hkey, -⟩ := mem_rollUp_later hpos hs
  exact h s' hs' ((congrArg BucketKey.run hkey).trans hrun)
    ((congrArg BucketKey.slot hkey).trans hslot)

lemma latest_prune_of_le (h : s ∈ latest run slot table) (hle : before ≤ s.ts) :
    latest run slot (prune before table) = latest run slot table := by
  have hrows : (prune before table).filter (fun s => s.run = run ∧ s.slot = slot) =
      (table.filter fun s => s.run = run ∧ s.slot = slot).filter fun s => before ≤ s.ts := by
    rw [prune, filter_filter, filter_filter]
    exact filter_congr fun b _ => Bool.and_comm _ _
  rw [latest, hrows]
  exact peaks_filter h fun b hb => decide_eq_true (hle.trans (rank_eq_of_mem_peaks h hb).le)

lemma latest_prune_of_lt (h : s ∈ latest run slot table) (hlt : s.ts < before) :
    latest run slot (prune before table) = [] := by
  rw [latest_eq_nil]
  intro b hb hrun hslot
  obtain ⟨hb, hkept⟩ := mem_filter.1 hb
  have hle := (mem_latest.1 h).2.2.2 b hb hrun hslot
  exact absurd (of_decide_eq_true hkept) (not_le.2 (hle.trans_lt hlt))

lemma latest_prune_of_nil (h : latest run slot table = []) :
    latest run slot (prune before table) = [] := by
  rw [latest_eq_nil] at h ⊢
  exact fun s hs => h s (mem_of_mem_filter hs)

lemma latest_prune (run slot : ℕ) (before : Time) (table : List SampleRow) :
    latest run slot (prune before table) = latest run slot table ∨
    latest run slot (prune before table) = [] := by
  cases h : latest run slot table with
  | nil => exact .inr (latest_prune_of_nil h)
  | cons s rest =>
    have hs : s ∈ latest run slot table := h ▸ mem_cons_self
    rw [← h]
    rcases le_or_gt before s.ts with hle | hlt
    · exact .inl (latest_prune_of_le hs hle)
    · exact .inr (latest_prune_of_lt hs hlt)

lemma latest_rollUp_cases (hpos : 0 < bucketS) (run slot : ℕ) (before : Time)
    (table : List SampleRow) :
    latest run slot (rollUp bucketS before table) = latest run slot table ∨
      (latest run slot (rollUp bucketS before table)).length ≤ 1 := by
  cases h : latest run slot table with
  | nil => exact .inl (latest_rollUp_of_nil hpos h)
  | cons s rest =>
    have hs : s ∈ latest run slot table := h ▸ mem_cons_self
    rw [← h]
    rcases le_or_gt before s.ts with hnew | hold
    · exact .inl (latest_rollUp_of_new hpos hs hnew)
    · rcases latest_rollUp_of_old hpos hs hold with ⟨-, hone⟩ | ⟨a, last, hone, -⟩
      all_goals exact .inr (by rw [hone]; exact le_rfl)

end

/-! ### The shown totals -/

/-- The rows of a run, as its totals read them. -/
def samplesOf (run : ℕ) (table : List SampleRow) : List MetricSample :=
  (table.filter fun s => s.run = run).map SampleRow.toMetricSample

lemma newestSample_samplesOf (run slot : ℕ) (table : List SampleRow) :
    newestSample slot (samplesOf run table) =
      (latest run slot table).head?.map SampleRow.toMetricSample := by
  have hrows : (samplesOf run table).filter (·.slot = slot) =
      (table.filter fun s => s.run = run ∧ s.slot = slot).map SampleRow.toMetricSample := by
    rw [samplesOf, filter_map, filter_filter]
    congr 1
    refine filter_congr fun s _ => ?_
    rw [Bool.decide_and, Bool.and_comm]
    rfl
  unfold newestSample
  rw [hrows]
  rw [foldl_best MetricSample.ts (fun _ => rfl) (fun _ _ h => if_pos h) fun _ _ h =>
    if_neg (not_lt.2 h)]
  rw [peaks_map, head?_map]
  rfl

lemma liveTotals_congr {db : Db} {samples samples' : List MetricSample}
    (h : ∀ slot, (newestSample slot samples).map MetricSample.counters =
      (newestSample slot samples').map MetricSample.counters) :
    liveTotals { db with samples := samples } = liveTotals { db with samples := samples' } := by
  unfold liveTotals
  congr 1
  funext totals lease
  have hslot := h lease.slot
  cases hnew : newestSample lease.slot samples with
  | none =>
    rw [hnew] at hslot
    rw [Option.map_eq_none_iff.1 hslot.symm]
  | some sample =>
    rw [hnew] at hslot
    obtain ⟨sample', hnew', hcounters⟩ := Option.map_eq_some_iff.1 hslot.symm
    rw [hnew']
    dsimp only
    rw [addSample, addSample, hcounters]

end Stoker
