import Stoker.Server.LatestRow
import Stoker.Server.System

/-!
# When maintenance runs

Samples are rolled up by whatever passes happen to run. A bucket comes out as a single pass would
leave it exactly when no earlier pass found a part of it old enough, and a pass leaves the shown
totals of a run alone unless two samples of a slot share its latest instant.
-/

open List

namespace Stoker

open Grouping

/-! ### The rows of a bucket -/

/-- The columns of a sample that decide where it goes. -/
def SampleRow.stamp (s : SampleRow) : ℕ × ℕ × Time := (s.run, s.slot, s.ts)

section

variable (settings : MaintenanceSettings) (earlier : List Time) (last : Time)
  (table : List SampleRow)

/-- Once all samples of a bucket are older than the roll-up cutoff, what the passes have left of it
is what the last pass alone leaves. Of a bucket that the prune cutoff has entered, samples are
deleted one by one: it is looked at before, and after its last sample is too old. -/
def ScheduleFree : Prop :=
  ∀ k, (∀ s ∈ under (bucketOf settings.bucketS) k table, s.ts < settings.rollupBefore last) →
    (settings.pruneBefore last ≤ k.floor settings.bucketS ∨
      ∀ s ∈ under (bucketOf settings.bucketS) k table, s.ts < settings.pruneBefore last) →
    under (bucketOf settings.bucketS) k (maintain settings (earlier ++ [last]) table) =
      under (bucketOf settings.bucketS) k (rollUpAndPrune settings table last)

/-- No pass but the last comes when a part of a bucket is old enough and a part is not, unless that
part is a single sample. -/
def Unsplit : Prop :=
  ∀ k, (∀ s ∈ under (bucketOf settings.bucketS) k table, s.ts < settings.rollupBefore last) →
    settings.pruneBefore last ≤ k.floor settings.bucketS →
    InOnePiece settings earlier ((under (bucketOf settings.bucketS) k table).map fun s => s.ts)

end

section

variable {settings : MaintenanceSettings} {earlier : List Time} {last : Time}
  {table table' : List SampleRow}
  {times : List Time} {k : BucketKey}

lemma mem_maintain_later {s : SampleRow} (h : s ∈ maintain settings times table) :
    ∃ s' ∈ table, bucketOf settings.bucketS s' = bucketOf settings.bucketS s ∧ s.ts ≤ s'.ts := by
  induction times using reverseRecOn generalizing s with
  | nil => exact ⟨s, h, rfl, le_rfl⟩
  | append_singleton times now ih =>
    rw [maintain, foldl_append] at h
    obtain ⟨m, hm, hkey, hle⟩ := mem_rollUp_later settings.bucketS_pos h
    obtain ⟨s', hs', hkey', hle'⟩ := ih (mem_of_mem_filter hm)
    exact ⟨s', hs', hkey'.trans hkey, hle.trans hle'⟩

lemma under_eq_nil_of_passed
    (h : ∀ s ∈ under (bucketOf settings.bucketS) k table, s.ts < settings.pruneBefore last) :
    under (bucketOf settings.bucketS) k (maintain settings (times ++ [last]) table) = [] := by
  rw [eq_nil_iff_forall_not_mem]
  intro s hs
  obtain ⟨hs, hk⟩ := mem_under.1 hs
  rw [maintain, foldl_append] at hs
  obtain ⟨m, hm, hkey, -⟩ := mem_rollUp_later settings.bucketS_pos hs
  obtain ⟨hm, hkept⟩ := mem_filter.1 hm
  obtain ⟨s', hs', hkey', hle⟩ := mem_maintain_later hm
  have hlt := h s' (mem_under.2 ⟨hs', hkey'.trans (hkey.trans hk)⟩)
  exact absurd (hle.trans_lt hlt) (not_lt.2 (of_decide_eq_true hkept))

lemma le_last (hsorted : (earlier ++ [last]).Pairwise (· ≤ ·)) {now : Time}
    (h : now ∈ earlier ++ [last]) : now ≤ last := by
  rcases mem_append.1 h with h | h
  · exact (pairwise_append.1 hsorted).2.2 now h last (mem_singleton.2 rfl)
  · rw [mem_singleton.1 h]

/-- What passes leave of a bucket that no prune has reached, and what the last of them alone
leaves. -/
lemma under_maintain_last (hsorted : (earlier ++ [last]).Pairwise (· ≤ ·))
    (hold : ∀ s ∈ under (bucketOf settings.bucketS) k table, s.ts < settings.rollupBefore last)
    (hreach : settings.pruneBefore last ≤ k.floor settings.bucketS) :
    under (bucketOf settings.bucketS) k (maintain settings (earlier ++ [last]) table) =
        rollAll settings k (earlier ++ [last]) (under (bucketOf settings.bucketS) k table) ∧
      under (bucketOf settings.bucketS) k (rollUpAndPrune settings table last) =
        wholeBucket settings.bucketS k (under (bucketOf settings.bucketS) k table) := by
  constructor
  · refine under_maintain (fun now hnow => ?_) table
    exact (sub_le_sub_right (le_last hsorted hnow) _).trans hreach
  · change under _ k (maintain settings ([] ++ [last]) table) = _
    rw [under_maintain (by simpa using hreach), rollAll_of_inOnePiece (inOnePiece_nil _) hold]

lemma scheduleFree_of_unsplit (hsorted : (earlier ++ [last]).Pairwise (· ≤ ·))
    (h : Unsplit settings earlier last table) : ScheduleFree settings earlier last table := by
  intro k hold hprune
  rcases hprune with hreach | hpassed
  · obtain ⟨hrun, hone⟩ := under_maintain_last hsorted hold hreach
    rw [hrun, hone, rollAll_of_inOnePiece (h k hold hreach) hold]
  · change _ = under _ k (maintain settings ([] ++ [last]) table)
    rw [under_eq_nil_of_passed hpassed, under_eq_nil_of_passed hpassed]

/-! Samples with the same stamps are in the same buckets. -/

lemma map_under_congr (h : table'.map SampleRow.stamp = table.map SampleRow.stamp) (k : BucketKey)
    (bucketS : ℕ) :
    ((under (bucketOf bucketS) k table').map fun s => s.ts) =
      (under (bucketOf bucketS) k table).map fun s => s.ts := by
  have hstamps : ∀ t : List SampleRow, (under (bucketOf bucketS) k t).map (fun s => s.ts) =
      ((t.map SampleRow.stamp).filter fun p =>
        (⟨p.1, p.2.1, ⌊p.2.2⌋₊ / bucketS⟩ : BucketKey) = k).map
        fun p => p.2.2 := by
    intro t
    rw [filter_map, map_map]
    rfl
  rw [hstamps, hstamps, h]

lemma Unsplit.congr (h : table'.map SampleRow.stamp = table.map SampleRow.stamp)
    (hunsplit : Unsplit settings earlier last table) : Unsplit settings earlier last table' := by
  intro k hold hreach
  rw [map_under_congr h k]
  refine hunsplit k ?_ hreach
  rw [← forall_mem_map (f := fun s : SampleRow => s.ts) (P := (· < settings.rollupBefore last))]
    at hold ⊢
  rwa [← map_under_congr h k]

/-- The sample with every gauge zero before an instant and one from then on. -/
def SampleRow.mark (cut : Time) (s : SampleRow) : SampleRow :=
  { s with gauges := fun _ => some (if s.ts < cut then 0 else 1) }

lemma under_map_mark (cut : Time) (k : BucketKey) (bucketS : ℕ) :
    under (bucketOf bucketS) k (table.map (SampleRow.mark cut)) =
      (under (bucketOf bucketS) k table).map (SampleRow.mark cut) := by
  rw [under, filter_map]
  rfl

lemma marked_map (cut : Time) (k : BucketKey) {bucketS : ℕ}
    (hold : ∃ s ∈ under (bucketOf bucketS) k table, s.ts < cut) :
    Marked bucketS k cut (((under (bucketOf bucketS) k table).filter fun s => ¬s.ts < cut).map
      (SampleRow.mark cut)) ((under (bucketOf bucketS) k table).map (SampleRow.mark cut)) := by
  refine ⟨?_, ?_, ?_, ?_⟩
  · rw [forall_mem_map]
    exact fun s _ => rfl
  · rw [filter_map]
    rfl
  · obtain ⟨s, hs, hlt⟩ := hold
    exact ⟨_, mem_map_of_mem hs, hlt⟩
  · rw [forall_mem_map]
    exact fun s hs => show k.floor bucketS ≤ s.ts from floor_le_of_mem_under hs

/-- Of the elements with a property, there is a last one. -/
lemma exists_last_mem {α : Type*} {p : α → Prop} {l : List α} (h : ∃ a ∈ l, p a) :
    ∃ l₁ a l₂, l = l₁ ++ a :: l₂ ∧ p a ∧ ∀ b ∈ l₂, ¬p b := by
  induction l with
  | nil => exact absurd h (by simp)
  | cons x l ih =>
    by_cases hl : ∃ a ∈ l, p a
    · obtain ⟨l₁, a, l₂, rfl, ha, hrest⟩ := ih hl
      exact ⟨x :: l₁, a, l₂, rfl, ha, hrest⟩
    · push Not at hl
      obtain ⟨a, ha, hp⟩ := h
      rcases mem_cons.1 ha with rfl | ha
      · exact ⟨[], a, l, rfl, hp, hl⟩
      · exact absurd hp (hl a ha)

/-- If a pass cuts a bucket, there are samples for which that shows in the end. -/
lemma unsplit_of_scheduleFree (hsorted : (earlier ++ [last]).Pairwise (· ≤ ·))
    (h : ∀ table', table'.map SampleRow.stamp = table.map SampleRow.stamp →
      ScheduleFree settings earlier last table') : Unsplit settings earlier last table := by
  intro k hold hreach
  by_contra hsplit
  rw [inOnePiece_rows] at hsplit
  push Not at hsplit
  -- the last pass that cuts the bucket; all those after it find the whole of it
  obtain ⟨before, now, after, rfl, ⟨htwo, y, hy, hyoung⟩, hafter⟩ := exists_last_mem hsplit
  obtain ⟨-, hfrom, hupto⟩ := pairwise_append.1 (pairwise_append.1 hsorted).1
  set cut := settings.rollupBefore now
  have hstamps : (table.map (SampleRow.mark cut)).map SampleRow.stamp =
      table.map SampleRow.stamp := by
    rw [map_map]
    rfl
  have hold' : ∀ s ∈ under (bucketOf settings.bucketS) k (table.map (SampleRow.mark cut)),
      s.ts < settings.rollupBefore last := by
    rw [under_map_mark, forall_mem_map]
    exact hold
  obtain ⟨hrun, hone⟩ := under_maintain_last hsorted hold' hreach
  have hsame := h _ hstamps k hold' (.inl hreach)
  rw [hrun, hone, under_map_mark] at hsame
  have hold₀ : ∃ s ∈ under (bucketOf settings.bucketS) k table, s.ts < cut := by
    obtain ⟨s, hs⟩ := length_pos_iff_exists_mem.1 (lt_of_lt_of_le Nat.zero_lt_two htwo)
    exact ⟨s, mem_of_mem_filter hs, by simpa using (mem_filter.1 hs).2⟩
  refine rollAll_of_cut (marked_map cut k hold₀) ?_ ?_ ?_ ?_ hsame
  · refine ne_nil_of_mem (mem_map_of_mem (mem_filter.2 ⟨hy, ?_⟩))
    simpa using hyoung
  · rw [filter_map, length_map]
    exact htwo
  · exact fun t ht => sub_le_sub_right (hupto t ht now mem_cons_self) _
  · intro t ht
    rw [forall_mem_map]
    rcases mem_append.1 ht with ht | ht
    · -- at least as much as before is old enough, so it is all of it
      have hle : cut ≤ settings.rollupBefore t :=
        sub_le_sub_right ((pairwise_cons.1 hfrom).1 t ht) _
      have hmore := (monotone_filter_right (under (bucketOf settings.bucketS) k table)
        (p := fun s => decide (s.ts < cut)) (q := fun s => decide (s.ts < settings.rollupBefore t))
        fun s hs => decide_eq_true ((of_decide_eq_true hs).trans_le hle)).length_le
      have hall := hafter t ht
      push Not at hall
      exact hall (htwo.trans hmore)
    · rw [mem_singleton.1 ht]
      exact hold

end

/-! ### The shown totals -/

section

variable (settings : MaintenanceSettings) (times : List Time) (table : List SampleRow)

/-- No pass of the roll-up changes what is shown of any run. -/
def KeepsLiveTotals : Prop :=
  ∀ earlier now later, times = earlier ++ now :: later → ∀ (db : Db) (run : ℕ),
    liveTotals { db with samples := samplesOf run (rollUpAndPrune settings
      (maintain settings earlier table) now) } =
      liveTotals { db with
        samples := samplesOf run (prune (settings.pruneBefore now)
          (maintain settings earlier table)) }

/-- Where several samples share the latest instant of a slot, no pass rolls them up. -/
def Untied : Prop :=
  ∀ run slot, 2 ≤ (latest run slot table).length → ∀ s ∈ latest run slot table, ∀ now ∈ times,
    settings.pruneBefore now ≤ s.ts → settings.rollupBefore now ≤ s.ts

end

section

variable {settings : MaintenanceSettings} {times : List Time} {table table' : List SampleRow}
  {run slot : ℕ}
  {s : SampleRow}

lemma KeepsLiveTotals.of_append {more : List Time}
    (h : KeepsLiveTotals settings (times ++ more) table) :
    KeepsLiveTotals settings times table := by
  rintro earlier now later rfl
  exact h earlier now (later ++ more) (by simp)

lemma maintain_concat (times : List Time) (now : Time) (table : List SampleRow) :
    maintain settings (times ++ [now]) table =
      rollUpAndPrune settings (maintain settings times table) now := by
  rw [maintain, foldl_append]
  rfl

lemma latest_maintain (run slot : ℕ) (times : List Time) (table : List SampleRow) :
    latest run slot (maintain settings times table) = latest run slot table ∨
      (latest run slot (maintain settings times table)).length ≤ 1 := by
  induction times using reverseRecOn with
  | nil => exact .inl rfl
  | append_singleton times now ih =>
    rw [maintain_concat]
    rcases latest_rollUp_cases settings.bucketS_pos run slot (settings.rollupBefore now)
      (prune (settings.pruneBefore now) (maintain settings times table)) with hsame | hone
    · rw [rollUpAndPrune, hsame]
      rcases latest_prune run slot (settings.pruneBefore now) (maintain settings times table)
        with hsame | hnil
      · rw [hsame]
        exact ih
      · rw [hnil]
        exact .inr (Nat.zero_le _)
    · exact .inr hone

lemma keepsLiveTotals_of_untied (h : Untied settings times table) :
    KeepsLiveTotals settings times table := by
  rintro earlier now later rfl db run
  refine liveTotals_congr fun slot => ?_
  rw [newestSample_samplesOf, newestSample_samplesOf, rollUpAndPrune]
  set pruned := prune (settings.pruneBefore now) (maintain settings earlier table) with hpruned
  cases hlatest : latest run slot pruned with
  | nil => rw [latest_rollUp_of_nil settings.bucketS_pos hlatest]
  | cons s rest =>
    have hs : s ∈ latest run slot pruned := hlatest ▸ mem_cons_self
    rcases le_or_gt (settings.rollupBefore now) s.ts with hnew | hold
    · rw [latest_rollUp_of_new settings.bucketS_pos hs hnew, hlatest]
    rcases latest_rollUp_of_old settings.bucketS_pos hs hold
      with ⟨hone, hone'⟩ | ⟨a, last, hone, hlast, hcounters⟩
    · rw [hone', ← hlatest, hone]
    · have hsingle : rest = [] := by
        by_contra hrest
        have htwo : 2 ≤ (latest run slot pruned).length := by
          rw [hlatest, length_cons]
          exact Nat.succ_le_succ (length_pos_iff.2 hrest)
        have hfull : latest run slot pruned = latest run slot table := by
          rcases latest_prune run slot (settings.pruneBefore now) (maintain settings earlier table)
            with hsame | hnil
          · rw [hpruned, hsame] at htwo ⊢
            exact (latest_maintain run slot earlier table).resolve_right (by omega)
          · rw [hpruned, hnil] at htwo
            exact absurd htwo (by simp)
        have hkept : settings.pruneBefore now ≤ s.ts :=
          of_decide_eq_true (mem_filter.1 (mem_latest.1 hs).1).2
        rw [hfull] at htwo hs
        exact absurd (h run slot htwo s hs now (by simp) hkept) (not_le.2 hold)
      rw [hlatest, hsingle, getLast?_singleton, Option.some_inj] at hlast
      rw [hone, head?_cons, head?_cons, Option.map_some, Option.map_some, Option.map_some,
        Option.map_some, hcounters, hlast]

lemma map_latest_congr (h : table'.map SampleRow.stamp = table.map SampleRow.stamp) (run slot : ℕ) :
    ((latest run slot table').map fun s => s.ts) = (latest run slot table).map fun s => s.ts := by
  have hstamps : ∀ t : List SampleRow, (latest run slot t).map (fun s => s.ts) =
      peaks id (((t.map SampleRow.stamp).filter fun p => p.1 = run ∧
        p.2.1 = slot).map fun p => p.2.2) := by
    intro t
    rw [filter_map, map_map, peaks_map]
    rfl
  rw [hstamps, hstamps, h]

lemma Untied.congr (h : table'.map SampleRow.stamp = table.map SampleRow.stamp)
    (huntied : Untied settings times table) : Untied settings times table' := by
  intro run slot htwo s hs
  have hmap := map_latest_congr h run slot
  have hlength : (latest run slot table').length = (latest run slot table).length := by
    simpa using congrArg length hmap
  obtain ⟨s', hs', hts⟩ : ∃ s' ∈ latest run slot table, s'.ts = s.ts :=
    mem_map.1 (hmap ▸ mem_map_of_mem hs)
  rw [hlength] at htwo
  rw [← hts]
  exact huntied run slot htwo s' hs'

lemma latest_maintain_of_new (hs : s ∈ latest run slot table)
    (h : ∀ now ∈ times, settings.pruneBefore now ≤ s.ts ∧ settings.rollupBefore now ≤ s.ts) :
    latest run slot (maintain settings times table) = latest run slot table := by
  induction times using reverseRecOn with
  | nil => rfl
  | append_singleton times now ih =>
    have hsame := ih fun t ht => h t (mem_append_left _ ht)
    obtain ⟨hprune, hroll⟩ := h now (by simp)
    rw [← hsame] at hs
    have hpruned := latest_prune_of_le hs hprune
    rw [← hpruned] at hs
    rw [maintain_concat, rollUpAndPrune, latest_rollUp_of_new settings.bucketS_pos hs hroll,
      hpruned, hsame]

/-- A run with one slot that is not done, and nothing folded yet. -/
def pendingDb (slot : ℕ) : Db :=
  { plainDb 1 with
    leases := [{ id := 0, slot := slot, share := ShareJson.ofPublic [], leaseId := 0 }] }

/-- What is shown of its events is what the newest sample of the slot says. -/
lemma eventsTotal_of_liveTotals {samples samples' : List MetricSample}
    (h : liveTotals { pendingDb slot with samples := samples } =
      liveTotals { pendingDb slot with samples := samples' }) :
    reported samples "events_total" slot = reported samples' "events_total" slot := by
  have hcounted : (pendingDb slot).run.totals.Counted := fun _ _ _ hget => nomatch hget
  have hadds : ∀ samples, ∃ shown, liveTotals { pendingDb slot with samples := samples } =
      .ok shown ∧
      Totals.Adds (fun name => Db.pending name { pendingDb slot with samples := samples })
        (pendingDb slot).run.totals shown := fun samples => liveTotals_adds hcounted
  obtain ⟨shown, hshown, hadds₁⟩ := hadds samples
  obtain ⟨shown', hshown', hadds₂⟩ := hadds samples'
  rw [h, hshown'] at hshown
  cases hshown
  have hsum := (hadds₁.count "events_total" (by decide)).symm.trans
      (hadds₂.count "events_total" (by decide))
  simpa [Db.pending, pendingDb] using hsum

/-- The samples with their place in the table as their events. -/
def numbered (table : List SampleRow) : List SampleRow :=
  table.zipIdx.map fun p => { p.1 with counters := { eventsTotal := some p.2 } }

lemma stamps_numbered (table : List SampleRow) :
    (numbered table).map SampleRow.stamp = table.map SampleRow.stamp := by
  rw [numbered, map_map]
  change table.zipIdx.map (SampleRow.stamp ∘ Prod.fst) = _
  rw [← map_map, zipIdx_map_fst]

lemma count_eventsTotal (c : Counters) : c.count "events_total" = (c.eventsTotal.getD 0 : ℤ) := rfl

lemma pairwise_numbered (table : List SampleRow) : (numbered table).Pairwise fun s s' =>
    s.counters.count "events_total" < s'.counters.count "events_total" := by
  have hplaces : table.zipIdx.Pairwise fun p q => p.2 < q.2 := by
    rw [← pairwise_map (f := Prod.snd) (R := (· < ·)), zipIdx_map_snd]
    exact pairwise_lt_range' ..
  rw [numbered, pairwise_map]
  refine hplaces.imp fun h => ?_
  rw [count_eventsTotal, count_eventsTotal]
  simpa using h

/-- A pass that rolls up samples which share the latest instant of a slot shows the last of them for
the first. -/
lemma rollupBefore_le_of_keeps {now : Time} (htwo : 2 ≤ (latest run slot (numbered table)).length)
    (hs : s ∈ latest run slot (numbered table))
    (h : ∀ t ∈ times, settings.pruneBefore t ≤ s.ts ∧ settings.rollupBefore t ≤ s.ts)
    (hprune : settings.pruneBefore now ≤ s.ts)
    (hkeeps : KeepsLiveTotals settings (times ++ [now]) (numbered table)) :
    settings.rollupBefore now ≤ s.ts := by
  by_contra hold
  have hsame := latest_maintain_of_new hs h
  have hpruned := latest_prune_of_le (hsame ▸ hs) hprune
  rw [hsame] at hpruned
  have hs' := hpruned.symm ▸ hs
  have hshown := eventsTotal_of_liveTotals (hkeeps times now [] rfl (pendingDb slot) run)
  rw [reported, reported, newestSample_samplesOf, newestSample_samplesOf, rollUpAndPrune, hpruned]
    at hshown
  rcases latest_rollUp_of_old settings.bucketS_pos hs' (not_le.1 hold)
    with ⟨hone, -⟩ | ⟨a, last, hone, hlast, hcounters⟩
  · rw [hpruned] at hone
    rw [hone] at htwo
    exact absurd htwo (by simp)
  rw [hpruned] at hlast
  have hsub : (latest run slot (numbered table)).Sublist (numbered table) :=
    filter_sublist.trans filter_sublist
  have hsorted := (pairwise_numbered table).sublist hsub
  cases hlatest : latest run slot (numbered table) with
  | nil =>
    rw [hlatest] at hs
    cases hs
  | cons first rest =>
    rw [hlatest] at hsorted hlast htwo hshown
    have hlt : first.counters.count "events_total" < last.counters.count "events_total" := by
      refine (pairwise_cons.1 hsorted).1 last ?_
      have hrest : rest ≠ [] := ne_nil_of_length_pos (Nat.le_of_succ_le_succ htwo)
      rw [getLast?_cons, getLast?_eq_some_getLast hrest] at hlast
      cases hlast
      exact getLast_mem hrest
    rw [hone, head?_cons, head?_cons] at hshown
    have hsum : a.counters.count "events_total" = first.counters.count "events_total" := hshown
    rw [hcounters] at hsum
    exact hlt.ne' hsum

/-- If a pass rolls up samples that share the latest instant of a slot, that can show. -/
lemma untied_of_keepsLiveTotals (hsorted : times.Pairwise (· ≤ ·))
    (h : ∀ table', table'.map SampleRow.stamp = table.map SampleRow.stamp →
      KeepsLiveTotals settings times table') : Untied settings times table := by
  have hkeeps := h (numbered table) (stamps_numbered table)
  clear h
  have huntied : Untied settings times (numbered table) := by
    intro run slot htwo s hs
    induction times using reverseRecOn with
    | nil => exact fun now hnow => absurd hnow not_mem_nil
    | append_singleton times last ih =>
      obtain ⟨hbefore, -, hlast⟩ := pairwise_append.1 hsorted
      have hyoung := ih hbefore hkeeps.of_append
      intro now hnow hprune
      rcases mem_append.1 hnow with hnow | hnow
      · exact hyoung now hnow hprune
      · rw [mem_singleton.1 hnow] at hprune ⊢
        refine rollupBefore_le_of_keeps htwo hs (fun t ht => ?_) hprune hkeeps
        -- what this pass does not prune, no earlier one has pruned
        have hle := (sub_le_sub_right (hlast t ht last (mem_singleton.2 rfl)) _).trans hprune
        exact ⟨hle, hyoung t ht hle⟩
  exact huntied.congr (stamps_numbered table).symm

end

/-- Whatever the samples report, the passes leave of every bucket what the last of them alone leaves
and change no shown totals, exactly when no earlier pass came while a bucket was old enough in part,
and none rolled up samples that share the latest instant of a slot. -/
theorem roll_up_schedule_free_iff (settings : MaintenanceSettings) {earlier : List Time}
    {last : Time} (hsorted : (earlier ++ [last]).Pairwise (· ≤ ·)) (table : List SampleRow) :
    (∀ table', table'.map SampleRow.stamp = table.map SampleRow.stamp →
        ScheduleFree settings earlier last table' ∧
        KeepsLiveTotals settings (earlier ++ [last]) table') ↔
      Unsplit settings earlier last table ∧ Untied settings (earlier ++ [last]) table := by
  constructor
  · intro h
    exact ⟨unsplit_of_scheduleFree hsorted fun table' hstamps => (h table' hstamps).1,
      untied_of_keepsLiveTotals hsorted fun table' hstamps => (h table' hstamps).2⟩
  · rintro ⟨hunsplit, huntied⟩ table' hstamps
    exact ⟨scheduleFree_of_unsplit hsorted (hunsplit.congr hstamps),
      keepsLiveTotals_of_untied (huntied.congr hstamps)⟩

/-- Maintenance in buckets of a minute, as soon as samples are there. -/
def minutely : MaintenanceSettings where
  metricRollupAfter := 0
  metricPruneAfter := 1000
  metricRollupBucketS := 60

/-- A sample of the first slot. -/
def sampleAt (ts : ℕ) (eps : ℚ) : SampleRow where
  run := 1
  slot := 0
  ts := ts
  counters := {}
  gauges := fun _ => some eps
  epoch := Nat.cast_nonneg ts

theorem roll_up_schedule_free_passes :
    ([(15 : Time), 30] ++ [60]).Pairwise (· ≤ ·) ∧
      ∀ table', table'.map SampleRow.stamp = [sampleAt 10 0, sampleAt 20 3].map SampleRow.stamp →
        ScheduleFree minutely [15, 30] 60 table' ∧
        KeepsLiveTotals minutely ([15, 30] ++ [60]) table' := by
  have hsorted : ([(15 : Time), 30] ++ [60]).Pairwise (· ≤ ·) := by decide +kernel
  refine ⟨hsorted, (roll_up_schedule_free_iff minutely hsorted [sampleAt 10 0, sampleAt 20 3]).2
    ⟨?_, ?_⟩⟩
  · intro k _ _
    by_cases hk : k = ⟨1, 0, 0⟩
    · rw [hk]
      unfold InOnePiece
      decide +kernel
    · have hnone : under (bucketOf minutely.bucketS) k [sampleAt 10 0, sampleAt 20 3] = [] := by
        rw [under, filter_eq_nil_iff]
        have hfirst : ∀ s ∈ [sampleAt 10 0, sampleAt 20 3],
            bucketOf minutely.bucketS s = ⟨1, 0, 0⟩ := by
          decide +kernel
        intro s hs hkey
        exact hk ((of_decide_eq_true hkey).symm.trans (hfirst s hs))
      rw [hnone]
      exact fun now _ => .inl Nat.zero_lt_two
  · intro run slot htwo
    by_cases hslot : run = 1 ∧ slot = 0
    · obtain ⟨rfl, rfl⟩ := hslot
      exact absurd htwo (by decide +kernel)
    · have hnone : latest run slot [sampleAt 10 0, sampleAt 20 3] = [] := by
        rw [latest_eq_nil]
        have hfirst : ∀ s ∈ [sampleAt 10 0, sampleAt 20 3], s.run = 1 ∧ s.slot = 0 := by
          decide +kernel
        intro s hs hrun hs'
        exact hslot ⟨hrun ▸ (hfirst s hs).1, hs' ▸ (hfirst s hs).2⟩
      rw [hnone] at htwo
      cases htwo

/-- A pass after two samples of a minute and one after the third: the mean of a mean. -/
theorem rolled_up_in_two_passes :
    ((maintain minutely [15, 60] [sampleAt 0 0, sampleAt 10 0, sampleAt 20 3]).map fun s =>
      s.gauges .eps) =
        [some (3 / 2)] ∧
      ((maintain minutely [60] [sampleAt 0 0, sampleAt 10 0, sampleAt 20 3]).map fun s =>
        s.gauges .eps) =
        [some 1] ∧
      ¬ScheduleFree minutely [15] 60 [sampleAt 0 0, sampleAt 10 0, sampleAt 20 3] := by
  refine ⟨by decide +kernel, by decide +kernel, fun h => ?_⟩
  have hsame := congrArg (map fun s => s.gauges .eps)
    (h ⟨1, 0, 0⟩ (by decide +kernel) (.inl (by decide +kernel)))
  exact absurd hsame (by decide +kernel)

end Stoker
