import Stoker.Lifecycle.Heard
import Stoker.Lifecycle.Manned
import Stoker.Worker.Work

/-!
# The work of a fleet

A worker deals itself its work by the slot and the total of its own slice, which it was given when
it claimed. The control plane hands out the number of workers of the moment, and sends no slice
again when that number changes. So the live workers have everything once, between them, as long as
every slice in use was given out for the fleet's present size; a scale that finds a slot claimed
breaks that.
-/

open List

namespace Stoker

open Dealing Transition

/-! ### Slices -/

/-- The slices sent, in order. -/
def Sys.slices (s : Sys) : List Slice :=
  s.sent.filterMap fun
    | .slice _ slice => some slice
    | .reply _ _ _ => none

/-- The slice that was last given out under the id a lease has. -/
def Sys.sliceOf (l : Lease) (s : Sys) : Option Slice :=
  s.slices.reverse.find? (·.leaseId = l.leaseId)

def Sys.liveSlices (s : Sys) : List Slice :=
  s.db.leases.filterMap fun l => if l.state.live then s.sliceOf l else none

/-- Every slot has a live worker. -/
def Sys.AllLive (s : Sys) : Prop :=
  ∀ l ∈ s.db.leases, l.state.live = true ∧ (s.sliceOf l).isSome = true

instance (s : Sys) : Decidable s.AllLive :=
  inferInstanceAs (Decidable (∀ l ∈ s.db.leases, _))

variable {slice : Slice} {l : Lease} {db : Db}

lemma Sys.sliceOf_some {s : Sys} (h : s.sliceOf l = some slice) :
    slice ∈ s.slices ∧ slice.leaseId = l.leaseId :=
  ⟨mem_reverse.1 (mem_of_find?_eq_some h), by simpa using find?_some h⟩

lemma Sys.sliceOf_none {s : Sys} (h : s.sliceOf l = none) (hm : slice ∈ s.slices) :
    slice.leaseId ≠ l.leaseId := by
  have hno := find?_eq_none.1 h slice (mem_reverse.2 hm)
  simpa using hno

lemma Sys.slices_issued {s : Sys} (h : slice ∈ s.slices) :
    ∃ holder, (holder, slice.leaseId) ∈ s.issued := by
  obtain ⟨answer, ha, hslice⟩ := mem_filterMap.1 h
  cases answer with
  | reply slot leaseId reply => cases hslice
  | slice holder sent =>
    cases hslice
    exact ⟨holder, mem_filterMap.2 ⟨_, ha, rfl⟩⟩

/-- A step sends no slice, or is a claim that is answered with the slice of the row it took. -/
lemma Sys.step_slices (cfg : Settings) (a : Action) (s : Sys) :
    (Sys.step cfg a s).slices = s.slices ∨
    ∃ lease ∈ (Sys.step cfg a s).db.leases,
      (Sys.step cfg a s).slices = s.slices ++ [buildSlice (Sys.step cfg a s).db.run lease] := by
  rcases Sys.step_sent cfg a s with hsent | ⟨_, holder, _, db, slot, lease, _, _, hl, hdb, hsent⟩ |
    ⟨now, hb, _, _, hsent⟩
  · refine .inl ?_
    rw [Sys.slices, hsent]
    rfl
  · refine .inr ⟨lease, ?_, ?_⟩
    · rw [hdb]
      exact (findLease_some hl).1
    · rw [hdb, Sys.slices, hsent]
      simp [Sys.slices]
  · refine .inl ?_
    simp [Sys.slices, hsent]

/-! ### The size of the fleet -/

/-- The run keeps the number of its workers. -/
def WorkersKept (db db' : Db) : Prop := db'.run.snapshot.workers = db.run.snapshot.workers

/-- A step is a scale, or keeps the number of workers and the number of rows. -/
lemma Sys.step_size (cfg : Settings) (a : Action) (s : Sys) :
    (WorkersKept s.db (Sys.step cfg a s).db ∧
      (Sys.step cfg a s).db.leases.length = s.db.leases.length) ∨
    ∃ now workers env, a = .scale now workers env ∧
      scaleRunEndpoint now workers env s.db = .ok (Sys.step cfg a s).db := by
  refine (step_fleet cfg a s).imp_left fun hfleet => ?_
  rw [Db.fleet, Db.fleet, Prod.mk.injEq, Prod.mk.injEq] at hfleet
  exact ⟨hfleet.2.1, by simpa using congrArg length hfleet.1⟩

lemma scaleRunEndpoint_size {now : Time} {workers : ℕ} {env : Env} {db' : Db}
    (hs : db.leases.map (·.slot) = range db.leases.length)
    (h : scaleRunEndpoint now workers env db = .ok db') :
    0 < workers ∧ db'.run.snapshot.workers = workers ∧ db'.leases.length = workers := by
  obtain ⟨hpos, _, shares, _, rfl⟩ := scaleRunEndpoint_ok h
  refine ⟨hpos, rfl, ?_⟩
  have hslots : (resizeLeases workers db).leases.map (·.slot) = range workers :=
    Split.resizeLeases_slots hs
  have hlen := congrArg length hslots
  simpa [reshareAll] using hlen

/-! ### Slices for the present size -/

/-- A scale that changes the number of workers finds none of the slots it keeps claimed. -/
def ScalesUnclaimed (a : Action) (s : Sys) : Prop :=
  match a with
  | .scale _ workers _ => workers = s.db.run.snapshot.workers ∨
      ∀ l ∈ s.db.leases, l.slot < workers → s.sliceOf l = none
  | _ => True

instance (a : Action) (s : Sys) : Decidable (ScalesUnclaimed a s) :=
  match a with
  | .scale .. => inferInstanceAs (Decidable (_ ∨ ∀ l ∈ _, _ → _))
  | .launch .. | .claim .. | .ready .. | .release .. | .heartbeat .. | .final .. | .stop
      .. | .pause ..
  | .resume .. | .rescale .. | .tick .. | .reconcile .. => isTrue trivial

/-- There is a row for each worker, and every slice given out under an id that a row has is for that
row's slot and for the fleet's present size. -/
structure Sys.Dealt (s : Sys) : Prop where
  pos : 0 < s.db.run.snapshot.workers
  size : s.db.leases.length = s.db.run.snapshot.workers
  slices : ∀ l ∈ s.db.leases, ∀ slice ∈ s.slices, slice.leaseId = l.leaseId →
    slice.slot = l.slot ∧ slice.totalWorkers = s.db.run.snapshot.workers

namespace Sys.Dealt

variable {cfg : Settings} {a : Action} {s : Sys}

lemma start {now : Time} {spec : Snapshot} {db : Db} (hp : provisionRun now spec = .ok db) :
    (Sys.start db).Dealt := by
  obtain ⟨_, shares, hb, rfl⟩ := provisionRun_ok hp
  refine ⟨?_, ?_, fun l _ slice hslice => ?_⟩
  · -- an empty fleet is refused in every mode
    by_contra hzero
    have hlt : effectiveWorkers spec.engine spec.workers < 1 := by
      simpa [Sys.start, provisionedDb] using hzero
    simp only [buildShareList, apportionShares, if_pos hlt] at hb
    cases hb
  · have hlen := (buildShareList_shape hb).1
    simpa [Sys.start, provisionedDb, seedLeases] using hlen
  · simp [Sys.start, Sys.slices] at hslice

/-- What the slices given out before a step say of the rows after it. -/
lemma old_slices (h : s.Dealt) (hs : s.registry.Sound) (hg : ScalesUnclaimed a s) :
    ∀ l ∈ (Sys.step cfg a s).db.leases, ∀ slice ∈ s.slices, slice.leaseId = l.leaseId →
      slice.slot = l.slot ∧ slice.totalWorkers = (Sys.step cfg a s).db.run.snapshot.workers := by
  intro l hl slice hslice hid
  have hmove := step_move cfg a s hs
  rcases hmove.rows l.ident (mem_map_of_mem hl) with hold | ⟨hfresh, _⟩
  · obtain ⟨k, hk, hident⟩ := mem_map.1 hold
    have hslot : k.slot = l.slot := congrArg Prod.fst hident
    have hkid : slice.leaseId = k.leaseId := hid.trans (congrArg (·.2.1) hident).symm
    obtain ⟨hsl, htotal⟩ := h.slices k hk slice hslice hkid
    refine ⟨hsl.trans hslot, ?_⟩
    rcases Sys.step_size cfg a s with ⟨hkept, -⟩ | ⟨now, workers, env, rfl, hscale⟩
    · rw [htotal, hkept]
    · obtain ⟨_, hw, hlen⟩ := scaleRunEndpoint_size (Sys.slots_eq hs) hscale
      rcases hg with heq | hnone
      · rw [htotal, hw, heq]
      · -- the row is one of those kept, and no slice was given out for it
        have hlt : l.slot < workers := by
          have hmem : l.slot ∈ (Sys.step cfg (.scale now workers env) s).db.leases.map (·.slot) :=
            mem_map_of_mem hl
          rw [Sys.slots_eq (hs.move hmove), hlen] at hmem
          exact mem_range.1 hmem
        exact absurd hkid (Sys.sliceOf_none (hnone k hk (hslot.trans_lt hlt)) hslice)
  · obtain ⟨holder, hissued⟩ := Sys.slices_issued hslice
    have hlt : slice.leaseId < s.db.nextId := hs.issuedGenerated _ hissued
    rw [hid] at hlt
    exact absurd hlt (Nat.not_lt.2 hfresh)

lemma size_step (cfg : Settings) (a : Action) (h : s.Dealt) (hs : s.registry.Sound) :
    0 < (Sys.step cfg a s).db.run.snapshot.workers ∧
      (Sys.step cfg a s).db.leases.length = (Sys.step cfg a s).db.run.snapshot.workers := by
  rcases Sys.step_size cfg a s with ⟨hkept, hlen⟩ | ⟨now, workers, env, rfl, hscale⟩
  · rw [hlen, hkept]
    exact ⟨h.pos, h.size⟩
  · obtain ⟨hpos, hw, hlen⟩ := scaleRunEndpoint_size (Sys.slots_eq hs) hscale
    rw [hlen, hw]
    exact ⟨hpos, rfl⟩

lemma step (h : s.Dealt) (hs : s.registry.Sound) (hg : ScalesUnclaimed a s) :
    (Sys.step cfg a s).Dealt := by
  obtain ⟨hpos, hsize⟩ := size_step cfg a h hs
  refine ⟨hpos, hsize, fun l hl slice hslice hid => ?_⟩
  rcases Sys.step_slices cfg a s with hsame | ⟨lease, hmem, hnew⟩
  · rw [hsame] at hslice
    exact h.old_slices hs hg l hl slice hslice hid
  · rw [hnew] at hslice
    rcases mem_append.1 hslice with hold | hlast
    · exact h.old_slices hs hg l hl slice hold hid
    · -- the row the slice was built from is the one that has its id
      rw [mem_singleton.1 hlast] at hid ⊢
      have hs' := hs.move (step_move cfg a s hs)
      have hident : lease.ident = l.ident :=
        inj_on_of_nodup_map hs'.ids (mem_map_of_mem hmem) (mem_map_of_mem hl) hid
      exact ⟨congrArg Prod.fst hident, if_neg hpos.ne'⟩

end Sys.Dealt

/-! ### Live workers -/

/-- Elements that are taken or left one by one are in the order they were in. -/
lemma filterMap_sublist_map {α β : Type} {f : α → Option β} {g : α → β} {l : List α}
    (h : ∀ x ∈ l, ∀ y ∈ f x, y = g x) : (l.filterMap f).Sublist (l.map g) := by
  induction l with
  | nil => exact Sublist.slnil
  | cons x l ih =>
    have hrest := ih fun x hx => h x (mem_cons_of_mem _ hx)
    cases hf : f x with
    | none =>
      rw [filterMap_cons_none hf]
      exact hrest.cons _
    | some y =>
      rw [filterMap_cons_some hf, h x mem_cons_self y hf]
      exact hrest.cons_cons _

namespace Sys.Dealt

variable {s : Sys}

/-- Every live worker deals by the fleet's present size. -/
lemma total_eq (h : s.Dealt) (hm : slice ∈ s.liveSlices) :
    slice.totalWorkers = s.db.run.snapshot.workers := by
  obtain ⟨l, hl, hslice⟩ := mem_filterMap.1 hm
  split_ifs at hslice with hlive
  obtain ⟨hsent, hid⟩ := Sys.sliceOf_some hslice
  exact (h.slices l hl slice hsent hid).2

/-- The live workers have slots of the fleet, each another one. -/
lemma slots_sublist (h : s.Dealt) (hs : s.registry.Sound) :
    (s.liveSlices.map (·.slot)).Sublist (range s.db.run.snapshot.workers) := by
  rw [← h.size, ← Sys.slots_eq hs, Sys.liveSlices, map_filterMap]
  refine filterMap_sublist_map fun l hl slot hslot => ?_
  split_ifs at hslot with hlive
  · obtain ⟨slice, hslice, rfl⟩ := Option.map_eq_some_iff.1 hslot
    obtain ⟨hsent, hid⟩ := Sys.sliceOf_some hslice
    exact (h.slices l hl slice hsent hid).1
  · cases hslot

/-- When every slot has a live worker, their slots are those of the fleet. -/
lemma slots_all (h : s.Dealt) (hs : s.registry.Sound) (hall : s.AllLive) :
    s.liveSlices.map (·.slot) = range s.db.run.snapshot.workers := by
  refine (h.slots_sublist hs).eq_of_length ?_
  rw [length_map, length_range, ← h.size, Sys.liveSlices]
  refine filterMap_length_eq_length.2 fun l hl => ?_
  obtain ⟨hlive, hslice⟩ := hall l hl
  rw [if_pos hlive]
  exact hslice

lemma slot_lt (h : s.Dealt) (hs : s.registry.Sound) (hm : slice ∈ s.liveSlices) :
    slice.slot < s.db.run.snapshot.workers :=
  mem_range.1 ((h.slots_sublist hs).subset (mem_map_of_mem hm))

lemma disjoint (h : s.Dealt) (hs : s.registry.Sound) (n : ℕ) :
    s.liveSlices.Pairwise fun slice other =>
      List.Disjoint (positions slice.slot slice.totalWorkers n)
        (positions other.slot other.totalWorkers n) := by
  have hne : s.liveSlices.Pairwise fun slice other => slice.slot ≠ other.slot :=
    pairwise_map.1 ((h.slots_sublist hs).nodup nodup_range)
  refine hne.imp_of_mem fun hm hm' hslot => ?_
  rw [h.total_eq hm, h.total_eq hm']
  exact positions_disjoint (h.slot_lt hs hm) (h.slot_lt hs hm') hslot n

/-- What the live workers make of a list of series, by slot. -/
lemma metricsSeries_all {V : Type} [LinearOrder V] (h : s.Dealt) (hs : s.registry.Sound)
    (dims : List (Dimension V)) :
    s.liveSlices.mapM (fun slice => metricsSeries slice.slot slice.totalWorkers dims) =
      .ok ((s.liveSlices.map (·.slot)).map fun slot =>
        deal slot s.db.run.snapshot.workers (buildSeries dims)) := by
  rw [map_map]
  refine mapM_ok fun slice hm => ?_
  rw [h.total_eq hm]
  exact metricsSeries_ok (h.slot_lt hs hm) dims

/-- What the live workers make of a conf, by slot. -/
lemma rewriteCountInterval_all (h : s.Dealt) (hs : s.registry.Sound) (conf : List Stanza) :
    s.liveSlices.mapM (fun slice => rewriteCountInterval slice.slot slice.totalWorkers conf) =
      .ok ((s.liveSlices.map (·.slot)).map fun slot =>
        conf.map (Stanza.part slot s.db.run.snapshot.workers)) := by
  rw [map_map]
  refine mapM_ok fun slice hm => ?_
  rw [h.total_eq hm]
  exact rewriteCountInterval_ok (h.slot_lt hs hm) conf

end Sys.Dealt

/-- The work is split between the live workers. No two of them take one position of a list of
series; of the series they take none that is not there, and none more often, and between them all
slots take each once. Of a count that is split they take no more than it says, and between them all
slots all of it. -/
structure Sys.Partitioned (s : Sys) : Prop where
  disjoint : ∀ n, s.liveSlices.Pairwise fun slice other =>
    List.Disjoint (positions slice.slot slice.totalWorkers n)
      (positions other.slot other.totalWorkers n)
  series : ∀ (V : Type) [LinearOrder V] (dims : List (Dimension V)), ∃ shards,
    s.liveSlices.mapM (fun slice => metricsSeries slice.slot slice.totalWorkers dims) = .ok shards ∧
      shards.flatten.Subperm (buildSeries dims) ∧
      (s.AllLive → shards.flatten.Perm (buildSeries dims))
  counts : ∀ conf, ∃ confs,
    s.liveSlices.mapM (fun slice => rewriteCountInterval slice.slot slice.totalWorkers conf) =
      .ok confs ∧
      ∀ (i : ℕ) (stanza : Stanza) (n : ℕ), conf[i]? = some stanza → stanza.declared = some n →
        (confs.map (countAt i)).sum ≤ n ∧ (s.AllLive → (confs.map (countAt i)).sum = n)

namespace Sys.Dealt

variable {s : Sys}

lemma series (h : s.Dealt) (hs : s.registry.Sound) {V : Type} [LinearOrder V]
    (dims : List (Dimension V)) : ∃ shards,
    s.liveSlices.mapM (fun slice => metricsSeries slice.slot slice.totalWorkers dims) = .ok shards ∧
      shards.flatten.Subperm (buildSeries dims) ∧
      (s.AllLive → shards.flatten.Perm (buildSeries dims)) := by
  have hall := deal_perm h.pos (buildSeries dims)
  refine ⟨_, h.metricsSeries_all hs dims, ?_, fun hlive => ?_⟩
  · exact (((h.slots_sublist hs).map _).flatten.subperm).trans hall.subperm
  · rw [h.slots_all hs hlive]
    exact hall

lemma counts (h : s.Dealt) (hs : s.registry.Sound) (conf : List Stanza) : ∃ confs,
    s.liveSlices.mapM (fun slice => rewriteCountInterval slice.slot slice.totalWorkers conf) =
      .ok confs ∧
      ∀ (i : ℕ) (stanza : Stanza) (n : ℕ), conf[i]? = some stanza → stanza.declared = some n →
        (confs.map (countAt i)).sum ≤ n ∧ (s.AllLive → (confs.map (countAt i)).sum = n) := by
  refine ⟨_, h.rewriteCountInterval_all hs conf, fun i stanza n hi hn => ?_⟩
  have hsum : (((s.liveSlices.map (·.slot)).map fun slot =>
      conf.map (Stanza.part slot s.db.run.snapshot.workers)).map (countAt i)).sum =
      (((s.liveSlices.map (·.slot)).map (evenPart n s.db.run.snapshot.workers)).sum : ℕ) := by
    rw [← sum_evenPart_cast, map_map]
    simp only [Function.comp_def, countAt_part hi hn]
  rw [hsum]
  refine ⟨by exact_mod_cast sum_evenPart_le n h.pos (h.slots_sublist hs), fun hlive => ?_⟩
  rw [h.slots_all hs hlive, sum_evenPart n h.pos]

end Sys.Dealt

/-- In a run that is scaled only while the slots that stay are unclaimed, or to the size it has, the
work is split between the live workers at any time. -/
theorem slots_partition_work {cfg : Settings} {now₀ : Time} {spec : Snapshot} {as : List Action}
    {s : Sys} (hp : provisionRun now₀ spec = .ok db)
    (h : Runs (Sys.step cfg) ScalesUnclaimed (Sys.start db) as s) : s.Partitioned := by
  have hinv : s.registry.Sound ∧ s.Dealt := by
    refine h.invariant (I := fun s => s.registry.Sound ∧ s.Dealt) (fun a s hg hs => ?_)
      ⟨start_sound hp, Sys.Dealt.start hp⟩
    exact ⟨hs.1.move (step_move cfg a s hs.1), hs.2.step hs.1 hg⟩
  obtain ⟨hs, hd⟩ := hinv
  exact ⟨hd.disjoint hs, fun V _ dims => hd.series hs dims, hd.counts hs⟩

/-- A metrics run of a pack that sets its own pace. -/
def metricsSpec (workers : ℕ) : Snapshot :=
  { engine := .metrics, rateMode := .countInterval, rateValue := none, workers := workers }

def metricsDb (workers : ℕ) : Db :=
  provisionedDb 0 (metricsSpec workers) (replicate workers [(.count, 0)])

/-- A run of two workers is scaled to three before they come; then all three are live, and a count
of seven is split between them. -/
theorem slots_partition_work_early :
    let s := exec (Sys.step {}) (Sys.start (metricsDb 2))
      [.launch 1 swarmRun, .scale 2 3 {}, .claim 3 "w0" none,
        .claim 4 "w1" none, .claim 5 "w2" none]
    s.AllLive ∧ s.Partitioned ∧ ∃ confs,
      s.liveSlices.mapM (fun slice => rewriteCountInterval slice.slot slice.totalWorkers
        [{ name := "orders", count := some (7 : ℕ) }]) = .ok confs ∧
      (confs.map (countAt 0)).sum = 7 := by
  intro s
  have hp : provisionRun 0 (metricsSpec 2) = .ok (metricsDb 2) := by decide +kernel
  have h : Runs (Sys.step {}) ScalesUnclaimed (Sys.start (metricsDb 2)) _ s :=
    Runs.of_check (by decide +kernel)
  have hall : s.AllLive := by decide +kernel
  have hpart := slots_partition_work hp h
  obtain ⟨confs, hconfs, hsum⟩ := hpart.counts [{ name := "orders", count := some (7 : ℕ) }]
  have hseven := (hsum 0 _ 7 rfl (Stanza.declared_whole rfl rfl)).2 hall
  exact ⟨hall, hpart, confs, hconfs, by exact_mod_cast hseven⟩

/-- Two workers are live when the run is scaled to three. They go on by halves, and the third one
takes the third series as well as the first one. -/
theorem scaled_work_overlaps :
    ¬ ∀ (cfg : Settings) (now₀ : Time) (spec : Snapshot) (db : Db) (as : List Action) (s : Sys),
      provisionRun now₀ spec = .ok db →
      Runs (Sys.step cfg) (fun _ _ => True) (Sys.start db) as s → s.Partitioned := by
  intro h
  have hp : provisionRun 0 (metricsSpec 2) = .ok (metricsDb 2) := by decide +kernel
  have hs := (h {} 0 (metricsSpec 2) (metricsDb 2)
    [.launch 1 swarmRun, .claim 2 "w0" none, .claim 3 "w1" none, .scale 4 3 {},
      .claim 5 "w2" none] _ hp (Runs.of_check (by decide +kernel))).disjoint 3
  have hslices : (exec (Sys.step {}) (Sys.start (metricsDb 2))
      [.launch 1 swarmRun, .claim 2 "w0" none, .claim 3 "w1" none, .scale 4 3 {},
        .claim 5 "w2" none]).liveSlices.map (fun slice => (slice.slot, slice.totalWorkers)) =
      [(0, 2), (1, 2), (2, 3)] := by decide +kernel
  have hpairs : List.Pairwise (fun x y : ℕ × ℕ =>
      List.Disjoint (positions x.1 x.2 3) (positions y.1 y.2 3)) [(0, 2), (1, 2), (2, 3)] := by
    rw [← hslices, pairwise_map]
    exact hs
  have hlast : (2, 3) ∈ [(1, 2), (2, 3)] := by simp
  have hfirst := rel_of_pairwise_cons hpairs hlast
  have htaken : 2 ∈ positions 0 2 3 ∧ 2 ∈ positions 2 3 3 := by decide
  exact hfirst htaken.1 htaken.2

end Stoker
