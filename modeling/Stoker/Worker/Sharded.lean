import Mathlib.Data.List.ReduceOption
import Stoker.Server.Sharding
import Stoker.Worker.Supply

/-!
# Does the sharding gate predict the workers?

The gate works out from its own reading of the conf which slots get anything; a worker rewrites the
conf for its slot and counts the stanzas that are assigned to it. Where a paced stanza without an
end at once gives the last slot work for both, they agree. The gate does not look at `end = 0`,
leaves replays out that every worker counts as work, reads a count above -1 as zero that a worker
leaves alone, and questions neither a fleet of one nor a conf without counts: elsewhere they agree
exactly if these come out even.
-/

open List

namespace Stoker

open Dealing

/-- A declared count gives a slot work, as a worker reads it: it is none, or stands for the whole
sample, or is large enough. -/
def GivesWork (slot : ℕ) : Option PyFloat → Prop
  | none => True
  | some (.num q) => q < 0 ∨ slot < (truncate q).toNat
  | some _ => False

instance (slot : ℕ) (count : Option PyFloat) : Decidable (GivesWork slot count) :=
  match count with
  | none => isTrue trivial
  | some (.num q) => inferInstanceAs (Decidable (q < 0 ∨ slot < (truncate q).toNat))
  | some .inf | some .negInf | some .nan => isFalse id

/-- The same as the gate reads it, which truncates the count before it looks at the sign. -/
def SeenByGate (slot : ℕ) : Option PyFloat → Prop
  | none => True
  | some (.num q) => q ≤ -1 ∨ slot < (truncate q).toNat
  | some _ => False

/-- A count that the gate takes for zero and a worker for the whole sample. -/
def LostSign (count : Option PyFloat) : Prop := ∃ q, count = some (.num q) ∧ -1 < q ∧ q < 0

/-- A count that is none or a number. -/
def FiniteCount (count : Option PyFloat) : Prop := ∀ v ∈ count, ∃ q, v = .num q

variable {count : Option PyFloat}

lemma givesWork_iff (slot : ℕ) :
    GivesWork slot count ↔ SeenByGate slot count ∨ LostSign count := by
  cases count with
  | none => simp [GivesWork, SeenByGate]
  | some v =>
    cases v with
    | num q =>
      simp only [GivesWork, SeenByGate, LostSign, Option.some.injEq, PyFloat.num.injEq,
        exists_eq_left']
      constructor
      · rintro (hneg | hlt)
        · exact (le_or_gt q (-1)).elim (fun h => .inl (.inl h)) fun h => .inr ⟨h, hneg⟩
        · exact .inl (.inr hlt)
      · rintro ((hle | hlt) | ⟨_, hneg⟩)
        · exact .inl (by linarith)
        · exact .inr hlt
        · exact .inl hneg
    | inf | negInf | nan => simp [GivesWork, SeenByGate, LostSign]

/-- Work for a slot is work for the slots before it. -/
lemma GivesWork.of_le {slot slot' : ℕ} (h : GivesWork slot' count) (hle : slot ≤ slot') :
    GivesWork slot count := by
  cases count with
  | none => trivial
  | some v =>
    cases v with
    | num q => exact h.imp_right hle.trans_lt
    | inf | negInf | nan => exact h

variable {q : ℚ}

lemma truncate_of_nonneg (h : 0 ≤ q) : truncate q = ⌊q⌋ := if_pos h

lemma truncate_nonneg (h : 0 ≤ q) : 0 ≤ truncate q := by
  rw [truncate_of_nonneg h]
  exact Int.floor_nonneg.2 h

lemma truncate_neg_iff : truncate q < 0 ↔ q ≤ -1 := by
  constructor
  · intro h
    have hneg : ¬ 0 ≤ q := fun hq => absurd h (not_lt.2 (truncate_nonneg hq))
    rw [truncate, if_neg hneg] at h
    have hceil : (⌈q⌉ : ℚ) ≤ -1 := by exact_mod_cast Int.le_sub_one_of_lt h
    exact (Int.le_ceil q).trans hceil
  · intro h
    rw [truncate, if_neg (by linarith)]
    have hceil : ⌈q⌉ ≤ -1 := Int.ceil_le.2 (by push_cast; exact h)
    omega

/-! ### What the gate says -/

section

variable {workers : ℕ}

lemma lt_largestCount_iff {s : ℕ} {counts : List PyFloat} :
    s < largestCount counts ↔ ∃ c ∈ counts, s < c.whole := by
  induction counts with
  | nil => simp [largestCount]
  | cons c counts ih =>
    have hcons : largestCount (c :: counts) = max c.whole (largestCount counts) := rfl
    rw [hcons, lt_max_iff, ih]
    simp

/-- A count that stands for the whole sample makes the whole fleet active. -/
lemma activeLoop_of_negative (hn : 0 < workers) {counts : List PyFloat} {active : List Bool}
    (hnum : ∀ c ∈ counts, ∃ q, c = .num q) (hneg : ∃ c ∈ counts, ¬ c.Whole) :
    activeLoop workers counts active = .ok workers := by
  induction counts generalizing active with
  | nil => simp at hneg
  | cons c counts ih =>
    obtain ⟨q, rfl⟩ := hnum c mem_cons_self
    simp only [activeLoop, PyFloat.int]
    by_cases hq : truncate q < 0
    · rw [if_pos hq]
    · have hsplit := largestRemainder_even (truncate q).toNat hn
      rw [Int.toNat_of_nonneg (not_lt.1 hq)] at hsplit
      rw [if_neg hq, hsplit]
      refine ih (fun c hc => hnum c (mem_cons_of_mem _ hc)) ?_
      obtain ⟨c, hc, hwhole⟩ := hneg
      rcases mem_cons.1 hc with rfl | hc
      · exact absurd ⟨q, rfl, not_lt.1 hq⟩ hwhole
      · exact ⟨c, hc, hwhole⟩

variable {counts : List (Option PyFloat)}

/-- Counts that are all split give a slot work when the largest of them does. -/
lemma seen_iff_lt_largestCount (hsome : ∀ c ∈ counts, c ≠ none)
    (hwhole : ∀ v ∈ counts.filterMap id, v.Whole) (slot : ℕ) :
    (∃ c ∈ counts, SeenByGate slot c) ↔ slot < largestCount (counts.filterMap id) := by
  rw [lt_largestCount_iff]
  constructor
  · rintro ⟨c, hc, hseen⟩
    obtain ⟨v, rfl⟩ := Option.ne_none_iff_exists'.1 (hsome c hc)
    have hv : v ∈ counts.filterMap id := reduceOption_mem_iff.2 hc
    obtain ⟨q, rfl, hq⟩ := hwhole v hv
    exact ⟨_, hv, hseen.resolve_left fun hneg => absurd (truncate_neg_iff.2 hneg) (not_lt.2 hq)⟩
  · rintro ⟨v, hv, hlt⟩
    obtain ⟨q, rfl, _⟩ := hwhole v hv
    exact ⟨_, reduceOption_mem_iff.1 hv, .inr hlt⟩

/-- All workers are active when the last slot is given work by some count. -/
lemma all_active_iff (hfinite : ∀ c ∈ counts, FiniteCount c) (hn : 0 < workers) :
    ∃ active, countIntervalActiveWorkers counts workers = .ok active ∧
      (workers ≤ active ↔ ∃ c ∈ counts, SeenByGate (workers - 1) c) := by
  unfold countIntervalActiveWorkers
  rw [if_neg (by omega)]
  by_cases hnone : counts.any (·.isNone) = true
  · rw [if_pos hnone]
    obtain ⟨c, hc, hcnone⟩ := any_eq_true.1 hnone
    rw [Option.isNone_iff_eq_none] at hcnone
    subst hcnone
    exact ⟨workers, rfl, fun _ => ⟨none, hc, trivial⟩, fun _ => le_rfl⟩
  rw [if_neg hnone]
  have hsome : ∀ c ∈ counts, c ≠ none := by
    rintro c hc rfl
    exact hnone (any_eq_true.2 ⟨none, hc, rfl⟩)
  have hnum : ∀ v ∈ counts.filterMap id, ∃ q, v = .num q :=
    fun v hv => hfinite _ (reduceOption_mem_iff.1 hv) v rfl
  by_cases hneg : ∃ v ∈ counts.filterMap id, ¬ v.Whole
  · refine ⟨workers, activeLoop_of_negative hn hnum hneg, fun _ => ?_, fun _ => le_rfl⟩
    obtain ⟨v, hv, hnot⟩ := hneg
    obtain ⟨q, rfl⟩ := hnum v hv
    refine ⟨_, reduceOption_mem_iff.1 hv, .inl (truncate_neg_iff.1 ?_)⟩
    exact not_le.1 fun hq => hnot ⟨q, rfl, hq⟩
  · have hwhole : ∀ v ∈ counts.filterMap id, v.Whole :=
      fun v hv => by_contra fun hnot => hneg ⟨v, hv, hnot⟩
    refine ⟨_, activeLoop_eq_min hn hwhole, ?_⟩
    rw [seen_iff_lt_largestCount hsome hwhole]
    omega

section

variable {host : ConfHost} {p : Parser} {counts : List (Option PyFloat)}

/-- A conf without counts is let through unchecked. -/
lemma shardingAccepts_of_no_counts (hcounts : eventgenStanzaCounts host (some p) = some [])
    (hn : 2 ≤ workers) :
    ShardingAccepts (V := ℕ) host .eventgen .countInterval none (some p) [] workers :=
  ⟨_, (checkSharding_of_counts hcounts hn).trans (if_pos rfl), rfl⟩

/-- The gate lets a fleet of more than one through when the last slot is given work by some
stanza. -/
lemma shardingAccepts_iff (hcounts : eventgenStanzaCounts host (some p) = some counts)
    (hne : counts ≠ []) (hfinite : ∀ c ∈ counts, FiniteCount c) (hn : 2 ≤ workers) :
    ShardingAccepts (V := ℕ) host .eventgen .countInterval none (some p) [] workers ↔
      ∃ c ∈ counts, SeenByGate (workers - 1) c := by
  obtain ⟨active, hactive, hiff⟩ := all_active_iff hfinite (by omega : 0 < workers)
  have hcheck := checkSharding_of_counts hcounts hn
  rw [checkCounts, if_neg (by simpa using hne), hactive] at hcheck
  rw [← hiff]
  constructor
  · rintro ⟨check, hc, hok⟩
    obtain rfl := Except.ok.inj (hcheck.symm.trans hc)
    rw [ShardingCheck.ok_ofActive] at hok
    exact of_decide_eq_true hok
  · intro hle
    exact ⟨_, hcheck, by rw [ShardingCheck.ok_ofActive]; exact decide_eq_true hle⟩

end

end

/-! ### What a worker gets -/

open ConfRewrite

/-- The count that a slot is given for a declared one, where it is given one. -/
def slotCount (slot workers : ℕ) : Option PyFloat → Option ℤ
  | some (.num q) => if q < 0 then none else some (evenPart (truncate q).toNat workers slot)
  | _ => none

section

variable {host : ConfHost} {p : Parser} {name : Text} {slot workers : ℕ}

lemma splitCount_of_finite (hslot : slot < workers)
    (hfinite : FiniteCount (p.getFloat host name countKey)) :
    splitCount host slot workers p name =
      .ok (slotCount slot workers (p.getFloat host name countKey)) := by
  unfold splitCount
  cases hcount : p.getFloat host name countKey with
  | none => rfl
  | some count =>
    obtain ⟨q, rfl⟩ := hfinite count hcount
    by_cases hq : q < 0
    · simp only [slotCount, PyFloat.neg, hq, decide_true, if_true]
    · have heven := ConfRewrite.largestRemainder_even (truncate q).toNat (by omega : 0 < workers)
      rw [Int.toNat_of_nonneg (truncate_nonneg (not_lt.1 hq))] at heven
      simp only [slotCount, PyFloat.neg, hq, decide_false, if_false]
      change (ConfRewrite.largestRemainder (truncate q) _ >>= _) = _
      rw [heven]
      change Except.ok ((range workers).map _)[slot]? = _
      rw [getElem?_map, getElem?_range hslot]
      rfl

variable {names : List Text} {r : RewriteRequest}

lemma rewriteCountInterval_of_finite (hslot : slot < workers)
    (hfinite : ∀ name ∈ names, FiniteCount (p.getFloat host name countKey)) :
    ConfRewrite.rewriteCountInterval host names slot workers p =
      .ok (setEach names (names.map fun name =>
        slotCount slot workers (p.getFloat host name countKey))
        setSplit p) := by
  unfold ConfRewrite.rewriteCountInterval
  rw [if_neg (by omega), mapM_ok fun name hname => splitCount_of_finite hslot (hfinite name hname)]
  rfl

lemma lookup_zip_map {V : Type} {f : Text → V} (hn : names.Nodup)
    (hname : name ∈ names) : (names.zip (names.map f)).lookup name = some (f name) := by
  have hall := map_lookup_zip hn (length_map f)
  rw [map_map] at hall
  exact map_inj_left.1 hall name hname

/-- The conf with the counts of a slot. -/
def splitConf (host : ConfHost) (names : List Text) (slot workers : ℕ) (p : Parser) : Parser :=
  setEach names (names.map fun name => slotCount slot workers (p.getFloat host name countKey))
    setSplit p

@[simp] lemma names_splitConf :
    (splitConf host names slot workers p).names = p.names := names_setEach

lemma get_splitConf {key : Text} (hkey : key ≠ countKey) :
    (splitConf host names slot workers p).get name key = p.get name key := by
  refine get_setEach_of fun count o => ?_
  cases count with
  | none => rfl
  | some count => rw [setSplit, Options.get_set, if_neg hkey]

/-- The count that a slot reads back: the declared one, or its part of it. -/
lemma getFloat_splitConf (hn : names.Nodup) (hname : name ∈ names)
    (hp : name ∈ p.names) :
    (splitConf host names slot workers p).getFloat host name countKey =
      match slotCount slot workers (p.getFloat host name countKey) with
      | none => p.getFloat host name countKey
      | some count => host.float (intText count) := by
  have hlookup := lookup_zip_map
    (f := fun name => slotCount slot workers (p.getFloat host name countKey)) hn hname
  cases hcount : slotCount slot workers (p.getFloat host name countKey) with
  | none =>
    rw [hcount] at hlookup
    have hget : (splitConf host names slot workers p).get name countKey = p.get name countKey := by
      refine Parser.get_update_of fun o => ?_
      rw [hlookup]
      rfl
    rw [Parser.getFloat, hget]
    rfl
  | some count =>
    rw [hcount] at hlookup
    have hset : ∀ o : Options, (setSplit (some count) o).get countKey =
        some (some (intText count)) := by
      intro o
      rw [setSplit, Options.get_set, if_pos rfl]
    have hget : (splitConf host names slot workers p).get name countKey =
        some (some (intText count)) :=
      get_setEach_set (t := fun _ => intText count) hp hlookup hset
    rw [Parser.getFloat, hget]
    rfl

/-- A stanza as far as its count goes. -/
def stanzaOf (host : ConfHost) (p : Parser) (name : Text) : Stanza where
  name := String.ofList name
  count := (p.getFloat host name countKey).map PyFloat.value

/-- On counts that are numbers the rewrite of the conf is the split of its stanzas. -/
theorem rewriteCountInterval_stanzas (hslot : slot < workers) (hn : names.Nodup)
    (hp : ∀ name ∈ names, name ∈ p.names)
    (hfinite : ∀ name ∈ names, FiniteCount (p.getFloat host name countKey)) :
    ∃ q, ConfRewrite.rewriteCountInterval host names slot workers p = .ok q ∧
      rewriteCountInterval slot workers (names.map (stanzaOf host p)) =
        .ok (names.map (stanzaOf host q)) := by
  refine ⟨splitConf host names slot workers p, rewriteCountInterval_of_finite hslot hfinite, ?_⟩
  rw [rewriteCountInterval_ok hslot, map_map]
  refine congrArg _ (map_congr_left fun name hname => ?_)
  have hread : (splitConf host names slot workers p).getFloat host name countKey = _ :=
    getFloat_splitConf hn hname (hp name hname)
  rw [Function.comp_apply, stanzaOf, stanzaOf, hread]
  cases hcount : p.getFloat host name countKey with
  | none => rfl
  | some count =>
    obtain ⟨q, rfl⟩ := hfinite name hname count hcount
    by_cases hq : q < 0
    · simp [Stanza.part, Stanza.declared, slotCount, PyFloat.value, hq]
    · have hpart : host.float (intText (evenPart ⌊q⌋.toNat workers slot)) = _ :=
        float_intText (Int.natCast_nonneg _)
      simp [Stanza.part, Stanza.declared, slotCount, PyFloat.value, hq, hpart,
        truncate_of_nonneg (not_lt.1 hq)]

lemma isAssigned_splitConf (hn : names.Nodup) (hname : name ∈ names) (hp : name ∈ p.names)
    (hslot : slot < workers) (hfinite : FiniteCount (p.getFloat host name countKey)) :
    isAssigned host .countInterval (splitConf host names slot workers p) name = true ↔
      endsAtOnce host p name = false ∧ GivesWork slot (p.getFloat host name countKey) := by
  have hends : endsAtOnce host (splitConf host names slot workers p) name =
      endsAtOnce host p name := by
    rw [endsAtOnce, endsAtOnce, get_splitConf (by decide)]
  unfold isAssigned
  rw [hends, getFloat_splitConf hn hname hp]
  cases endsAtOnce host p name with
  | true => simp
  | false =>
    cases hcount : p.getFloat host name countKey with
    | none => simp [slotCount, GivesWork]
    | some count =>
      obtain ⟨q, rfl⟩ := hfinite count hcount
      by_cases hq : q < 0
      · simp [slotCount, GivesWork, hq, PyFloat.neg]
      · have hpart : host.float (intText (evenPart (truncate q).toNat workers slot)) = _ :=
          float_intText (Int.natCast_nonneg _)
        simp only [slotCount, GivesWork, hq, if_false, false_or]
        rw [hpart, ← evenPart_pos_iff hslot]
        simp [PyFloat.pos, PyFloat.neg]

lemma assignedStanzaCount_of_given {mode : RateMode} (h : ModesGiven p) :
    assignedStanzaCount host mode p =
      .ok (((p.sampleSections host).filter (replays host p)).length +
      ((pacedNames host p).filter (isAssigned host mode p)).length) := by
  have hreplays : filterNames (isReplay host p) (p.sampleSections host) =
      .ok ((p.sampleSections host).filter (replays host p)) :=
    filterNames_of_ok fun name hname =>
      isReplay_of_given (h name (mem_names_of_sampleSections hname))
  unfold assignedStanzaCount
  rw [hreplays, paced_of_given h]
  rfl

/-- What gives a slot work once the conf is rewritten for it: a replay, or the count of a paced
stanza without an end at once. -/
def Works (host : ConfHost) (p : Parser) (slot : ℕ) : Prop :=
  (∃ name ∈ p.sampleSections host, replays host p name = true) ∨
    ∃ name ∈ pacedNames host p, endsAtOnce host p name = false ∧
      GivesWork slot (p.getFloat host name countKey)

/-- A conf that every worker can rewrite: the modes have values, and the counts are numbers. -/
structure Rewritable (host : ConfHost) (p : Parser) : Prop where
  modes : ModesGiven p
  finite : ∀ name ∈ pacedNames host p, FiniteCount (p.getFloat host name countKey)

lemma rewrite_of_rewritable (hp : Rewritable host p) (hmode : r.mode = .countInterval)
    (hb : r.backfill.window = none) (hslot : r.slot < r.totalWorkers) :
    rewrite host r p =
      .ok (splitConf host (pacedNames host p) r.slot r.totalWorkers (owned r p)) := by
  apply rewrite_of_share hp.modes hb
  rw [rewriteShare, hmode]
  exact rewriteCountInterval_of_finite hslot (by simpa using hp.finite)

/-- What the rewritten conf assigns to the slot: the replays, and the stanzas whose count gives it
work. -/
lemma assignedStanzaCount_splitConf (hp : Rewritable host p)
    (hslot : r.slot < r.totalWorkers) :
    assignedStanzaCount host .countInterval
        (splitConf host (pacedNames host p) r.slot r.totalWorkers (owned r p)) =
      .ok (((p.sampleSections host).filter (replays host p)).length +
        ((pacedNames host p).filter fun name => endsAtOnce host p name = false ∧
          GivesWork r.slot (p.getFloat host name countKey)).length) := by
  set q := splitConf host (pacedNames host p) r.slot r.totalWorkers (owned r p)
  -- neither the output side nor the counts of the slot change the modes
  have hmode : ∀ name, q.get name modeKey = p.get name modeKey := by
    intro name
    rw [get_splitConf (by decide), get_owned_mode]
  have hnames : q.names = p.names := by
    rw [names_splitConf, names_owned]
  have hreplays : replays host q = replays host p := by
    funext name
    rw [replays, replays, hmode]
  have hsamples : q.sampleSections host = p.sampleSections host := by
    rw [Parser.sampleSections, Parser.sampleSections, hnames]
  rw [assignedStanzaCount_of_given (hp.modes.congr hnames hmode), pacedNames_congr hnames hmode,
    hreplays, hsamples]
  have hassigned : (pacedNames host p).filter (isAssigned host .countInterval q) =
      (pacedNames host p).filter fun name => endsAtOnce host p name = false ∧
        GivesWork r.slot (p.getFloat host name countKey) := by
    refine filter_congr fun name hname => ?_
    have hiff := isAssigned_splitConf (p := owned r p) nodup_pacedNames hname
      (by simpa using mem_names_of_paced hname) hslot (by simpa using hp.finite name hname)
    rw [getFloat_count_owned, endsAtOnce_owned] at hiff
    rw [Bool.eq_iff_iff, hiff, decide_eq_true_iff]
  rw [hassigned]

lemma assigned_iff_works (hp : Rewritable host p) (hmode : r.mode = .countInterval)
    (hb : r.backfill.window = none) (hslot : r.slot < r.totalWorkers) :
    (∃ q m, rewrite host r p = .ok q ∧ assignedStanzaCount host .countInterval q = .ok m ∧ 0 < m) ↔
      Works host p r.slot := by
  simp only [rewrite_of_rewritable hp hmode hb hslot, Except.ok.injEq, exists_and_left,
    exists_eq_left', assignedStanzaCount_splitConf hp hslot]
  rw [Nat.add_pos_iff_pos_or_pos, length_pos_iff_exists_mem, length_pos_iff_exists_mem]
  simp only [mem_filter, decide_eq_true_iff, Works]

/-- The slots all have work if the last one does. -/
lemma works_all_iff (hn : 0 < workers) :
    (∀ slot < workers, Works host p slot) ↔ Works host p (workers - 1) := by
  refine ⟨fun h => h _ (by omega), fun h slot hslot => h.imp_right ?_⟩
  rintro ⟨name, hname, hends, hwork⟩
  exact ⟨name, hname, hends, hwork.of_le (by omega)⟩

/-- The gate lets a fleet through if it is one of one, if there are no counts, or if it sees work
for the last slot. -/
lemma shardingAccepts_iff_seen (hp : Rewritable host p) (hn : 0 < workers) :
    ShardingAccepts (V := ℕ) host .eventgen .countInterval none (some p) [] workers ↔
      workers = 1 ∨ pacedNames host p = [] ∨
        ∃ name ∈ pacedNames host p, SeenByGate (workers - 1) (p.getFloat host name countKey) := by
  have hcounts : eventgenStanzaCounts host (some p) =
      some ((pacedNames host p).map fun name => p.getFloat host name countKey) := rfl
  by_cases hone : workers = 1
  · exact iff_of_true (shardingAccepts_one hone.le) (.inl hone)
  · by_cases hnone : pacedNames host p = []
    · rw [hnone] at hcounts
      exact iff_of_true (shardingAccepts_of_no_counts hcounts (by omega)) (.inr (.inl hnone))
    · rw [shardingAccepts_iff hcounts (by simpa using hnone) (by simpa using hp.finite) (by omega)]
      simp [hone, hnone]

/-- Where the gate and the workers agree: some paced stanza without an end at once gives the last
slot work for both of them, or what only the gate counts is there exactly if what only the workers
count is. -/
def GateAgrees (host : ConfHost) (p : Parser) (workers : ℕ) : Prop :=
  (∃ name ∈ pacedNames host p, endsAtOnce host p name = false ∧
    SeenByGate (workers - 1) (p.getFloat host name countKey)) ∨
  ((workers = 1 ∨ pacedNames host p = [] ∨
    ∃ name ∈ pacedNames host p, endsAtOnce host p name = true ∧
      SeenByGate (workers - 1) (p.getFloat host name countKey)) ↔
    (∃ name ∈ p.sampleSections host, replays host p name = true) ∨
      ∃ name ∈ pacedNames host p, endsAtOnce host p name = false ∧
        LostSign (p.getFloat host name countKey))

/-- On a conf that the workers can rewrite, the gate predicts them, that is, lets a run in
count_interval mode through exactly when each of its slots is assigned work by the rewrite, if and
only if the conf does not count for one of the two only. -/
theorem gate_predicts_workers_iff (host : ConfHost) (p : Parser) (hp : Rewritable host p)
    (workers : ℕ) (hn : 0 < workers) (r : RewriteRequest) (hmode : r.mode = .countInterval)
    (hb : r.backfill.window = none) :
    (ShardingAccepts (V := ℕ) host .eventgen .countInterval none (some p) [] workers ↔
      ∀ slot < workers, ∃ q m, rewrite host { r with slot := slot, totalWorkers := workers } p =
        .ok q ∧
        assignedStanzaCount host .countInterval q = .ok m ∧ 0 < m) ↔ GateAgrees host p workers := by
  have hassigned : (∀ slot < workers, ∃ q m,
      rewrite host { r with slot := slot, totalWorkers := workers } p = .ok q ∧
        assignedStanzaCount host .countInterval q = .ok m ∧ 0 < m) ↔
      ∀ slot < workers, Works host p slot :=
    forall₂_congr fun slot hslot =>
      assigned_iff_works hp (r := { r with slot := slot, totalWorkers := workers }) hmode hb hslot
  -- what the gate sees is in a stanza with or without an end at once
  have hends : (∃ name ∈ pacedNames host p,
      SeenByGate (workers - 1) (p.getFloat host name countKey)) ↔
      (∃ name ∈ pacedNames host p, endsAtOnce host p name = false ∧
        SeenByGate (workers - 1) (p.getFloat host name countKey)) ∨
      ∃ name ∈ pacedNames host p, endsAtOnce host p name = true ∧
        SeenByGate (workers - 1) (p.getFloat host name countKey) := by
    simp only [← exists_or, ← and_or_left, ← or_and_right, Bool.dichotomy, true_and]
  rw [hassigned, works_all_iff hn, Works, shardingAccepts_iff_seen hp hn, hends, GateAgrees]
  simp only [givesWork_iff, and_or_left, exists_or]
  by_cases hboth : ∃ name ∈ pacedNames host p, endsAtOnce host p name = false ∧
      SeenByGate (workers - 1) (p.getFloat host name countKey)
  · simp only [hboth, true_or, or_true]
  · simp only [hboth, false_or]

/-- What the agent asks for in count_interval mode. -/
def countRequest (slot totalWorkers : ℕ) : RewriteRequest where
  mode := .countInterval
  slot := slot
  totalWorkers := totalWorkers

/-- Two events for two workers. -/
theorem gate_predicts_two_workers :
    (∃ q m, rewrite digitsHost (countRequest 0 2) twoEvents = .ok q ∧
      assignedStanzaCount digitsHost .countInterval q = .ok m ∧ 0 < m) ∧
    ∃ q m, rewrite digitsHost (countRequest 1 2) twoEvents = .ok q ∧
      assignedStanzaCount digitsHost .countInterval q = .ok m ∧ 0 < m := by
  have hcheck : checkSharding (V := ℕ) digitsHost .eventgen .countInterval none
      (some twoEvents) [] 2 =
      .ok (.pass 2 none) := by decide +kernel
  have htwo : ∀ name ∈ pacedNames digitsHost twoEvents,
      twoEvents.getFloat digitsHost name countKey = some (.num 2) := by decide +kernel
  have hfinite : ∀ name ∈ pacedNames digitsHost twoEvents,
      FiniteCount (twoEvents.getFloat digitsHost name countKey) := by
    intro name hname
    rw [htwo name hname]
    rintro _ ⟨⟩
    exact ⟨2, rfl⟩
  have hweb : "web.log".toList ∈ pacedNames digitsHost twoEvents := by decide
  have hagrees : GateAgrees digitsHost twoEvents 2 := by
    refine .inl ⟨_, hweb, by decide, ?_⟩
    rw [htwo _ hweb]
    exact .inr (by decide +kernel)
  have hslots := ((gate_predicts_workers_iff digitsHost twoEvents ⟨by decide, hfinite⟩ 2 (by decide)
    (countRequest 0 2) rfl rfl).2 hagrees).1 ⟨_, hcheck, rfl⟩
  exact ⟨hslots 0 (by decide), hslots 1 (by decide)⟩

/-- A conf with one stanza that declares three events and ends at once. -/
def endedConf : Parser where
  defaults := { entries := [], nodup := nodup_nil }
  sections := [("web.log".toList,
    { entries := [("count", some "3"), ("end", some "0")] })]
  distinct := by decide

/-- A stanza that ends at once is split by the gate like any other, and counts for nothing with the
workers. -/
theorem gate_accepts_idle_workers :
    ShardingAccepts (V := ℕ) digitsHost .eventgen .countInterval none (some endedConf) [] 2 ∧
      ¬ ∃ q m, rewrite digitsHost (countRequest 0 2) endedConf = .ok q ∧
        assignedStanzaCount digitsHost .countInterval q = .ok m ∧ 0 < m := by
  have hcheck : checkSharding (V := ℕ) digitsHost .eventgen .countInterval none
      (some endedConf) [] 2 =
      .ok (.pass 2 none) := by decide +kernel
  have hrun : (rewrite digitsHost (countRequest 0 2) endedConf).toOption.map
      (assignedStanzaCount digitsHost .countInterval) = some (.ok 0) := by decide +kernel
  refine ⟨⟨_, hcheck, rfl⟩, ?_⟩
  rintro ⟨q, m, hq, hm, hpos⟩
  rw [hq] at hrun
  obtain rfl : m = 0 := Except.ok.inj (hm.symm.trans (Option.some.inj hrun))
  exact lt_irrefl 0 hpos

end

end Stoker
