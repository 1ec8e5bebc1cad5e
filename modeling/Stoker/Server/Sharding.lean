import Stoker.Packs.Parser
import Stoker.Worker.Work

/-!
# The sharding gate

`server/engines/sharding.py`: before a run is launched, how many of its workers would get any work.
The series of a metrics pack go to the first workers, and so do the parts of a count that is split
by largest remainder. A run that would leave workers without work is refused with the number of
those that get some.
-/

open List

namespace Stoker

inductive ShardFactor where
  | metricsSeries
  | countInterval
  deriving DecidableEq

structure ShardingCheck where
  ok : Bool
  activeWorkers : ℕ
  totalWorkers : ℕ
  suggestedWorkers : Option ℕ := none
  limitingFactor : Option ShardFactor := none
  detail : Option Text := none
  deriving DecidableEq

def metricsSeriesCount {V : Type} (dims : List (Dimension V)) : ℕ :=
  dims.foldl (fun count d => if d.values.isEmpty then count else count * d.values.length) 1

def metricsActiveWorkers (seriesCount workers : ℕ) : ℕ := min seriesCount workers

/-- The loop of `count_interval_active_workers`: which slots are given a positive part so far. A
count that is not a number, or stands for the whole sample, gives every slot work. -/
def activeLoop (workers : ℕ) : List PyFloat → List Bool → Except PyError ℕ
  | [], active => .ok (active.count true)
  | count :: counts, active =>
    match count.int with
    | .error (.valueError _) => .ok workers
    | .error e => .error e
    | .ok total =>
      if total < 0 then .ok workers
      else
        match largestRemainder total (replicate workers 1) with
        | .error e => .error (.valueError e.toList)
        | .ok parts =>
          activeLoop workers counts (active.zipWith (fun a part => a || decide (0 < part)) parts)

def countIntervalActiveWorkers (counts : List (Option PyFloat)) (workers : ℕ) : Except PyError ℕ :=
  if workers < 1 then .ok 0
  else if counts.any (·.isNone) then .ok workers
  else activeLoop workers (counts.filterMap id) (replicate workers false)

/-- Whether `eventgen_stanza_counts` leaves a stanza out as a replay. -/
def isReplayStanza (host : ConfHost) (p : Parser) (name : Text) : Bool :=
  host.strip ((p.get name "mode").join.getD []) = "replay"

/-- `eventgen_stanza_counts` of the conf in a directory, if there is one that can be read. -/
def eventgenStanzaCounts (host : ConfHost) (conf : Option Parser) :
    Option (List (Option PyFloat)) :=
  conf.map fun p => ((p.sampleSections host).filter (!isReplayStanza host p ·)).map fun name =>
    p.getFloat host name "count"

def slotRange (firstIdle workers : ℕ) : Text :=
  if workers - 1 ≤ firstIdle then Nat.toDigits 10 (workers - 1)
  else Nat.toDigits 10 firstIdle ++ '-' :: Nat.toDigits 10 (workers - 1)

/-- What both messages say of the workers that would be idle. -/
def idleText (active workers : ℕ) (unit : String) : Text :=
  "only " ++ Nat.toDigits 10 active ++ " of " ++ Nat.toDigits 10 workers ++
    " workers would " ++ unit.toList ++ " — " ++ Nat.toDigits 10 (workers - active) ++
    " worker(s) (slot" ++ (if workers - active = 1 then [] else ['s']) ++ [' '] ++
    slotRange active workers ++ ") would generate nothing for the whole run; use at most " ++
    Nat.toDigits 10 (max 1 active) ++ " workers"

def metricsDetail (series active workers : ℕ) : Text :=
  "the pack's dimension cross-product is " ++ Nat.toDigits 10 series ++
    " series and the metrics engine shards series[slot::workers], so " ++
    idleText active workers "own any series"

/-- The events per interval that the stanzas declare together. -/
def declaredTotal (counts : List (Option PyFloat)) : ℤ :=
  (counts.map fun count => match count with
    | some (.num q) => if 0 ≤ q then truncate q else 0
    | _ => 0).sum

def countIntervalDetail (counts : List (Option PyFloat)) (active workers : ℕ) : Text :=
  ("count_interval splits each stanza's integer count across the fleet by largest remainder; " ++
    "this pack's stanzas declare ").toList ++ (toString (declaredTotal counts)).toList ++
    " event(s) per interval in total, so " ++ idleText active workers "receive any count"

/-- A fleet that gets work as a whole. -/
def ShardingCheck.pass (workers : ℕ) (detail : Option Text) : ShardingCheck where
  ok := true
  activeWorkers := workers
  totalWorkers := workers
  detail := detail

/-- A fleet of which some get work. -/
def ShardingCheck.idle (active workers : ℕ) (factor : ShardFactor) (detail : Text) :
    ShardingCheck where
  ok := false
  activeWorkers := active
  totalWorkers := workers
  suggestedWorkers := some (max 1 active)
  limitingFactor := some factor
  detail := some detail

/-- The result where it is known how many get work. -/
def ShardingCheck.ofActive (active workers : ℕ) (factor : ShardFactor) (detail : Text) :
    ShardingCheck :=
  if workers ≤ active then .pass workers none else .idle active workers factor detail

/-- The declared counts of all packs of a run, unknown where one conf cannot be read. -/
def stanzaCounts (host : ConfHost) (packDir : Option Parser) (packDirs : List (Option Parser)) :
    Option (List (Option PyFloat)) :=
  if packDirs.isEmpty then eventgenStanzaCounts host packDir
  else (packDirs.mapM (eventgenStanzaCounts host)).map flatten

def checkCounts (counts : List (Option PyFloat)) (workers : ℕ) : Except PyError ShardingCheck :=
  if counts.isEmpty then
    .ok (.pass workers (some "stanza counts unknown; sharding not checked"))
  else
    match countIntervalActiveWorkers counts workers with
    | .error e => .error e
    | .ok active =>
      .ok (.ofActive active workers .countInterval (countIntervalDetail counts active workers))

section

variable {V : Type} (host : ConfHost) (engine : Engine) (mode : RateMode)
  (metricsConfig : Option (List (Dimension V))) (packDir : Option Parser)
  (packDirs : List (Option Parser))

/-- `check_sharding` for a fleet of more than one worker. -/
def checkFleet (workers : ℕ) : Except PyError ShardingCheck :=
  if engine = .metrics ∨ metricsConfig.isSome then
    let series := metricsSeriesCount (metricsConfig.getD [])
    let active := metricsActiveWorkers series workers
    .ok (.ofActive active workers .metricsSeries (metricsDetail series active workers))
  else if engine = .rawreplay then .ok (.pass workers none)
  else if mode ≠ .countInterval then .ok (.pass workers none)
  else
    match stanzaCounts host packDir packDirs with
    | none => .ok (.pass workers (some "stanza counts unknown; sharding not checked"))
    | some counts => checkCounts counts workers

/-- `check_sharding`; the directories of the packs are given by the confs that are read from
them. -/
def checkSharding (workers : ℕ) : Except PyError ShardingCheck :=
  if max 1 workers = 1 then .ok (.pass 1 none)
  else checkFleet host engine mode metricsConfig packDir packDirs (max 1 workers)

/-- The gate lets a run with this many workers through. -/
def ShardingAccepts (workers : ℕ) : Prop :=
  ∃ check, checkSharding host engine mode metricsConfig packDir packDirs workers = .ok check ∧
    check.ok = true

/-- The gate refuses a run with this many workers. -/
def ShardingRejects (workers : ℕ) : Prop :=
  ∃ check, checkSharding host engine mode metricsConfig packDir packDirs workers = .ok check ∧
    check.ok = false

end

/-! ### How many workers get work -/

open Dealing

/-- A count that is split: a number, and no negative one once its fraction is gone. -/
def PyFloat.Whole (c : PyFloat) : Prop := ∃ q, c = .num q ∧ 0 ≤ truncate q

/-- The events of a count that is split. -/
def PyFloat.whole : PyFloat → ℕ
  | num q => (truncate q).toNat
  | _ => 0

def largestCount (counts : List PyFloat) : ℕ := (counts.map PyFloat.whole).foldr max 0

lemma zipWith_map_range {f : ℕ → Bool} {g : ℕ → ℤ} (n : ℕ) :
    ((range n).map f).zipWith (fun a part => a || decide (0 < part)) ((range n).map g) =
      (range n).map fun s => f s || decide (0 < g s) := by
  rw [zipWith_map, zipWith_self]

lemma count_range_lt (n bound : ℕ) :
    ((range n).map fun s => decide (s < bound)).count true = min n bound := by
  induction n with
  | zero => simp
  | succ n ih =>
    rw [range_succ, map_append, count_append, ih]
    by_cases h : n < bound
    · simp [h]
      omega
    · simp [h]
      omega

section

variable {workers : ℕ} {counts : List PyFloat}

/-- Where all counts are split, a slot is active when it is below the largest of them. -/
lemma activeLoop_of_whole (hn : 0 < workers) (hw : ∀ c ∈ counts, c.Whole) (f : ℕ → Bool) :
    activeLoop workers counts ((range workers).map f) =
      .ok (((range workers).map fun s => f s || decide (s < largestCount counts)).count true) := by
  induction counts generalizing f with
  | nil => simp [activeLoop, largestCount]
  | cons c counts ih =>
    obtain ⟨q, rfl, hq⟩ := hw c mem_cons_self
    have hsplit : largestRemainder (truncate q) (replicate workers 1) =
        .ok ((range workers).map fun s => (evenPart (truncate q).toNat workers s : ℤ)) := by
      have heven := largestRemainder_even (truncate q).toNat hn
      rwa [Int.toNat_of_nonneg hq] at heven
    have hmarked : ((range workers).map fun s =>
        f s || decide (0 < (evenPart (truncate q).toNat workers s : ℤ))) =
        (range workers).map fun s => f s || decide (s < (truncate q).toNat) := by
      refine map_congr_left fun s hs => ?_
      rw [mem_range] at hs
      have hpos : 0 < (evenPart (truncate q).toNat workers s : ℤ) ↔ s < (truncate q).toNat := by
        rw [Int.natCast_pos, evenPart_pos_iff hs]
      simp only [hpos]
    have hlargest : largestCount (.num q :: counts) =
        max (truncate q).toNat (largestCount counts) := rfl
    simp only [activeLoop, PyFloat.int]
    rw [if_neg (not_lt.2 hq), hsplit]
    dsimp only
    rw [zipWith_map_range, hmarked, ih fun c hc => hw c (mem_cons_of_mem _ hc), hlargest]
    simp only [lt_max_iff, Bool.decide_or, Bool.or_assoc]

lemma activeLoop_eq_min (hn : 0 < workers) (hw : ∀ c ∈ counts, c.Whole) :
    activeLoop workers counts (replicate workers false) =
      .ok (min workers (largestCount counts)) := by
  have hstart : replicate workers false = (range workers).map fun _ => false := by simp
  rw [hstart, activeLoop_of_whole hn hw]
  simp only [Bool.false_or]
  rw [count_range_lt]

/-- Where fewer than all are active, all counts are split. -/
lemma whole_of_activeLoop {active : List Bool} {m : ℕ}
    (h : activeLoop workers counts active = .ok m) (hm : m ≠ workers) : ∀ c ∈ counts, c.Whole := by
  induction counts generalizing active with
  | nil => simp
  | cons c counts ih =>
    unfold activeLoop at h
    cases hc : c.int with
    | error e =>
      rw [hc] at h
      cases e with
      | valueError t =>
        cases h
        exact absurd rfl hm
      | attributeError t | overflowError t | confRewriteError t => cases h
    | ok total =>
      rw [hc] at h
      dsimp only at h
      split_ifs at h with hneg
      · cases h
        exact absurd rfl hm
      · cases hs : largestRemainder total (replicate workers 1) with
        | error e =>
          rw [hs] at h
          cases h
        | ok parts =>
          rw [hs] at h
          refine forall_mem_cons.2 ⟨?_, ih h⟩
          cases c with
          | num q =>
            obtain rfl : truncate q = total := Except.ok.inj hc
            exact ⟨q, rfl, not_lt.1 hneg⟩
          | inf | negInf | nan => cases hc

end

/-- If a fleet is not active as a whole, the number of active workers is a threshold. -/
lemma countIntervalActiveWorkers_threshold {counts : List (Option PyFloat)} {workers m : ℕ}
    (h : countIntervalActiveWorkers counts workers = .ok m) (hm : m < workers) (n : ℕ)
    (hn : 1 ≤ n) : countIntervalActiveWorkers counts n = .ok (min n m) := by
  unfold countIntervalActiveWorkers at h
  rw [if_neg (by omega)] at h
  split_ifs at h with hnone
  · cases h
    exact absurd hm (lt_irrefl _)
  · have hwhole := whole_of_activeLoop h hm.ne
    rw [activeLoop_eq_min (by omega) hwhole] at h
    have hthreshold : largestCount (counts.filterMap id) = m := by
      have hmin := Except.ok.inj h
      omega
    unfold countIntervalActiveWorkers
    rw [if_neg (by omega), if_neg hnone, activeLoop_eq_min hn hwhole, hthreshold]

section

variable {V : Type} {host : ConfHost} {engine : Engine} {mode : RateMode}
  {metricsConfig : Option (List (Dimension V))} {packDir : Option Parser}
  {packDirs : List (Option Parser)} {workers : ℕ} {check : ShardingCheck}

lemma ShardingCheck.ok_ofActive (active n : ℕ) (factor : ShardFactor) (detail : Text) :
    (ofActive active n factor detail).ok = decide (n ≤ active) := by
  unfold ofActive
  split_ifs with h
  · exact (decide_eq_true h).symm
  · exact (decide_eq_false h).symm

variable {n : ℕ}

lemma ShardingCheck.suggested_ofActive {active : ℕ} {factor : ShardFactor} {detail : Text}
    (h : (ofActive active n factor detail).ok = false) :
    active < n ∧ (ofActive active n factor detail).suggestedWorkers = some (max 1 active) := by
  rw [ok_ofActive, decide_eq_false_iff_not] at h
  refine ⟨not_le.1 h, ?_⟩
  unfold ofActive
  rw [if_neg h]
  rfl

/-- A fleet that is refused would be let through up to some size, which is what is suggested. -/
lemma checkFleet_threshold
    (h : checkFleet host engine mode metricsConfig packDir packDirs workers = .ok check)
    (hrej : check.ok = false) :
    ∃ most, check.suggestedWorkers = some (max 1 most) ∧ ∀ n, 1 ≤ n →
      ∃ check', checkFleet host engine mode metricsConfig packDir packDirs n = .ok check' ∧
        check'.ok = decide (n ≤ most) := by
  have hpass : ∀ {w : ℕ} {d : Option Text}, check ≠ .pass w d := by
    rintro w d rfl
    cases hrej
  -- the number of active workers is the smaller one of the fleet and the threshold
  have hmin : ∀ (most n : ℕ), decide (n ≤ min n most) = decide (n ≤ most) := by
    intro most n
    exact decide_eq_decide.2 (by omega)
  unfold checkFleet at h ⊢
  split_ifs at h ⊢ with hmetrics hraw hmode
  · cases h
    obtain ⟨hlt, hsuggested⟩ := ShardingCheck.suggested_ofActive hrej
    unfold metricsActiveWorkers at hlt hsuggested ⊢
    refine ⟨metricsSeriesCount (metricsConfig.getD []), ?_, fun n _ => ⟨_, rfl, ?_⟩⟩
    · rw [hsuggested, Nat.min_eq_left (by omega)]
    · rw [ShardingCheck.ok_ofActive, Nat.min_comm, hmin]
  · exact absurd (Except.ok.inj h).symm hpass
  · exact absurd (Except.ok.inj h).symm hpass
  · cases hcounts : stanzaCounts host packDir packDirs with
    | none =>
      rw [hcounts] at h
      exact absurd (Except.ok.inj h).symm hpass
    | some counts =>
      rw [hcounts] at h
      unfold checkCounts at h ⊢
      dsimp only at h ⊢
      split_ifs at h ⊢ with hempty
      · exact absurd (Except.ok.inj h).symm hpass
      · cases hactive : countIntervalActiveWorkers counts workers with
        | error e =>
          rw [hactive] at h
          cases h
        | ok active =>
          rw [hactive] at h
          cases h
          obtain ⟨hlt, hsuggested⟩ := ShardingCheck.suggested_ofActive hrej
          refine ⟨active, hsuggested, fun n hn => ?_⟩
          rw [countIntervalActiveWorkers_threshold hactive hlt n hn]
          exact ⟨_, rfl, by rw [ShardingCheck.ok_ofActive, hmin]⟩

lemma shardingAccepts_one (hn : n ≤ 1) :
    ShardingAccepts host engine mode metricsConfig packDir packDirs n := by
  refine ⟨.pass 1 none, ?_, rfl⟩
  rw [checkSharding, if_pos (by omega)]

lemma checkSharding_of_two (hn : 2 ≤ n) :
    checkSharding host engine mode metricsConfig packDir packDirs n =
      checkFleet host engine mode metricsConfig packDir packDirs n := by
  rw [checkSharding, if_neg (by omega), Nat.max_eq_right (by omega)]

/-- What the gate does with the counts of one conf. -/
lemma checkSharding_of_counts {p : Parser} {counts : List (Option PyFloat)}
    (hcounts : eventgenStanzaCounts host (some p) = some counts) (hn : 2 ≤ n) :
    checkSharding (V := ℕ) host .eventgen .countInterval none (some p) [] n =
      checkCounts counts n := by
  have hstanzas : stanzaCounts host (some p) [] = some counts := hcounts
  rw [checkSharding_of_two hn, checkFleet, if_neg (by simp), if_neg (by simp), if_neg (by simp)]
  simp only [hstanzas]

/-- The worker count that the sharding gate suggests is the best one: the run is let through with it
and with every smaller one, and refused with every larger one. -/
theorem sharding_advice_best {k : ℕ}
    (h : checkSharding host engine mode metricsConfig packDir packDirs workers = .ok check)
    (hrej : check.ok = false) (hk : check.suggestedWorkers = some k) :
    ShardingAccepts host engine mode metricsConfig packDir packDirs k ∧
      (∀ n, 1 ≤ n → n ≤ k → ShardingAccepts host engine mode metricsConfig packDir packDirs n) ∧
      ∀ n, k < n → ShardingRejects host engine mode metricsConfig packDir packDirs n := by
  have hmany : 2 ≤ workers := by
    by_contra hfew
    have hone : ShardingAccepts host engine mode metricsConfig packDir packDirs workers :=
      shardingAccepts_one (by omega)
    obtain ⟨check', hcheck', hok⟩ := hone
    obtain rfl : check = check' := Except.ok.inj (h.symm.trans hcheck')
    rw [hok] at hrej
    cases hrej
  rw [checkSharding_of_two hmany] at h
  obtain ⟨most, hmost, hgate⟩ := checkFleet_threshold h hrej
  obtain rfl : max 1 most = k := Option.some.inj (hmost.symm.trans hk)
  have hupTo : ∀ n, n ≤ max 1 most →
      ShardingAccepts host engine mode metricsConfig packDir packDirs n := by
    intro n hn
    by_cases hone : n ≤ 1
    · exact shardingAccepts_one hone
    · obtain ⟨check', hcheck', hok⟩ := hgate n (by omega)
      rw [← checkSharding_of_two (by omega)] at hcheck'
      exact ⟨check', hcheck', by rw [hok]; exact decide_eq_true (by omega)⟩
  refine ⟨hupTo _ le_rfl, fun n _ hn => hupTo n hn, fun n hn => ?_⟩
  obtain ⟨check', hcheck', hok⟩ := hgate n (by omega)
  rw [← checkSharding_of_two (by omega)] at hcheck'
  exact ⟨check', hcheck', by rw [hok]; exact decide_eq_false (by omega)⟩

/-- A conf with one stanza that declares two events. -/
def twoEvents : Parser where
  defaults := { entries := [], nodup := nodup_nil }
  sections := [("web.log", { entries := [("count", some "2")] })]
  distinct := by decide

/-- Two events cannot keep three workers busy. -/
theorem sharding_advice_best_two_events :
    ShardingRejects (V := ℕ) digitsHost .eventgen .countInterval none (some twoEvents) [] 3 ∧
      ShardingAccepts (V := ℕ) digitsHost .eventgen .countInterval none (some twoEvents) [] 2 := by
  have hcounts : eventgenStanzaCounts digitsHost (some twoEvents) = some [some (.num 2)] := by
    decide +kernel
  have hactive : countIntervalActiveWorkers [some (.num 2)] 3 = .ok 2 := by decide +kernel
  have hcheck := checkSharding_of_counts hcounts (by decide : 2 ≤ 3)
  rw [checkCounts, if_neg (by decide), hactive] at hcheck
  obtain ⟨htwo, _, hmore⟩ := sharding_advice_best hcheck rfl rfl
  exact ⟨hmore 3 (by decide), htwo⟩

end

end Stoker
