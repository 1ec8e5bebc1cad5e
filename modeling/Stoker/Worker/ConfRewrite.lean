import Mathlib.Data.List.DropRight
import Mathlib.Data.Prod.Lex
import Stoker.Packs.Parser
import Stoker.Server.Apportion

/-!
# The conf rewrite of a worker

`worker/stoker_agent/confrewrite.py`. The agent rewrites the pack's conf before it starts the
engine: the output side is its own, and the share of the slot is spread over the stanzas that have a
pace to be given (all but the replays). In eps mode that is a count each second, in per_day_gb mode
a volume, and in count_interval mode the slot's part of every declared count. A backfill then gives
every stanza the range.

A section is known by its name, and a loop over sections that sets options is one change of the
conf.
-/

open List

namespace Stoker

namespace ConfRewrite

/-! ### Texts -/

/-- `str` of an integer. -/
def intText : ℤ → Text
  | .ofNat n => Nat.toDigits 10 n
  | .negSucc n => '-' :: Nat.toDigits 10 (n + 1)

def sixDecimals (value : ℚ) : Text :=
  let millionths := (pyRound (|value| * 10 ^ 6)).toNat
  (if value < 0 then ['-'] else []) ++ Nat.toDigits 10 (millionths / 10 ^ 6) ++
    '.' :: (Nat.toDigits 10 (millionths % 10 ^ 6)).leftpad 6 '0'

/-- `_fmt_number`, which fails where `int` does. -/
def fmtNumber (value : PyFloat) : Except PyError Text := do
  let whole ← value.int
  if value = .num whole then return intText whole
  else return ((sixDecimals value.value).rdropWhile (· = '0')).rdropWhile (· = '.')

def modeKey : Text := "mode"
def countKey : Text := "count"
def intervalKey : Text := "interval"
def endKey : Text := "end"
def earliestKey : Text := "earliest"
def latestKey : Text := "latest"
def perDayVolumeKey : Text := "perDayVolume"
def randomizeCountKey : Text := "randomizeCount"
def backfillEndKey : Text := "backfillEnd"

/-- `-%ds`. -/
def offsetText (seconds : ℤ) : Text := '-' :: intText seconds ++ ['s']

/-! ### Largest remainder -/

/-- The weights that `largest_remainder` goes by, with their sum: equal ones where those given are
zero or not finite. -/
def usableWeights (weights : List PyFloat) : List PyFloat × ℚ :=
  let equal := (replicate weights.length (PyFloat.num 1), (weights.length : ℚ))
  match PyFloat.sum weights with
  | .num weightSum => if weightSum ≤ 0 then equal else (weights, weightSum)
  | _ => equal

/-- `largest_remainder` of the worker: the chosen parts are raised one after the other. -/
def largestRemainder (total : ℤ) (weights : List PyFloat) : Except PyError (List ℤ) :=
  if total < 0 then .error (.valueError "total must be >= 0")
  else if weights.length = 0 then .ok []
  else
    let (ws, weightSum) := usableWeights weights
    let exact := ws.map fun w => (total : ℚ) * (w.value / weightSum)
    let floors := exact.map fun x => ⌊x⌋
    let shortfall := total - floors.sum
    let key := fun i => (-(exact.getD i 0 - floors.getD i 0), i)
    let remainders := (range weights.length).insertionSort fun i j => toLex (key i) ≤ toLex (key j)
    .ok ((remainders.take shortfall.toNat).foldl (fun parts i => parts.modify i (· + 1)) floors)

/-! ### The stanzas -/

section

variable (host : ConfHost) (p : Parser)

/-- `_is_replay`: a `mode` without a value has nothing to strip. -/
def isReplay (name : Text) : Except PyError Bool :=
  match p.get name modeKey with
  | none => .ok (host.strip [] = "replay")
  | some none => .error (.attributeError "'NoneType' object has no attribute 'strip'")
  | some (some mode) => .ok (host.strip mode = "replay")

def filterNames (test : Text → Except PyError Bool) : List Text → Except PyError (List Text)
  | [] => .ok []
  | name :: names => do
    let yes ← test name
    let rest ← filterNames test names
    return if yes then name :: rest else rest

/-- The sample sections that are not replays. -/
def paced : Except PyError (List Text) :=
  filterNames (fun name => return !(← isReplay host p name)) (p.sampleSections host)

def declaredEpsWeights (names : List Text) : List PyFloat :=
  let raw := names.map fun name =>
    match p.getFloat host name countKey with
    | none => none
    | some count =>
      if count.pos then
        let step := match p.getFloat host name intervalKey with
          | none => .num 60
          | some interval => if interval.pos then interval else .num 60
        some (count.div step)
      else none
  let declared := raw.filterMap id
  let fill := if declared.isEmpty then .num 1 else (PyFloat.sum declared).div (.num declared.length)
  raw.map (·.getD fill)

end

/-! ### The output side -/

def isOutputKey (key : Text) : Bool :=
  key ∈ ["outputMode".toList, "splunkHost".toList, "splunkPort".toList, "splunkMethod".toList,
    "index", "sourcetype", "source", "host"] ||
  "httpevent".toList.isPrefixOf key

def stripOutputKeys (p : Parser) : Parser :=
  (p.filterDefaults (!isOutputKey ·)).update fun _ own => own.filter (!isOutputKey ·)

/-- The sections write to the agent and read the samples of the bundle. -/
def takeOver (sampleDir : Text) (p : Parser) : Parser :=
  p.update fun _ own =>
    (own.set "outputMode" (some "stoker")).set "sampleDir" (some sampleDir)

def isRateMap (key : Text) : Bool :=
  key ∈ ["hourOfDayRate".toList, "dayOfWeekRate".toList, "minuteOfHourRate".toList,
    "dayOfMonthRate", "monthOfYearRate"]

def stripRateMaps (host : ConfHost) (p : Parser) : Except PyError Parser := do
  let flat := p.filterDefaults (!isRateMap ·)
  let replays ← filterNames (isReplay host flat) flat.names
  return flat.update fun name own => if name ∈ replays then own else own.filter (!isRateMap ·)

/-! ### The share -/

/-- A loop over sections with a value each: every section is changed by its own value. -/
def setEach {V : Type} (names : List Text) (values : List V) (change : V → Options → Options)
    (p : Parser) : Parser :=
  p.update fun name own =>
    match (names.zip values).lookup name with
    | none => own
    | some value => change value own

/-- The weights of a rewrite, which the agent leaves to the declarations, one for each section. -/
def weightsFor (host : ConfHost) (p : Parser) (names : List Text)
    (weights : Option (List PyFloat)) : Except PyError (List PyFloat) :=
  let weights := weights.getD (declaredEpsWeights host p names)
  if weights.length ≠ names.length then
    .error (.confRewriteError ("weights length " ++ Nat.toDigits 10 weights.length ++
      " != stanza count " ++ Nat.toDigits 10 names.length))
  else .ok weights

/-- What `_rewrite_eps` sets in a section. -/
def setCount (count : ℤ) (own : Options) : Options :=
  ((own.set intervalKey (some "1")).set countKey (some (intText (max 1 count)))).remove
    randomizeCountKey

def rewriteEps (host : ConfHost) (names : List Text) (shareEps overdrive : ℚ)
    (weights : Option (List PyFloat)) (p : Parser) : Except PyError Parser := do
  let weights ← weightsFor host p names weights
  let counts ← largestRemainder (pyRound (shareEps * overdrive)) weights
  return setEach names counts setCount p

def rewritePerDayGb (host : ConfHost) (names : List Text) (shareGb overdrive : ℚ) (p : Parser) :
    Except PyError Parser := do
  let target := shareGb * overdrive
  let declared := names.filterMap fun name =>
    match p.getFloat host name perDayVolumeKey with
    | none => none
    | some vol => if vol.pos then some (name, vol) else none
  let undeclared := names.filter fun name => (declared.lookup name).isNone
  let perUndeclared := if undeclared.isEmpty then 0 else target / names.length
  let declaredTarget := max 0 (target - perUndeclared * undeclared.length)
  let declaredSum := PyFloat.sum (declared.map Prod.snd)
  let volumes ← names.mapM fun name =>
    match declared.lookup name with
    | none => fmtNumber (.num perUndeclared)
    | some vol =>
      fmtNumber (if declaredSum.pos then ((PyFloat.num declaredTarget).mul vol).div declaredSum
        else .num 0)
  return setEach names volumes (fun volume own => own.set perDayVolumeKey (some volume)) p

/-- The count that `_rewrite_count_interval` sets in a section, if it sets one. -/
def splitCount (host : ConfHost) (slot totalWorkers : ℕ) (p : Parser) (name : Text) :
    Except PyError (Option ℤ) :=
  match p.getFloat host name countKey with
  | none => .ok none
  | some count =>
    if count.neg then .ok none
    else do
      let total ← count.int
      let shares ← largestRemainder total (replicate totalWorkers (.num 1))
      return shares[slot]?

/-- What `_rewrite_count_interval` sets in a section. -/
def setSplit (count : Option ℤ) (own : Options) : Options :=
  match count with
  | none => own
  | some count => own.set countKey (some (intText count))

def rewriteCountInterval (host : ConfHost) (names : List Text) (slot totalWorkers : ℕ)
    (p : Parser) : Except PyError Parser :=
  if totalWorkers ≤ slot then
    .error (.confRewriteError ("slot " ++ Nat.toDigits 10 slot ++ " out of range for " ++
      Nat.toDigits 10 totalWorkers ++ " workers"))
  else do
    let counts ← names.mapM (splitCount host slot totalWorkers p)
    return setEach names counts setSplit p

/-! ### Backfill -/

/-- How a history is produced: swept in order, or drawn from the widened window. -/
inductive BackfillMode where
  | sweep
  | window
  deriving DecidableEq

structure BackfillRange where
  windowS : Option ℚ := none
  endOffsetS : Option ℚ := none
  mode : BackfillMode := .window
  densityEps : Option ℚ := none

/-- The window is set and positive. -/
def BackfillRange.window (b : BackfillRange) : Option ℚ := b.windowS.filter (0 < ·)

/-- How far back from now the range starts and ends. -/
def BackfillRange.bounds (b : BackfillRange) (windowS : ℚ) : ℤ × ℤ :=
  match b.endOffsetS.filter (0 < ·) with
  | none => (truncate windowS, 0)
  | some endOffset => (truncate endOffset + truncate windowS, truncate endOffset)

def setWindow (start finish : ℤ) (own : Options) : Options :=
  (own.set earliestKey (some (offsetText start))).set latestKey
    (some (if finish = 0 then "now" else offsetText finish))

/-- The first loop of `_rewrite_backfill_sweep`. -/
def setSweep (start finish : ℤ) (own : Options) : Options :=
  let own := own.set "backfill" (some (offsetText start))
  let own := if 0 < finish then own.set backfillEndKey (some (offsetText finish))
    else own.remove backfillEndKey
  setWindow start finish (own.set "backfillOnly" (some "true"))

def densityCountInterval (eps : PyFloat) : Except PyError (ℤ × ℤ) :=
  match eps with
  | .num eps =>
    if 10 ≤ eps then .ok (1, max 1 (pyRound eps))
    else
      let interval := min 3600 ⌈10 / eps⌉
      .ok (interval, max 1 (pyRound (eps * interval)))
  | .nan => .error (.valueError "cannot convert float NaN to integer")
  | .inf | .negInf => .error (.overflowError "cannot convert float infinity to integer")

/-- What the second loop of `_rewrite_backfill_sweep` sets in a section: nothing to generate, or an
interval and a count. -/
def setDensity (density : Option (ℤ × ℤ)) (own : Options) : Options :=
  match density with
  | none => own.set endKey (some "0")
  | some (interval, count) =>
    ((own.set intervalKey (some (intText interval))).set countKey (some (intText count))).remove
      randomizeCountKey

def rewriteBackfillSweep (host : ConfHost) (names : List Text) (start finish : ℤ)
    (densityEps : Option ℚ) (weights : Option (List PyFloat)) (p : Parser) :
    Except PyError Parser :=
  let swept := p.update fun name own => if name ∈ names then setSweep start finish own else own
  match densityEps.filter (0 < ·) with
  | none => .ok swept
  | some density => do
    let weights ← weightsFor host swept names weights
    let totalWeight := PyFloat.sum weights
    if totalWeight.pos = false ∧ totalWeight ≠ .nan then
      throw (.confRewriteError "backfill density needs a positive stanza weight")
    let densities ← weights.mapM fun weight => do
      let eps := ((PyFloat.num density).mul weight).div totalWeight
      if eps.pos = false ∧ eps ≠ .nan then return none
      else return some (← densityCountInterval eps)
    return setEach names densities setDensity swept

/-! ### The rewrite -/

/-- What the rewrite of a slot is asked for. -/
structure RewriteRequest where
  mode : RateMode
  shareValue : Option ℚ := none
  overdrive : ℚ := 1
  sampleDir : Text := []
  slot : ℕ := 0
  totalWorkers : ℕ := 1
  weights : Option (List PyFloat) := none
  backfill : BackfillRange := {}

/-- The part of `rewrite` that gives the stanzas their share. -/
def rewriteShare (host : ConfHost) (r : RewriteRequest) (names : List Text) (p : Parser) :
    Except PyError Parser :=
  match r.mode with
  | .eps =>
    match r.shareValue.filter (0 < ·) with
    | none => .error (.confRewriteError "eps mode requires share_value > 0")
    | some share => do
      let flat ← stripRateMaps host p
      if names.isEmpty then return flat
      else rewriteEps host names share r.overdrive r.weights flat
  | .perDayGb =>
    match r.shareValue.filter (0 < ·) with
    | none => .error (.confRewriteError "per_day_gb mode requires share_value > 0")
    | some share =>
      if names.isEmpty then .ok p else rewritePerDayGb host names share r.overdrive p
  | .countInterval => rewriteCountInterval host names r.slot r.totalWorkers p

/-- The part of `rewrite` that gives the stanzas the range of a backfill. The weights of a sweep are
read before the share is written over them. -/
def rewriteBackfill (host : ConfHost) (r : RewriteRequest) (names : List Text)
    (sweepWeights : Option (List PyFloat)) (p : Parser) : Except PyError Parser :=
  match r.backfill.window with
  | none => .ok p
  | some windowS =>
    let (start, finish) := r.backfill.bounds windowS
    match r.backfill.mode with
    | .sweep => rewriteBackfillSweep host names start finish r.backfill.densityEps sweepWeights p
    | .window =>
      .ok (p.update fun name own => if name ∈ names then setWindow start finish own else own)

def rewrite (host : ConfHost) (r : RewriteRequest) (p : Parser) : Except PyError Parser := do
  let owned := takeOver r.sampleDir (stripOutputKeys p)
  let names ← paced host owned
  let sweepWeights :=
    if r.backfill.mode = .sweep ∧ r.backfill.window.isSome then
      some (r.weights.getD (declaredEpsWeights host owned names))
    else none
  let shared ← rewriteShare host r names owned
  rewriteBackfill host r names sweepWeights shared

/-! ### Assigned work -/

/-- `end = 0`, which tells eventgen to generate nothing. -/
def endsAtOnce (host : ConfHost) (p : Parser) (name : Text) : Bool :=
  host.strip ((p.get name endKey).join.getD []) = "0"

/-- Whether `assigned_stanza_count` counts a paced stanza. -/
def isAssigned (host : ConfHost) (mode : RateMode) (p : Parser) (name : Text) : Bool :=
  if endsAtOnce host p name then false
  else if mode ≠ .countInterval then true
  else match p.getFloat host name countKey with
    | none => true
    | some count => count.pos || count.neg

def assignedStanzaCount (host : ConfHost) (mode : RateMode) (p : Parser) : Except PyError ℕ := do
  let replays ← filterNames (isReplay host p) (p.sampleSections host)
  let names ← paced host p
  return replays.length + (names.filter (isAssigned host mode p)).length

/-! ### What the rewrite keeps -/

/-- No `mode` stands without a value, so that every stanza is a replay or not. -/
def ModesGiven (p : Parser) : Prop := ∀ name ∈ p.names, p.get name modeKey ≠ some none

instance (p : Parser) : Decidable (ModesGiven p) :=
  inferInstanceAs (Decidable (∀ name ∈ p.names, _))

/-- Whether a stanza is a replay, where that can be said. -/
def replays (host : ConfHost) (p : Parser) (name : Text) : Bool :=
  host.strip ((p.get name modeKey).join.getD []) = "replay"

/-- The sample sections that have a pace to be given. -/
def pacedNames (host : ConfHost) (p : Parser) : List Text :=
  (p.sampleSections host).filter (!replays host p ·)

section

variable {host : ConfHost} {p q : Parser} {name key : Text}

lemma isReplay_of_given (h : p.get name modeKey ≠ some none) :
    isReplay host p name = .ok (replays host p name) := by
  unfold isReplay replays
  cases hm : p.get name modeKey with
  | none => rfl
  | some value =>
    cases value with
    | none => exact absurd hm h
    | some mode => rfl

lemma filterNames_of_ok {test : Text → Except PyError Bool} {f : Text → Bool} {names : List Text}
    (h : ∀ name ∈ names, test name = .ok (f name)) :
    filterNames test names = .ok (names.filter f) := by
  induction names with
  | nil => rfl
  | cons name names ih =>
    have hrest := ih fun n hn => h n (mem_cons_of_mem _ hn)
    rw [filterNames, h name mem_cons_self, hrest, filter_cons]
    rfl

lemma mem_names_of_sampleSections (h : name ∈ p.sampleSections host) : name ∈ p.names :=
  (mem_filter.1 h).1

lemma paced_of_given (h : ModesGiven p) : paced host p = .ok (pacedNames host p) := by
  refine filterNames_of_ok fun name hname => ?_
  rw [isReplay_of_given (h name (mem_names_of_sampleSections hname))]
  rfl

lemma mem_names_of_paced (h : name ∈ pacedNames host p) : name ∈ p.names :=
  mem_names_of_sampleSections (mem_filter.1 h).1

lemma nodup_pacedNames : (pacedNames host p).Nodup :=
  (p.distinct.filter _).filter _

/-- Two confs with the same sections and the same modes have the same paced stanzas. -/
lemma pacedNames_congr (hs : q.names = p.names)
    (h : ∀ name, q.get name modeKey = p.get name modeKey) :
    pacedNames host q = pacedNames host p := by
  unfold pacedNames replays Parser.sampleSections
  simp only [hs, h]

lemma ModesGiven.congr (hp : ModesGiven p) (hs : q.names = p.names)
    (h : ∀ name, q.get name modeKey = p.get name modeKey) : ModesGiven q := by
  intro name hname
  rw [h]
  exact hp name (hs ▸ hname)

lemma get_stripOutputKeys (h : isOutputKey key = false) :
    (stripOutputKeys p).get name key = p.get name key := by
  rw [stripOutputKeys, Parser.get_update_of fun o => Options.get_filter (by simp [h]),
    Parser.get_filterDefaults (by simp [h])]

lemma get_takeOver {sampleDir : Text} (hmode : key ≠ "outputMode".toList)
    (hdir : key ≠ "sampleDir") : (takeOver sampleDir p).get name key = p.get name key := by
  refine Parser.get_update_of fun o => ?_
  rw [Options.get_set, if_neg hdir, Options.get_set, if_neg hmode]

/-- The conf once the agent has taken the output side over. -/
def owned (r : RewriteRequest) (p : Parser) : Parser := takeOver r.sampleDir (stripOutputKeys p)

@[simp] lemma names_owned (r : RewriteRequest) : (owned r p).names = p.names := by
  simp [owned, takeOver, stripOutputKeys]

lemma get_owned (r : RewriteRequest) (hout : isOutputKey key = false)
    (hdir : key ≠ "sampleDir".toList) : (owned r p).get name key = p.get name key := by
  have hmode : key ≠ "outputMode".toList := by
    rintro rfl
    exact absurd hout (by decide)
  rw [owned, get_takeOver hmode hdir, get_stripOutputKeys hout]

lemma get_owned_mode (r : RewriteRequest) (name : Text) :
    (owned r p).get name modeKey = p.get name modeKey := get_owned r (by decide) (by decide)

lemma ModesGiven.owned (r : RewriteRequest) (h : ModesGiven p) : ModesGiven (owned r p) :=
  h.congr (names_owned r) (get_owned_mode r)

@[simp] lemma pacedNames_owned (r : RewriteRequest) :
    pacedNames host (owned r p) = pacedNames host p :=
  pacedNames_congr (names_owned r) (get_owned_mode r)

@[simp] lemma getFloat_count_owned (r : RewriteRequest) :
    (owned r p).getFloat host name countKey = p.getFloat host name countKey := by
  rw [Parser.getFloat, get_owned r (by decide) (by decide)]
  rfl

@[simp] lemma endsAtOnce_owned (r : RewriteRequest) :
    endsAtOnce host (owned r p) name = endsAtOnce host p name := by
  rw [endsAtOnce, get_owned r (by decide) (by decide)]
  rfl

lemma rewrite_of_share {r : RewriteRequest} (hmodes : ModesGiven p) (hb : r.backfill.window = none)
    (hshare : rewriteShare host r (pacedNames host p) (owned r p) = .ok q) :
    rewrite host r p = .ok q := by
  change (paced host (owned r p) >>= _) = _
  rw [paced_of_given (hmodes.owned r), pacedNames_owned]
  change (rewriteShare host r (pacedNames host p) (owned r p) >>= _) = _
  rw [hshare]
  change rewriteBackfill host r _ _ q = _
  rw [rewriteBackfill, hb]

/-! ### Values for names -/

/-- Values that stand beside distinct names are found under them. -/
lemma map_lookup_zip {V : Type} {names : List Text} {values : List V} (hn : names.Nodup)
    (hlen : values.length = names.length) :
    names.map (fun name => (names.zip values).lookup name) = values.map some := by
  induction names generalizing values with
  | nil =>
    rw [length_nil, length_eq_zero_iff] at hlen
    rw [hlen]
    rfl
  | cons name names ih =>
    obtain ⟨value, values, rfl⟩ := exists_cons_of_length_eq_add_one hlen
    rw [nodup_cons] at hn
    rw [zip_cons_cons, map_cons, map_cons, lookup_cons_eq (e := (name, value)) rfl,
      ← ih hn.2 (by simpa using hlen)]
    refine congrArg (some value :: ·) (map_congr_left fun other hother => ?_)
    refine lookup_cons_ne fun heq => hn.1 ?_
    obtain rfl : other = name := heq
    exact hother

lemma exists_lookup_zip {V : Type} {names : List Text} {values : List V} (hn : names.Nodup)
    (hlen : values.length = names.length) (hname : name ∈ names) :
    ∃ value ∈ values, (names.zip values).lookup name = some value := by
  have hmem : (names.zip values).lookup name ∈ names.map fun n => (names.zip values).lookup n :=
    mem_map_of_mem hname
  rw [map_lookup_zip hn hlen] at hmem
  obtain ⟨value, hvalue, heq⟩ := mem_map.1 hmem
  exact ⟨value, hvalue, heq.symm⟩

section

variable {V : Type} {names : List Text} {values : List V} {change : V → Options → Options}

@[simp] lemma names_setEach : (setEach names values change p).names = p.names := Parser.names_update

/-- A key that no change touches is read as before. -/
lemma get_setEach_of (h : ∀ value (o : Options), (change value o).get key = o.get key) :
    (setEach names values change p).get name key = p.get name key := by
  refine Parser.get_update_of fun o => ?_
  cases (names.zip values).lookup name with
  | none => rfl
  | some value => exact h value o

lemma get_setEach_set {t : V → Text} (hname : name ∈ p.names) {value : V}
    (hvalue : (names.zip values).lookup name = some value)
    (h : ∀ o : Options, (change value o).get key = some (some (t value))) :
    (setEach names values change p).get name key = some (some (t value)) := by
  refine Parser.get_update_set hname fun o => ?_
  rw [hvalue]
  exact h o

end

end

end ConfRewrite

end Stoker
