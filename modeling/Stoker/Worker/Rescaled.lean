import Stoker.Transition.Fallible
import Stoker.Worker.Shaping
import Stoker.Worker.Supply

/-!
# The conf of a rescaled worker

A worker writes the conf of its engine when it prepares, and again when a retarget moves its share
beyond the headroom of the engine (`Agent.run`, `_retarget` and `_rewrite_and_restart`). The second
time the range of a backfill is not passed on, and the conf is written for the other engines too,
which never had one. So the conf is the one of a fresh start exactly for an eventgen run without a
backfill window.
-/

namespace Stoker

open ConfRewrite Transition

/-! ### The agent -/

/-- What the conf of a worker depends on, of its slice of the run. -/
structure RunSlice where
  engine : Engine
  mode : RateMode
  rateValue : Option ℚ := none
  slot : ℕ := 0
  totalWorkers : ℕ := 1
  rateShape : Option Text := none
  backfillStartS : Option ℚ := none
  backfillEndS : Option ℚ := none
  backfillDensityEps : Option ℚ := none

/-- The slice with another share. -/
def RunSlice.withRate (s : RunSlice) (value : Option ℚ) : RunSlice := { s with rateValue := value }

/-- What it depends on besides: the conf of the pack and where its samples are, the overdrive of the
agent, and how the installed engine produces a history. -/
structure Surroundings where
  conf : Parser
  samplesDir : Text := []
  overdrive : ℚ := 1
  backfillMode : BackfillMode := .window

/-- A worker once it is prepared, with the conf that it has written. -/
structure Prepared where
  slice : RunSlice
  shape : Option ShapeCurve
  conf : Option Parser

/-- The range that the initial preparation passes to the rewrite. -/
def RunSlice.range (s : RunSlice) (mode : BackfillMode) (now : ℚ) : BackfillRange :=
  match s.backfillStartS, s.backfillEndS with
  | some start, some finish =>
    { windowS := some (finish - start)
      endOffsetS := some (max 0 (now - finish))
      mode := mode
      densityEps := (s.backfillDensityEps.filter (· ≠ 0)).map (· / max 1 s.totalWorkers) }
  | _, _ => {}

section

variable (host : ShapeHost) (around : Surroundings)

def setupShape (s : RunSlice) : Except PyError (Option ShapeCurve) :=
  if s.rateShape ≠ some "pack".toList then .ok none
  else if s.engine ≠ .eventgen ∨ s.mode ≠ .eps ∨ s.backfillStartS.isSome then .ok none
  else
    match curveFromParser host around.conf with
    | .error (.confRewriteError _) => .ok none
    | outcome => outcome

def rewriteRequest (s : RunSlice) (shape : Option ShapeCurve) (range : BackfillRange) :
    RewriteRequest where
  mode := s.mode
  shareValue := engineShare shape s.rateValue
  overdrive := around.overdrive
  sampleDir := around.samplesDir
  slot := s.slot
  totalWorkers := s.totalWorkers
  backfill := range

def prepare (now : ℚ) (s : RunSlice) : Except PyError Prepared := do
  let shape ← setupShape host around s
  if s.engine = .eventgen then
    let request := rewriteRequest around s shape (s.range around.backfillMode now)
    let conf ← rewrite host.toConfHost request around.conf
    return { slice := s, shape := shape, conf := some conf }
  else return { slice := s, shape := shape, conf := none }

/-- The share of a retarget: numbers by key, where they are numbers. -/
abbrev RetargetShare := List (Text × Option ℚ)

def shareMode (key : Text) : Option RateMode :=
  if key = "eps" then some .eps
  else if key = "per_day_gb" then some .perDayGb
  else if key = "count" then some .countInterval
  else none

def retargetInPlaceBand : ℚ := 15 / 100

/-- The conf has to be written again: the engine is paced by it alone, or the share moves out of the
band. -/
def needsRewrite (mode : RateMode) (old : Option ℚ) (new : ℚ) : Bool :=
  mode = .countInterval || match old.filter (· ≠ 0) with
    | none => true
    | some old => retargetInPlaceBand < |new / old - 1|

def rewriteAndRestart (w : Prepared) : Except PyError Prepared := do
  let conf ← rewrite host.toConfHost (rewriteRequest around w.slice w.shape {}) around.conf
  return { w with conf := some conf }

/-- `_retarget`; says whether the conf was written again. -/
def retarget (share : RetargetShare) (w : Prepared) : Except PyError (Prepared × Bool) :=
  match share with
  | [(key, some new)] =>
    if shareMode key ≠ some w.slice.mode ∨ new ≤ 0 then .ok (w, false)
    else
      let moved := { w with slice := w.slice.withRate (some new) }
      if needsRewrite w.slice.mode w.slice.rateValue new then
        return (← rewriteAndRestart host around moved, true)
      else .ok (moved, false)
  | _ => .ok (w, false)

def retargets (shares : List RetargetShare) (w : Prepared) : Except PyError Prepared :=
  shares.foldlM (fun w share => Prod.fst <$> retarget host around share w) w

end

/-- The backfill window that is in effect. -/
def RunSlice.window (s : RunSlice) : Option ℚ :=
  match s.backfillStartS, s.backfillEndS with
  | some start, some finish => (some (finish - start)).filter (0 < ·)
  | _, _ => none

/-- Whatever the share the worker starts with, after any retargets the last of which makes it write
its conf again, the conf is the one that a fresh start with the share it has now writes. -/
def RescalesToFresh (s : RunSlice) : Prop :=
  ∀ (host : ShapeHost) (around : Surroundings) (start now : ℚ) (initial : Option ℚ)
    (shares : List RetargetShare) (share : RetargetShare) (w₀ w w' : Prepared),
    prepare host around start (s.withRate initial) = .ok w₀ →
    retargets host around shares w₀ = .ok w → retarget host around share w = .ok (w', true) →
    (prepare host around now w'.slice).map Prepared.conf = .ok w'.conf

/-! ### Runs without a window -/

variable {w : Prepared}

section

variable {host : ShapeHost} {around : Surroundings} {s : RunSlice}

lemma setupShape_rate (v : Option ℚ) :
    setupShape host around (s.withRate v) = setupShape host around s := rfl

lemma range_window (mode : BackfillMode) (now : ℚ) : (s.range mode now).window = s.window := by
  unfold RunSlice.range RunSlice.window BackfillRange.window
  cases s.backfillStartS with
  | none => rfl
  | some start =>
    cases s.backfillEndS with
    | none => rfl
    | some finish => rfl

lemma rewrite_of_no_window (host : ConfHost) (r : RewriteRequest) (p : Parser)
    {range : BackfillRange} (h : range.window = none) (h' : r.backfill.window = none) :
    rewrite host { r with backfill := range } p = rewrite host r p := by
  have hbackfill : ∀ names weights q,
      rewriteBackfill host { r with backfill := range } names weights q = .ok q := by
    intro names weights q
    rw [rewriteBackfill, h]
  have hbackfill' : ∀ names weights q, rewriteBackfill host r names weights q = .ok q := by
    intro names weights q
    rw [rewriteBackfill, h']
  unfold rewrite
  simp only [hbackfill, hbackfill']
  rfl

/-- What a retarget does: it keeps the run and the shape of a worker, and when it writes the conf
again it writes the one of the share the worker then has. -/
structure Retargeted (host : ShapeHost) (around : Surroundings) (w w' : Prepared) (wrote : Bool) :
    Prop where
  shape : w'.shape = w.shape
  slice : ∃ v, w'.slice = w.slice.withRate v
  conf : wrote = true → ∃ conf, w'.conf = some conf ∧
    rewrite host.toConfHost (rewriteRequest around w'.slice w'.shape {}) around.conf = .ok conf

lemma Retargeted.refl (w : Prepared) : Retargeted host around w w false :=
  ⟨rfl, ⟨w.slice.rateValue, rfl⟩, fun h => nomatch h⟩

lemma retarget_ok {share : RetargetShare} {w' : Prepared} {wrote : Bool}
    (h : retarget host around share w = .ok (w', wrote)) : Retargeted host around w w' wrote := by
  unfold retarget at h
  split at h
  · rename_i key new
    split_ifs at h with hignored hrewrite
    · cases h
      exact .refl w
    · obtain ⟨r, hr, h⟩ := bind_ok h
      obtain ⟨conf, hconf, hr⟩ := bind_ok hr
      cases hr
      cases h
      exact ⟨rfl, ⟨_, rfl⟩, fun _ => ⟨conf, rfl, hconf⟩⟩
    · cases h
      exact ⟨rfl, ⟨_, rfl⟩, fun h => nomatch h⟩
  · cases h
    exact .refl w

lemma retargets_ok {shares : List RetargetShare} {w₀ : Prepared}
    (h : retargets host around shares w₀ = .ok w) :
    w.shape = w₀.shape ∧ ∃ v, w.slice = w₀.slice.withRate v := by
  refine foldlM_invariant (I := fun w => w.shape = w₀.shape ∧
    ∃ v, w.slice = w₀.slice.withRate v) ?_ h
    ⟨rfl, w₀.slice.rateValue, rfl⟩
  rintro w share w' - hstep ⟨hshape, v, hslice⟩
  obtain ⟨⟨w'', wrote⟩, hret, rfl⟩ : ∃ r, retarget host around share w = .ok r ∧ r.1 = w' := by
    cases hr : retarget host around share w with
    | error e =>
      rw [hr] at hstep
      cases hstep
    | ok r =>
      rw [hr] at hstep
      cases hstep
      exact ⟨r, rfl, rfl⟩
  obtain ⟨hshape', ⟨v', hslice'⟩, -⟩ := retarget_ok hret
  refine ⟨hshape'.trans hshape, v', ?_⟩
  rw [hslice', hslice]
  rfl

variable {now : ℚ}

lemma prepare_of_rewrite (hengine : s.engine = .eventgen) {shape : Option ShapeCurve}
    {conf : Parser} (hsetup : setupShape host around s = .ok shape)
    (hrewrite : rewrite host.toConfHost
      (rewriteRequest around s shape (s.range around.backfillMode now)) around.conf = .ok conf) :
    prepare host around now s = .ok { slice := s, shape := shape, conf := some conf } := by
  unfold prepare
  rw [hsetup]
  simp only [bind, Except.bind, hengine, if_true, hrewrite]
  rfl

lemma prepare_ok (h : prepare host around now s = .ok w) :
    setupShape host around s = .ok w.shape ∧ w.slice = s := by
  obtain ⟨shape, hshape, h⟩ := bind_ok h
  split_ifs at h
  · obtain ⟨conf, -, h⟩ := bind_ok h
    cases h
    exact ⟨hshape, rfl⟩
  · cases h
    exact ⟨hshape, rfl⟩

/-- Outside the fleet no counts are split, and no conf is written. -/
lemma rewrite_of_no_part (host : ConfHost) {r : RewriteRequest} (hmode : r.mode = .countInterval)
    (hslot : r.totalWorkers ≤ r.slot) (p q : Parser) : rewrite host r p ≠ .ok q := by
  intro h
  obtain ⟨names, -, h⟩ := bind_ok h
  obtain ⟨shared, hshared, -⟩ := bind_ok h
  rw [rewriteShare, hmode] at hshared
  rw [ConfRewrite.rewriteCountInterval, if_pos hslot] at hshared
  cases hshared

lemma rescales_of_no_part (hmode : s.mode = .countInterval) (hslot : s.totalWorkers ≤ s.slot) :
    RescalesToFresh s := by
  intro host around start now initial shares share w₀ w w' hprep hrun hlast
  obtain ⟨-, hslice₀⟩ := prepare_ok hprep
  obtain ⟨-, v, hslice⟩ := retargets_ok hrun
  obtain ⟨-, ⟨v', hslice'⟩, hwrote⟩ := retarget_ok hlast
  obtain ⟨conf, -, hrewrite⟩ := hwrote rfl
  rw [hslice', hslice, hslice₀] at hrewrite
  exact absurd hrewrite (rewrite_of_no_part host.toConfHost hmode hslot around.conf conf)

lemma rescales_of_no_window (hengine : s.engine = .eventgen) (hwindow : s.window = none) :
    RescalesToFresh s := by
  intro host around start now initial shares share w₀ w w' hprep hrun hlast
  obtain ⟨hshape₀, hslice₀⟩ := prepare_ok hprep
  obtain ⟨hshape, v, hslice⟩ := retargets_ok hrun
  obtain ⟨hshape', ⟨v', hslice'⟩, hwrote⟩ := retarget_ok hlast
  obtain ⟨conf, hconf, hrewrite⟩ := hwrote rfl
  -- the worker's slice is still that of the run, and so is its shape
  have hrun' : w'.slice = s.withRate v' := by
    rw [hslice', hslice, hslice₀]
    rfl
  have hsetup : setupShape host around w'.slice = .ok w'.shape := by
    rw [hrun', setupShape_rate, hshape', hshape, ← hshape₀, setupShape_rate]
  have hrange : (w'.slice.range around.backfillMode now).window = none := by
    rw [range_window, hrun']
    exact hwindow
  have hengine' : w'.slice.engine = .eventgen := by
    rw [hrun']
    exact hengine
  have hfresh : rewrite host.toConfHost (rewriteRequest around w'.slice w'.shape
      (w'.slice.range around.backfillMode now)) around.conf = .ok conf :=
    (rewrite_of_no_window host.toConfHost (rewriteRequest around w'.slice w'.shape {}) around.conf
      hrange rfl).trans hrewrite
  rw [prepare_of_rewrite hengine' hsetup hfresh, hconf]
  rfl

end

/-! ### The others -/

/-- A host that reads digits and no maps. -/
def mapless : ShapeHost where
  toConfHost := digitsHost
  json := fun _ => none

/-- The only stanza of the bare conf. -/
def webLog : Text := "web.log"

lemma pacedNames_bareConf : pacedNames digitsHost bareConf = [webLog] := by decide

lemma fmtNumber_num (q : ℚ) : ∃ t, fmtNumber (.num q) = .ok t := by
  unfold fmtNumber PyFloat.int
  simp only [bind, Except.bind]
  split_ifs
  · exact ⟨_, rfl⟩
  · exact ⟨_, rfl⟩

lemma get_owned_bareConf (r : RewriteRequest) (key : Text) (hout : isOutputKey key = false)
    (hdir : key ≠ "sampleDir") (hnone : bareConf.get webLog key = none) :
    (owned r bareConf).get webLog key = none := by
  rw [get_owned r hout hdir, hnone]

lemma get_setCount_earliest (count : ℤ) (o : Options) :
    (setCount count o).get earliestKey = o.get earliestKey := by
  rw [setCount, Options.get_remove (by decide), Options.get_set, if_neg (by decide),
    Options.get_set, if_neg (by decide)]

/-- The bare conf can be given any share, unless the slot has no part in the counts; that says
nothing of the times of its events. -/
lemma rewriteShare_bareConf (r : RewriteRequest) (share : ℚ) (hshare : r.shareValue = some share)
    (hpos : 0 < share) (hover : r.overdrive = 1) (hweights : r.weights = none)
    (hslot : r.mode = .countInterval → r.slot < r.totalWorkers) :
    ∃ q, rewriteShare digitsHost r [webLog] (owned r bareConf) = .ok q ∧
      q.names = bareConf.names ∧ q.get webLog earliestKey = none := by
  have hmodes : ModesGiven (owned r bareConf) := ModesGiven.owned r (by decide)
  have hearliest := get_owned_bareConf r earliestKey (by decide) (by decide) (by decide)
  cases hmode : r.mode with
  | eps =>
    obtain ⟨flat, hflat, hnames, hget⟩ := stripRateMaps_of_given digitsHost hmodes
    obtain ⟨counts, hcounts, -⟩ := rewriteEps_declared digitsHost flat (List.cons_ne_nil webLog [])
      (show 0 ≤ share * 1 by linarith)
    refine ⟨_, rewriteShare_eps hmode hshare hpos hflat (by simp)
      (by rw [hover, hweights]; exact hcounts), by rw [names_setEach, hnames, names_owned], ?_⟩
    rw [get_setEach_of get_setCount_earliest, hget webLog earliestKey (by decide), hearliest]
  | perDayGb =>
    have hvol : (owned r bareConf).getFloat digitsHost webLog perDayVolumeKey = none := by
      rfl
    obtain ⟨text, htext⟩ := fmtNumber_num (share * r.overdrive)
    have hrun : rewriteShare digitsHost r [webLog] (owned r bareConf) = .ok (setEach [webLog] [text]
        (fun volume own => own.set perDayVolumeKey (some volume)) (owned r bareConf)) := by
      unfold rewriteShare
      rw [hmode, hshare]
      rw [Option.filter_some_pos (by simpa using hpos)]
      unfold rewritePerDayGb
      simp [hvol]
      rw [htext]
      rfl
    refine ⟨_, hrun, by rw [names_setEach, names_owned], ?_⟩
    rw [get_setEach_of, hearliest]
    intro volume o
    rw [Options.get_set, if_neg (by decide)]
  | countInterval =>
    have hcount : (owned r bareConf).getFloat digitsHost webLog countKey = none := by
      rfl
    have hrun : rewriteShare digitsHost r [webLog] (owned r bareConf) =
        .ok (setEach [webLog] [none] setSplit (owned r bareConf)) := by
      unfold rewriteShare
      rw [hmode]
      rw [ConfRewrite.rewriteCountInterval, if_neg (not_le.2 (hslot hmode))]
      simp [splitCount, hcount]
    refine ⟨_, hrun, by rw [names_setEach, names_owned], ?_⟩
    rw [get_setEach_of, hearliest]
    intro count o
    cases count with
    | none => rfl
    | some count => rw [setSplit, Options.get_set, if_neg (by decide)]

variable {q : Parser}

/-- In window mode a range is set once the share is given. -/
lemma rewrite_of_window {host : ConfHost} {p : Parser} {r : RewriteRequest} {windowS : ℚ}
    (hmodes : ModesGiven p) (hwindow : r.backfill.window = some windowS)
    (hmode : r.backfill.mode = .window)
    (hshare : rewriteShare host r (pacedNames host p) (owned r p) = .ok q) :
    rewrite host r p = .ok (q.update fun name own =>
      if name ∈ pacedNames host p then
        setWindow (r.backfill.bounds windowS).1 (r.backfill.bounds windowS).2 own
      else own) := by
  change (paced host (owned r p) >>= _) = _
  rw [paced_of_given (hmodes.owned r), pacedNames_owned]
  change (rewriteShare host r (pacedNames host p) (owned r p) >>= _) = _
  rw [hshare]
  change rewriteBackfill host r _ _ q = _
  rw [rewriteBackfill, hwindow]
  rw [hmode]

lemma get_window_earliest {names : List Text} {name : Text} (start finish : ℤ)
    (hmem : name ∈ names) (hname : name ∈ q.names) :
    (q.update fun name own => if name ∈ names then setWindow start finish own else own).get name
      earliestKey = some (some (offsetText start)) := by
  refine Parser.get_update_set hname fun o => ?_
  rw [if_pos hmem, setWindow, Options.get_set, if_neg (by decide), Options.get_set, if_pos rfl]

section

variable {s : RunSlice}

/-- What is around a worker that has the bare conf. -/
def bareSurroundings : Surroundings where
  conf := bareConf

def shareKey : RateMode → Text
  | .eps => "eps"
  | .perDayGb => "per_day_gb"
  | .countInterval => "count"

lemma shareMode_shareKey (mode : RateMode) : shareMode (shareKey mode) = some mode := by
  cases mode <;> decide

lemma setupShape_none (h : ¬(s.engine = .eventgen ∧ s.window = none)) :
    setupShape mapless bareSurroundings s = .ok none := by
  unfold setupShape
  split_ifs with hshape hother
  · rfl
  · rfl
  · -- an eventgen run that is shaped has no start of a backfill, and so no window
    push Not at hother
    refine absurd ⟨hother.1, ?_⟩ h
    unfold RunSlice.window
    cases hstart : s.backfillStartS with
    | none => rfl
    | some start =>
      rw [hstart] at hother
      exact absurd hother.2.2 (by simp)

/-- From a share of one event to one of two, a worker with the bare conf writes its conf again. -/
lemma retarget_bareConf (hrate : w.slice.rateValue = some 1) (hshape : w.shape = none)
    (hslot : w.slice.mode = .countInterval → w.slice.slot < w.slice.totalWorkers) :
    ∃ q, q.get webLog earliestKey = none ∧
      retarget mapless bareSurroundings [(shareKey w.slice.mode, some 2)] w =
        .ok ({ w with slice := w.slice.withRate (some 2), conf := some q }, true) := by
  obtain ⟨q, hshare, -, hearliest⟩ := rewriteShare_bareConf
    (rewriteRequest bareSurroundings (w.slice.withRate (some 2)) none {}) 2 rfl
      (by norm_num) rfl rfl hslot
  have hrewrite : rewrite digitsHost
      (rewriteRequest bareSurroundings (w.slice.withRate (some 2)) none {})
      bareConf = .ok q := by
    refine rewrite_of_share (by decide) rfl ?_
    rw [pacedNames_bareConf]
    exact hshare
  refine ⟨q, hearliest, ?_⟩
  have hneeds : needsRewrite w.slice.mode w.slice.rateValue 2 = true := by
    rw [hrate]
    cases w.slice.mode <;> decide +kernel
  unfold retarget
  dsimp only
  rw [shareMode_shareKey, if_neg (by norm_num), if_pos hneeds]
  rw [hshape]
  change ((rewrite digitsHost (rewriteRequest bareSurroundings (w.slice.withRate (some 2)) none {})
    bareConf
    >>= _) >>= _) = _
  rw [hrewrite]
  rfl

/-- A fresh start with the bare conf and a window sets the times of its events. -/
lemma prepare_bareConf (hengine : s.engine = .eventgen) {windowS : ℚ}
    (hwindow : s.window = some windowS)
    (hslot : s.mode = .countInterval → s.slot < s.totalWorkers) {v : ℚ}
    (hshape : setupShape mapless bareSurroundings (s.withRate (some v)) = .ok none) (hv : 0 < v) :
    ∃ q text, q.get webLog earliestKey = some (some text) ∧
      prepare mapless bareSurroundings 0 (s.withRate (some v)) =
        .ok { slice := s.withRate (some v), shape := none, conf := some q } := by
  have hrange : ((s.withRate (some v)).range .window 0).window = some windowS :=
    (range_window .window 0).trans hwindow
  have hmode : ((s.withRate (some v)).range .window 0).mode = .window := by
    unfold RunSlice.range
    split <;> rfl
  obtain ⟨q, hshare, hnames, -⟩ := rewriteShare_bareConf
    (rewriteRequest bareSurroundings (s.withRate (some v)) none
      ((s.withRate (some v)).range .window 0))
    v rfl hv rfl rfl hslot
  have hweb : webLog ∈ q.names := by
    rw [hnames]
    decide
  have hkind : (s.withRate (some v)).engine = .eventgen := hengine
  have hprep := prepare_of_rewrite hkind hshape (rewrite_of_window (by decide) hrange hmode hshare)
  exact ⟨_, _, get_window_earliest _ _ (by decide) hweb, hprep⟩

/-- A worker of any other run ends up with a conf that a fresh start does not write. -/
lemma not_rescales (hslot : s.mode = .countInterval → s.slot < s.totalWorkers)
    (h : ¬(s.engine = .eventgen ∧ s.window = none)) : ¬RescalesToFresh s := by
  intro hall
  have hshape : ∀ v, setupShape mapless bareSurroundings (s.withRate v) = .ok none :=
    fun v => setupShape_none h
  by_cases hengine : s.engine = .eventgen
  · obtain ⟨windowS, hwindow⟩ : ∃ windowS, s.window = some windowS := by
      cases hw : s.window with
      | none => exact absurd ⟨hengine, hw⟩ h
      | some windowS => exact ⟨windowS, rfl⟩
    have hfresh := fun v hv => prepare_bareConf hengine hwindow hslot (hshape (some v)) hv
    obtain ⟨_, -, -, hprep⟩ := hfresh 1 one_pos
    obtain ⟨fresh, text, htext, hagain⟩ := hfresh 2 two_pos
    obtain ⟨q, hearliest, hret⟩ := retarget_bareConf
      (w := { slice := s.withRate (some 1), shape := none, conf := some _ }) rfl rfl hslot
    have hsame := hall mapless bareSurroundings 0 0 (some 1) [] _ _ _ _ hprep rfl hret
    change (prepare mapless bareSurroundings 0 (s.withRate (some 2))).map Prepared.conf = _ at hsame
    rw [hagain] at hsame
    cases hsame
    rw [hearliest] at htext
    cases htext
  · have hprep : ∀ v, prepare mapless bareSurroundings 0 (s.withRate v) =
        .ok { slice := s.withRate v, shape := none, conf := none } := by
      intro v
      unfold prepare
      rw [hshape]
      exact if_neg hengine
    obtain ⟨q, -, hret⟩ := retarget_bareConf
      (w := { slice := s.withRate (some 1), shape := none, conf := none }) rfl rfl hslot
    have hsame := hall mapless bareSurroundings 0 0 (some 1) [] _ _ _ _ (hprep (some 1)) rfl hret
    change (prepare mapless bareSurroundings 0 (s.withRate (some 2))).map Prepared.conf = _ at hsame
    rw [hprep] at hsame
    cases hsame

end

/-- A worker that is rescaled has the conf of a fresh start exactly in an eventgen run without a
backfill window; where the slot has no part in the counts of the pack, no conf is written at all. -/
theorem rescaled_conf_is_fresh_iff (s : RunSlice) :
    RescalesToFresh s ↔ (s.mode = .countInterval ∧ s.totalWorkers ≤ s.slot) ∨
      (s.engine = .eventgen ∧ s.window = none) := by
  constructor
  · intro hall
    by_contra hnot
    obtain ⟨hslot, hplain⟩ := not_or.1 hnot
    refine not_rescales (fun hmode => ?_) hplain hall
    exact not_le.1 fun hle => hslot ⟨hmode, hle⟩
  · rintro (⟨hmode, hslot⟩ | ⟨hengine, hwindow⟩)
    · exact rescales_of_no_part hmode hslot
    · exact rescales_of_no_window hengine hwindow

/-- An hour of history at one event per second, rescaled to two. -/
theorem rescaled_backfill_differs :
    ¬RescalesToFresh
      { engine := .eventgen, mode := .eps, backfillStartS := some 0,
        backfillEndS := some 3600 } := by
  refine not_rescales (fun h => nomatch h) ?_
  rintro ⟨-, hwindow⟩
  exact absurd hwindow (by decide +kernel)

end Stoker
