import Stoker.Lifecycle.Manned
import Stoker.PackBuilder.Capacity

/-!
# Rotation pins the fleet

Under `pass` scope the worker count is part of every identity, so a run that rotates must keep the
count it was launched with. `write_pack` writes the rotation into the conf of a pack. A launch
copies it into the run's snapshot from another place, the `builder_config_json` of the pack row, and
a scale is refused by what the snapshot says. But the pack builder clears that column
(`_apply_lint`), and uploads fill it from the `metricgen` block only: the packs that have one are
built from it and not from their conf. So no snapshot of a rotating run says so, and the run is
scaled like any other.

Packs are built, rebuilt, exported and uploaded, and runs launched and scaled, in any order; each
run is the transition system of `Server/System`.
-/

open List

namespace Stoker

open Transition

/-! ### What is written -/

def confValue (pattern : Text) : Text :=
  let blank : Char → Bool := (· = ' ')
  let lead := (pattern.takeWhile blank).length
  let trail := (pattern.reverse.takeWhile blank).length
  let core := ((pattern.dropWhile blank).reverse.dropWhile blank).reverse
  (replicate lead "[ ]".toList).flatten ++ core ++ (replicate trail "[ ]".toList).flatten

/-- `_rotate_replacement`; a validated length is there. -/
def rotateReplacement (widen : Option Widen) : Text :=
  match widen with
  | none => "keep"
  | some w =>
    if w.shape = .guid then "guid"
    else w.shape.name ++ "(" ++ decimal (w.length.getD 0).toNat ++ ")"

/-- The lines of a stanza that make it rotate: `rotate.scope`, `rotate.period`, and the tokens of
type `rotate` with their patterns and replacements. -/
structure RotateLines where
  scope : Option RotationScope := none
  period : Option ℤ := none
  tokens : List (Text × Text) := []
  deriving DecidableEq

def writtenLines (cfg : Config) : RotateLines where
  scope := cfg.rotation.map (·.scope)
  period := cfg.rotation.bind fun r => if r.scope = .window then r.period else none
  tokens := (rotatingFields cfg).map fun f => (confValue f.pattern, rotateReplacement f.widen)

def RotatesPerPass (conf : List RotateLines) : Prop :=
  ∃ lines ∈ conf, lines.scope = some .pass ∧ lines.tokens ≠ []

instance (conf : List RotateLines) : Decidable (RotatesPerPass conf) :=
  inferInstanceAs (Decidable (∃ lines ∈ conf, _))

/-! ### Packs and runs -/

/-- A metrics config, as far as a launch reads it. -/
structure MetricConfig where
  rotation : Option Rotation := none
  deriving DecidableEq

/-- The directory of a pack: its conf, the `metricgen` block that passes the lint, and whether the
pack builder wrote it. -/
structure PackFiles where
  conf : List RotateLines := []
  metricgen : Option MetricConfig := none
  fromBuilder : Bool := false
  deriving DecidableEq

/-- A row of the pack table with its directory; `config` is `builder_config_json`. -/
structure ShelvedPack where
  config : Option MetricConfig
  files : PackFiles := {}
  deriving DecidableEq

/-- A run with the conf in its bundle and the worker count it was launched with. -/
structure LaunchedRun where
  sys : Sys
  conf : List RotateLines
  workers : ℕ

structure Plant where
  packs : List ShelvedPack := []
  runs : List LaunchedRun := []

/-- What happens at the plant. A pack that is built has passed its checks; `upload` brings any
files, `reupload` those of an exported pack. -/
inductive PlantAction where
  | build (cfg : Config)
  | rebuild (pack : ℕ) (cfg : Config)
  | upload (files : PackFiles)
  | reupload (pack : ℕ)
  | createMetrics (config : MetricConfig)
  | updateMetrics (pack : ℕ) (config : MetricConfig)
  | launch (now : Time) (pack : ℕ) (extras : List ℕ) (spec : Snapshot)
  | act (run : ℕ) (a : Action)

def builtFiles (cfg : Config) : PackFiles where
  conf := [writtenLines cfg]
  fromBuilder := true

/-- A row for files that are registered: its config is the `metricgen` block. -/
def registered (files : PackFiles) : ShelvedPack := { config := files.metricgen, files := files }

def snapshotRotation (pack : ShelvedPack) : Option Rotation := pack.config.bind (·.rotation)

/-- The conf in the bundle of a launch (`_resolve_bundle`): several packs are merged, which the
submit gate refuses for packs with a config; such a pack alone is built from its config, and any
other from its directory. -/
def bundleConf (pack : ShelvedPack) (extras : List ShelvedPack) : Option (List RotateLines) :=
  if extras ≠ [] then
    if (pack :: extras).any (·.config.isSome) then none
    else some ((pack :: extras).flatMap (·.files.conf))
  else if pack.config.isSome then some []
  else some pack.files.conf

namespace Plant

/-- A launch up to its first commit. -/
def launch (now : Time) (pack : ℕ) (extras : List ℕ) (spec : Snapshot) (p : Plant) : Plant :=
  match p.packs[pack]?, extras.mapM fun i => p.packs[i]? with
  | some row, some extraRows =>
    match bundleConf row extraRows,
      provisionRun now { spec with rotation := snapshotRotation row } with
    | some conf, .ok db =>
      { p with runs := p.runs ++ [⟨Sys.start db, conf, db.run.snapshot.workers⟩] }
    | _, _ => p
  | _, _ => p

def step (cfg : Settings) (a : PlantAction) (p : Plant) : Plant :=
  match a with
  | .build c => { p with packs := p.packs ++ [{ config := none, files := builtFiles c }] }
  | .rebuild i c =>
    { p with packs := p.packs.modify i fun row =>
        if row.files.fromBuilder then { config := none, files := builtFiles c } else row }
  | .upload files => { p with packs := p.packs ++ [registered files] }
  | .reupload i =>
    match p.packs[i]? with
    | none => p
    | some row => { p with packs := p.packs ++ [registered row.files] }
  | .createMetrics config => { p with packs := p.packs ++ [{ config := some config }] }
  | .updateMetrics i config =>
    { p with packs := p.packs.modify i fun row =>
        if row.config.isSome then { row with config := some config } else row }
  | .launch now pack extras spec => p.launch now pack extras spec
  | .act i act =>
    { p with runs := p.runs.modify i fun r => { r with sys := Sys.step cfg act r.sys } }

end Plant

/-! ### No snapshot of a rotating run says so -/

variable {r : LaunchedRun} {p : Plant}

lemma Plant.mem_launch {now : Time} {pack : ℕ} {extras : List ℕ} {spec : Snapshot}
    (h : r ∈ (p.launch now pack extras spec).runs) :
    r ∈ p.runs ∨ ∃ row rows conf db, bundleConf row rows = some conf ∧
      provisionRun now { spec with rotation := snapshotRotation row } = .ok db ∧
      r = ⟨Sys.start db, conf, db.run.snapshot.workers⟩ := by
  unfold Plant.launch at h
  cases hrow : p.packs[pack]? with
  | none =>
    rw [hrow] at h
    exact .inl h
  | some row =>
    cases hrows : extras.mapM fun i => p.packs[i]? with
    | none =>
      rw [hrow, hrows] at h
      exact .inl h
    | some rows =>
      rw [hrow, hrows] at h
      dsimp only at h
      cases hconf : bundleConf row rows with
      | none =>
        rw [hconf] at h
        exact .inl h
      | some conf =>
        cases hdb : provisionRun now { spec with rotation := snapshotRotation row } with
        | error e =>
          rw [hconf, hdb] at h
          exact .inl h
        | ok db =>
          rw [hconf, hdb] at h
          refine (mem_append.1 h).imp_right fun h => ?_
          exact ⟨row, rows, conf, db, hconf, hdb, mem_singleton.1 h⟩

/-- The runs after a step: those there were, one step further, and what was launched. -/
lemma Plant.step_runs (cfg : Settings) (a : PlantAction) (p : Plant) {r' : LaunchedRun}
    (h : r' ∈ (Plant.step cfg a p).runs) :
    r' ∈ p.runs ∨
    (∃ i act r, a = .act i act ∧ p.runs[i]? = some r ∧
      r' = { r with sys := Sys.step cfg act r.sys }) ∨
    ∃ now pack extras spec row rows conf db, a = .launch now pack extras spec ∧
      bundleConf row rows = some conf ∧
      provisionRun now { spec with rotation := snapshotRotation row } = .ok db ∧
      r' = ⟨Sys.start db, conf, db.run.snapshot.workers⟩ := by
  cases a with
  | launch now pack extras spec =>
    refine (Plant.mem_launch h).imp_right fun h => .inr ?_
    obtain ⟨row, rows, conf, db, hconf, hdb, hr⟩ := h
    exact ⟨now, pack, extras, spec, row, rows, conf, db, rfl, hconf, hdb, hr⟩
  | act i act =>
    obtain ⟨j, hj⟩ := mem_iff_getElem?.1 h
    change (p.runs.modify i fun r => { r with sys := Sys.step cfg act r.sys })[j]? = some r' at hj
    rw [getElem?_modify] at hj
    obtain ⟨r, hr, heq⟩ := Option.map_eq_some_iff.1 hj
    split_ifs at heq with hij
    · subst hij
      exact .inr (.inl ⟨i, act, r, rfl, hr, heq.symm⟩)
    · exact .inl (heq ▸ mem_of_getElem? hr)
  | reupload i =>
    unfold Plant.step at h
    dsimp only at h
    cases hi : p.packs[i]? with
    | none | some row =>
      rw [hi] at h
      exact .inl h
  | build c | rebuild i c | upload files | createMetrics config | updateMetrics i config =>
    exact .inl h

/-- A conf that rotates comes from a pack without a config. -/
lemma snapshotRotation_of_rotates {row : ShelvedPack} {rows : List ShelvedPack}
    {conf : List RotateLines}
    (h : bundleConf row rows = some conf) (hrot : RotatesPerPass conf) :
    snapshotRotation row = none := by
  have hnone : row.config = none := by
    unfold bundleConf at h
    split_ifs at h with _ hany hsome
    · have hrow : ¬ row.config.isSome = true := fun hs =>
        hany (any_eq_true.2 ⟨row, mem_cons_self, hs⟩)
      exact Option.not_isSome_iff_eq_none.1 hrow
    · cases h
      obtain ⟨lines, hlines, _⟩ := hrot
      exact absurd hlines not_mem_nil
    · exact Option.not_isSome_iff_eq_none.1 hsome
  rw [snapshotRotation, hnone, Option.bind_none]

lemma step_rotation (cfg : Settings) (act : Action) (s : Sys) :
    (Sys.step cfg act s).db.run.snapshot.rotation = s.db.run.snapshot.rotation := by
  rcases step_fleet cfg act s with hfleet | ⟨now, workers, env, rfl, hs⟩
  · exact congrArg (fun f => f.2.2) hfleet
  · obtain ⟨_, _, shares, _, heq⟩ := scaleRunEndpoint_ok hs
    rw [heq]
    rfl

/-- No run whose conf rotates per pass records a rotation. -/
def Plant.Unrecorded (p : Plant) : Prop :=
  ∀ r ∈ p.runs, RotatesPerPass r.conf → r.sys.db.run.snapshot.rotation = none

lemma Plant.Unrecorded.step (cfg : Settings) (a : PlantAction) (p : Plant) (h : p.Unrecorded) :
    (Plant.step cfg a p).Unrecorded := by
  intro r' hr' hrot
  rcases Plant.step_runs cfg a p hr' with hr | ⟨i, act, r, rfl, hr, rfl⟩ |
    ⟨now, pack, extras, spec, row, rows, conf, db, rfl, hconf, hdb, rfl⟩
  · exact h r' hr hrot
  · rw [step_rotation]
    exact h r (mem_of_getElem? hr) hrot
  · have hrecorded := congrArg (fun f => f.2.2) (provisionRun_fleet hdb).1
    exact hrecorded.trans (snapshotRotation_of_rotates hconf hrot)

/-- In no history does a run whose conf rotates per pass record a rotation. -/
theorem rotating_run_records_nothing (cfg : Settings) {acts : List PlantAction}
    (h : Runs (Plant.step cfg) Always {} acts p) (hr : r ∈ p.runs) (hrot : RotatesPerPass r.conf) :
    r.sys.db.run.snapshot.rotation = none := by
  refine h.invariant (I := Plant.Unrecorded) ?_ (fun r hr => absurd hr not_mem_nil) r hr hrot
  exact fun a p _ hp => hp.step cfg a p

/-! ### The worker count of a rotating run -/

/-- The run has the worker count and the leases it was launched with. -/
def LaunchedRun.KeepsFleet (r : LaunchedRun) : Prop :=
  r.sys.db.run.snapshot.workers = r.workers ∧ r.sys.db.leases.map (·.slot) = range r.workers

/-- A request to scale that the checks apart from the one for a rotation let through: the run goes
on and is not paused, its engine runs on so many workers, whose shares are defined and below the
ceiling, and the driver is there and does its part. -/
structure ScaleTaken (workers : ℕ) (env : Env) (db : Db) : Prop where
  pos : 1 ≤ workers
  active : db.run.state.terminal = false
  running : db.run.state ≠ .paused
  engine : effectiveWorkers db.run.snapshot.engine workers = workers
  ceiling : env.ceilingOk = true
  driver : env.driver = true
  scaled : db.run.driverRef.isSome = true → env.scaleOk = true
  shares : ∃ shares,
    buildShareList db.run.snapshot.rateMode db.run.snapshot.rateValue workers = .ok shares

/-- No scale of a run that rotates per pass to another count than it has is let through. -/
def CountKept (a : PlantAction) (p : Plant) : Prop :=
  ∀ i now workers env r, a = .act i (.scale now workers env) → p.runs[i]? = some r →
    RotatesPerPass r.conf → ScaleTaken workers env r.sys.db →
    workers = r.sys.db.run.snapshot.workers

/-- Where no rotation is recorded the other checks decide. -/
lemma scaleRunEndpoint_ok_iff (now : Time) {workers : ℕ} {env : Env} {db : Db}
    (hrot : db.run.snapshot.rotation = none) :
    (∃ db', scaleRunEndpoint now workers env db = .ok db') ↔ ScaleTaken workers env db := by
  constructor
  · rintro ⟨db', h⟩
    obtain ⟨hpos, hactive, hengine, -, -⟩ := scaleRunEndpoint_gates h
    obtain ⟨-, -, shares, hshares, -⟩ := scaleRunEndpoint_ok h
    have hscaled := scaleRunEndpoint_driver h
    obtain ⟨-, h⟩ := unless_ok h
    obtain ⟨_, -, h⟩ := bind_ok h
    obtain ⟨_, hrunning, h⟩ := bind_ok h
    obtain ⟨-, h⟩ := unless_ok h
    obtain ⟨-, h⟩ := unless_ok h
    obtain ⟨hceiling, h⟩ := unless_ok h
    obtain ⟨_, hdriver, -⟩ := bind_ok h
    unfold rejectIfPaused at hrunning
    unfold requireDriver at hdriver
    split_ifs at hrunning with hpaused
    split_ifs at hdriver with hthere
    exact ⟨hpos, hactive, hpaused, hengine, by simpa using hceiling, hthere, hscaled, shares,
      hshares⟩
  · rintro ⟨hpos, hactive, hrunning, hengine, hceiling, hdriver, hscaled, shares, hshares⟩
    have hfails : ¬(db.run.driverRef.isSome = true ∧ env.scaleOk = false) := by
      rintro ⟨hd, hfail⟩
      simp [hscaled hd] at hfail
    have hw : ¬workers < 1 := by omega
    simp [scaleRunEndpoint, scaleRun, requireActive, rejectIfPaused, requireDriver,
      rotationPinsFleet, bind, Except.bind, hrot, hw, hactive, hrunning, hengine, hceiling, hdriver,
        hfails, hshares]

lemma rotating_keeps_step_iff (cfg : Settings) (a : PlantAction) (p : Plant) (hnone : p.Unrecorded)
    (h : ∀ r ∈ p.runs, RotatesPerPass r.conf → r.KeepsFleet) :
    (∀ r ∈ (Plant.step cfg a p).runs, RotatesPerPass r.conf → r.KeepsFleet) ↔ CountKept a p := by
  constructor
  · rintro hnext i now workers env r rfl hr hrot htaken
    have hmem := mem_of_getElem? hr
    obtain ⟨db, hdb⟩ := (scaleRunEndpoint_ok_iff now (hnone r hmem hrot)).2 htaken
    have hstep : (Plant.step cfg (.act i (.scale now workers env)) p).runs[i]? =
        some { r with sys := { r.sys with db := db } } := by
      simp [Plant.step, Sys.step, Sys.commit, hr, hdb]
    have hkept := (hnext _ (mem_of_getElem? hstep) hrot).1
    obtain ⟨-, -, shares, -, rfl⟩ := scaleRunEndpoint_ok hdb
    exact hkept.trans (h r hmem hrot).1.symm
  · intro hcount r' hr' hrot
    rcases Plant.step_runs cfg a p hr' with hr | ⟨i, act, r, rfl, hr, rfl⟩ |
      ⟨now, pack, extras, spec, row, rows, conf, db, rfl, _, hdb, rfl⟩
    · exact h r' hr hrot
    · have hmem := mem_of_getElem? hr
      obtain ⟨hworkers, hslots⟩ := h r hmem hrot
      have hfleet : r.sys.db.fleet = (range r.workers, r.workers, none) := by
        rw [Db.fleet, hworkers, hslots, hnone r hmem hrot]
      have hkept : (Sys.step cfg act r.sys).db.fleet = (range r.workers, r.workers, none) := by
        rcases step_fleet cfg act r.sys with hkept | ⟨now, workers, env, rfl, hs⟩
        · exact hkept.trans hfleet
        · have htaken := (scaleRunEndpoint_ok_iff now (hnone r hmem hrot)).1 ⟨_, hs⟩
          rw [← hworkers, ← hcount i now workers env r rfl hr hrot htaken]
          exact scaleRunEndpoint_fleet hfleet hs
      exact ⟨congrArg (fun f => f.2.1) hkept, congrArg Prod.fst hkept⟩
    · exact ⟨rfl, congrArg Prod.fst (provisionRun_fleet hdb).1⟩

/-- All through a history every run whose conf rotates per pass has the worker count and the leases
it was launched with exactly when no request to scale such a run to another count is let through by
the checks that any run is put to. -/
theorem rotating_fleet_keeps_size_iff (cfg : Settings) (acts : List PlantAction) :
    (∀ done, done <+: acts → ∀ r ∈ (exec (Plant.step cfg) {} done).runs,
        RotatesPerPass r.conf → r.KeepsFleet) ↔
      Runs (Plant.step cfg) CountKept {} acts (exec (Plant.step cfg) {} acts) :=
  Runs.along_iff (I := Plant.Unrecorded) (fun a p h => h.step cfg a p)
    (rotating_keeps_step_iff cfg) (fun _ hr => absurd hr not_mem_nil)
    fun _ hr => absurd hr not_mem_nil

/-- A pack with a field that rotates per pass is built and launched with two workers. -/
def rotatingLaunch : List PlantAction :=
  [.build (digitConfig ["a=1 b=4"] false), .launch 0 0 [] (plainSpec 2),
    .act 0 (.launch 1 (.launched ⟨"docker", "run-1"⟩)), .act 0 (.claim 2 "w0" none)]

theorem rotating_launch_records_nothing :
    ∃ r ∈ (exec (Plant.step {}) {} rotatingLaunch).runs, RotatesPerPass r.conf ∧
      r.sys.db.run.snapshot.rotation = none := by
  have hrun : ∃ r ∈ (exec (Plant.step {}) {} rotatingLaunch).runs, RotatesPerPass r.conf := by
    decide +kernel
  obtain ⟨r, hr, hrot⟩ := hrun
  exact ⟨r, hr, hrot, rotating_run_records_nothing {} (Runs.always _ _) hr hrot⟩

/-- The run is scaled to three workers: its conf rotates per pass, it was launched with two, and a
new worker mints on its first pass what a worker of before minted on its second. -/
theorem rotating_run_scaled :
    let cfg := digitConfig ["a=1 b=4"] false
    validateRotation (some { scope := some .pass }) cfg.tokens .sequential = .ok cfg.rotation ∧
    ((exec (Plant.step {}) {} (rotatingLaunch ++ [.act 0 (.scale 10 3 {})])).runs.map fun r =>
        (decide (RotatesPerPass r.conf), r.workers, r.sys.db.run.snapshot.workers,
          r.sys.db.leases.length)) = [(true, 2, 3, 3)] ∧
    rotateIdent 1 2 0 1 0 = rotateIdent 0 3 2 1 0 := by
  decide +kernel

end Stoker
