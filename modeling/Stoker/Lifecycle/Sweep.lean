import Stoker.Transition.Runs
import Stoker.Server.Rows

/-!
# The stray sweep at boot

`reconcile_on_boot` first loads every active run and fails those whose workload is gone; then
`_sweep_stray_fleets` lists the workloads of each fleet, takes those without a live run as strays
and looks each of them up once more before it destroys it. Requests are served meanwhile, so
launches commit their rows, create their workloads and commit again between any two steps of the
sweep.

The list of strays comes from a query. The last look is `db.get`, which answers from the rows the
session already has, and a commit does not expire those (`expire_on_commit=False`): the runs that
the first phase loaded are judged by their copies of that time. The two agree as long as no other
session ends, or brings back, a run that boot holds a copy of.
-/

namespace Stoker

open Transition

/-- What the sweep reads of a run: its state, and whether a workload is recorded. -/
structure RunRow where
  state : RunState
  hasRef : Bool := false
  deriving DecidableEq

/-- A run that is there and has not ended. -/
def liveRow (row : Option RunRow) : Bool := row.any fun r => !r.state.terminal

@[simp] lemma liveRow_none : liveRow none = false := rfl

@[simp] lemma liveRow_some (r : RunRow) : liveRow (some r) = !r.state.terminal := rfl

/-- A launch between its two commits: its fleet, and whether the workload is created. -/
structure PendingLaunch where
  fleet : ℕ
  created : Bool := false
  deriving DecidableEq

/-- Where boot reconciliation is: not begun, the active runs loaded, before the next fleet, with the
workloads of a fleet listed, among its strays, about to destroy one. The last of these remembers the
row that was committed when the stray was looked up. -/
inductive SweepAt where
  | idle
  | loaded
  | next (todo : List ℕ)
  | listed (fleet : ℕ) (owned todo : List ℕ)
  | checking (fleet : ℕ) (strays todo : List ℕ)
  | destroying (fleet run : ℕ) (committed : Option RunRow) (strays todo : List ℕ)
  deriving DecidableEq

/-- What became of a workload that was looked up: the row that was committed at that moment, and
whether the driver was told to destroy it. -/
structure Verdict where
  fleet : ℕ
  run : ℕ
  committed : Option RunRow
  destroyed : Bool
  deriving DecidableEq

/-- The committed rows, the workloads of the fleets, the launches under way and the session of boot:
the copies its first phase holds, the row it looked up last, and how far it is. -/
structure Boot where
  rows : ℕ → Option RunRow
  workloads : List (ℕ × ℕ)
  launches : ℕ → Option PendingLaunch := fun _ => none
  held : ℕ → Option RunRow := fun _ => none
  last : Option (ℕ × RunRow) := none
  sweep : SweepAt := .idle
  verdicts : List Verdict := []

inductive BootAction where
  -- a launch
  | commitRow (run fleet : ℕ)
  | create (run : ℕ)
  | createFails (run : ℕ) (leftBehind : Bool)
  | finish (run : ℕ)
  -- other requests
  | commit (run : ℕ) (state : RunState)
  | delete (run : ℕ)
  | remove (fleet run : ℕ)
  -- boot reconciliation
  | load
  | settle (absent drivers : List ℕ)
  | list (ok : Bool)
  | readLive
  | recheck
  | destroy (ok : Bool)
  deriving DecidableEq

namespace Boot

def setRow (run : ℕ) (row : Option RunRow) (s : Boot) : Boot :=
  { s with rows := Function.update s.rows run row }

def setLaunch (run : ℕ) (l : Option PendingLaunch) (s : Boot) : Boot :=
  { s with launches := Function.update s.launches run l }

def addWorkload (fleet run : ℕ) (s : Boot) : Boot :=
  { s with workloads := s.workloads ++ [(fleet, run)] }

/-! ### Launches -/

/-- `provision_run` commits its row, in `preparing`, before it asks for the workload. -/
def commitRow (run fleet : ℕ) (s : Boot) : Boot :=
  if s.rows run = none ∧ s.launches run = none then
    (s.setRow run (some { state := .preparing })).setLaunch run (some { fleet := fleet })
  else s

def create (run : ℕ) (s : Boot) : Boot :=
  match s.launches run with
  | some ⟨fleet, false⟩ => (s.setLaunch run (some ⟨fleet, true⟩)).addWorkload fleet run
  | _ => s

/-- A driver that fails may leave part of a fleet behind; the run is committed as failed. -/
def createFails (run : ℕ) (leftBehind : Bool) (s : Boot) : Boot :=
  match s.launches run with
  | some ⟨fleet, false⟩ =>
    let failed := (s.setRow run ((s.rows run).map fun r => { r with state := .failed })).setLaunch
        run none
    if leftBehind then failed.addWorkload fleet run else failed
  | _ => s

/-- The second commit of a launch writes its own state, whatever the row says by now. -/
def finish (run : ℕ) (s : Boot) : Boot :=
  match s.launches run with
  | some ⟨_, true⟩ =>
    (s.setRow run ((s.rows run).map fun _ => { state := .provisioning, hasRef := true })).setLaunch
      run none
  | _ => s

/-! ### Other requests -/

def commit (run : ℕ) (state : RunState) (s : Boot) : Boot :=
  s.setRow run ((s.rows run).map fun r => { r with state := state })

/-- `delete_run`: only a run that has ended is deleted. -/
def delete (run : ℕ) (s : Boot) : Boot := if liveRow (s.rows run) then s else s.setRow run none

/-! ### Boot reconciliation -/

/-- The first phase loads the active runs into a new session. -/
def load (s : Boot) : Boot :=
  match s.sweep with
  | .idle =>
    { s with
      held := fun run => (s.rows run).filter fun r => !r.state.terminal
      last := none
      sweep := .loaded }
  | _ => s

/-- A loaded run without a workload on record, or whose workload is reported absent, is failed. -/
def orphaned (absent : List ℕ) (run : ℕ) (r : RunRow) : Bool := !r.hasRef || decide (run ∈ absent)

/-- The end of the first phase: the failed runs are committed, and the sweep begins. -/
def settle (absent drivers : List ℕ) (s : Boot) : Boot :=
  match s.sweep with
  | .loaded =>
    { s with
      rows := fun run =>
        if (s.held run).any (orphaned absent run) then
          (s.rows run).map fun r => { r with state := .failed }
        else s.rows run
      held := fun run => (s.held run).map fun r =>
        if orphaned absent run r then { r with state := .failed } else r
      sweep := .next drivers }
  | _ => s

/-- `list_run_ids`: a fleet that cannot be listed is skipped. -/
def list (ok : Bool) (s : Boot) : Boot :=
  match s.sweep with
  | .next (fleet :: todo) =>
    if ok then
      { s with sweep := .listed fleet ((s.workloads.filter (·.1 = fleet)).map (·.2)).dedup todo }
    else { s with sweep := .next todo }
  | _ => s

/-- `_live_run_ids`, a query: the workloads without a live run are the strays, in order. -/
def readLive (s : Boot) : Boot :=
  match s.sweep with
  | .listed fleet owned todo =>
    { s with sweep := .checking fleet ((owned.filter fun run => !liveRow (s.rows run)).insertionSort
      (· ≤ ·)) todo }
  | _ => s

/-- The copy of a run that the session has: one of the first phase's, or the one looked up last. -/
def copy (s : Boot) (run : ℕ) : Option RunRow :=
  (s.held run).or ((s.last.filter (·.1 = run)).map (·.2))

/-- `db.get`: the session's copy, else the committed row. -/
def get (s : Boot) (run : ℕ) : Option RunRow := (s.copy run).or (s.rows run)

/-- The last look at a stray. -/
def recheck (s : Boot) : Boot :=
  match s.sweep with
  | .checking fleet (run :: strays) todo =>
    let looked := { s with last := (s.get run).map (run, ·) }
    if liveRow (s.get run) then
      { looked with
        sweep := .checking fleet strays todo
        verdicts := s.verdicts ++ [⟨fleet, run, s.rows run, false⟩] }
    else { looked with sweep := .destroying fleet run (s.rows run) strays todo }
  | .checking _ [] todo => { s with sweep := .next todo }
  | _ => s

/-- `_destroy_stray`: a driver that fails is only logged. -/
def destroy (ok : Bool) (s : Boot) : Boot :=
  match s.sweep with
  | .destroying fleet run committed strays todo =>
    { s with
      workloads := if ok then s.workloads.filter (· ≠ (fleet, run)) else s.workloads
      sweep := .checking fleet strays todo
      verdicts := s.verdicts ++ [⟨fleet, run, committed, true⟩] }
  | _ => s

def step (a : BootAction) (s : Boot) : Boot :=
  match a with
  | .commitRow run fleet => s.commitRow run fleet
  | .create run => s.create run
  | .createFails run leftBehind => s.createFails run leftBehind
  | .finish run => s.finish run
  | .commit run state => s.commit run state
  | .delete run => s.delete run
  | .remove fleet run => { s with workloads := s.workloads.filter (· ≠ (fleet, run)) }
  | .load => s.load
  | .settle absent drivers => s.settle absent drivers
  | .list ok => s.list ok
  | .readLive => s.readLive
  | .recheck => s.recheck
  | .destroy ok => s.destroy ok

/-- Before boot reconciliation: any rows, workloads and launches. -/
structure AtBoot (s : Boot) : Prop where
  held : ∀ run, s.held run = none
  last : s.last = none
  sweep : s.sweep = .idle
  verdicts : s.verdicts = []

/-- No other session ends a run that boot has a copy of as live, or brings back one that it has a
copy of as ended. -/
def Undisturbed (a : BootAction) (s : Boot) : Prop :=
  match a with
  | .commitRow run _ | .finish run => ∀ c ∈ s.copy run, c.state.terminal = false
  | .createFails run _ | .delete run => ∀ c ∈ s.copy run, c.state.terminal = true
  | .commit run state => ∀ c ∈ s.copy run, c.state.terminal = state.terminal
  | _ => True

instance (a : BootAction) (s : Boot) : Decidable (Undisturbed a s) :=
  match a with
  | .commitRow run _ | .finish run => inferInstanceAs (Decidable (∀ c ∈ s.copy run, _ = _))
  | .createFails run _ | .delete run => inferInstanceAs (Decidable (∀ c ∈ s.copy run, _ = _))
  | .commit run _ => inferInstanceAs (Decidable (∀ c ∈ s.copy run, _ = _))
  | .create .. | .remove .. | .load | .settle .. | .list .. | .readLive | .recheck | .destroy .. =>
    isTrue trivial

/-! ### The copies agree with the rows -/

/-- The copies of the session say the same of a run as the committed rows. -/
def Agrees (s : Boot) : Prop := ∀ run, ∀ c ∈ s.copy run, liveRow (s.rows run) = liveRow (some c)

namespace Agrees

variable {s s' : Boot} (h : Agrees s)

include h

/-- A step that leaves the session and the rows. -/
lemma frame (hh : s'.held = s.held) (hl : s'.last = s.last) (hr : s'.rows = s.rows) :
    Agrees s' := by
  unfold Agrees copy at *
  rwa [hh, hl, hr]

variable {run : ℕ}

lemma setRow {row : Option RunRow}
    (hrow : ∀ c ∈ s.copy run, liveRow row = liveRow (some c)) : Agrees (s.setRow run row) := by
  intro r c hc
  by_cases hr : r = run
  · subst hr
    have hwritten : (s.setRow r row).rows r = row := Function.update_self ..
    rw [hwritten]
    exact hrow c hc
  · have hother : (s.setRow run row).rows r = s.rows r := Function.update_of_ne hr ..
    rw [hother]
    exact h r c hc

lemma setRow_map {f : RunRow → RunRow}
    (hf : ∀ c ∈ s.copy run, ∀ r, c.state.terminal = (f r).state.terminal) :
    Agrees (s.setRow run ((s.rows run).map f)) := by
  refine h.setRow fun c hc => ?_
  cases hrow : s.rows run with
  | none =>
    have hagree := h run c hc
    rwa [hrow] at hagree
  | some r => rw [Option.map_some, liveRow_some, liveRow_some, hf c hc r]

/-! #### One step -/

lemma commitRow {fleet : ℕ} (hu : ∀ c ∈ s.copy run, c.state.terminal = false) :
    Agrees (s.commitRow run fleet) := by
  unfold Boot.commitRow
  split_ifs
  · refine frame (h.setRow fun c hc => ?_) rfl rfl rfl
    rw [liveRow_some, liveRow_some, hu c hc]
    rfl
  · exact h

lemma create (run : ℕ) : Agrees (s.create run) := by
  unfold Boot.create
  split
  · exact h.frame rfl rfl rfl
  · exact h

lemma createFails (leftBehind : Bool)
    (hu : ∀ c ∈ s.copy run, c.state.terminal = true) : Agrees (s.createFails run leftBehind) := by
  unfold Boot.createFails
  split
  · have hfailed : Agrees (s.setRow run ((s.rows run).map fun r => { r with state := .failed })) :=
      h.setRow_map fun c hc _ => hu c hc
    split_ifs
    · exact hfailed.frame rfl rfl rfl
    · exact hfailed.frame rfl rfl rfl
  · exact h

lemma finish (hu : ∀ c ∈ s.copy run, c.state.terminal = false) :
    Agrees (s.finish run) := by
  unfold Boot.finish
  split
  · have hwritten : Agrees (s.setRow run ((s.rows run).map fun _ =>
        { state := .provisioning, hasRef := true })) := h.setRow_map fun c hc _ => hu c hc
    exact hwritten.frame rfl rfl rfl
  · exact h

lemma delete (hu : ∀ c ∈ s.copy run, c.state.terminal = true) :
    Agrees (s.delete run) := by
  unfold Boot.delete
  split_ifs
  · exact h
  · refine h.setRow fun c hc => ?_
    rw [liveRow_none, liveRow_some, hu c hc]
    rfl

lemma load : Agrees s.load := by
  unfold Boot.load
  split
  · intro run c hc
    have hheld : (s.rows run).filter (fun r => !r.state.terminal) = some c := by
      simpa [copy] using hc
    rw [(Option.filter_eq_some_iff.1 hheld).1]
  · exact h

lemma settle (absent drivers : List ℕ) : Agrees (s.settle absent drivers) := by
  unfold Boot.settle
  split
  · intro run c hc
    dsimp only [copy] at hc ⊢
    cases hheld : s.held run with
    | none =>
      rw [hheld] at hc
      refine h run c ?_
      rw [copy, hheld]
      exact hc
    | some r =>
      have hagree := h run r (by rw [copy, hheld]; rfl)
      rw [hheld, Option.map_some, Option.some_or] at hc
      cases hc
      rw [Option.any_some]
      cases orphaned absent run r with
      | false => exact hagree
      | true => cases s.rows run <;> rfl
  · exact h

/-- So the last look is as good as a look at the committed row. -/
lemma liveRow_get (run : ℕ) : liveRow (s.get run) = liveRow (s.rows run) := by
  unfold get
  cases hc : s.copy run with
  | none => rw [Option.none_or]
  | some c => exact (h run c hc).symm

lemma lookUp (hh : s'.held = s.held) (hr : s'.rows = s.rows)
    (hl : s'.last = (s.get run).map (run, ·)) : Agrees s' := by
  intro r c hc
  rw [hr]
  unfold copy at hc
  rw [hh, hl] at hc
  rcases Option.or_eq_some_iff.1 hc with hheld | ⟨_, hlast⟩
  · exact h r c (Option.or_eq_some_iff.2 (.inl hheld))
  · obtain ⟨p, hp, rfl⟩ := Option.map_eq_some_iff.1 hlast
    obtain ⟨hget, hrun⟩ := Option.filter_eq_some_iff.1 hp
    obtain ⟨c, hlooked, rfl⟩ := Option.map_eq_some_iff.1 hget
    obtain rfl : run = r := of_decide_eq_true hrun
    rw [← h.liveRow_get, hlooked]

lemma recheck : Agrees s.recheck := by
  unfold Boot.recheck
  split
  · dsimp only
    split_ifs
    · exact h.lookUp rfl rfl rfl
    · exact h.lookUp rfl rfl rfl
  · exact h.frame rfl rfl rfl
  · exact h

lemma step {a : BootAction} (hu : Undisturbed a s) : Agrees (s.step a) := by
  cases a with
  | commitRow run fleet => exact h.commitRow hu
  | create run => exact h.create run
  | createFails run leftBehind => exact h.createFails leftBehind hu
  | finish run => exact h.finish hu
  | commit run state => exact h.setRow_map fun c hc _ => hu c hc
  | delete run => exact h.delete hu
  | remove fleet run => exact h.frame rfl rfl rfl
  | load => exact h.load
  | settle absent drivers => exact h.settle absent drivers
  | list ok =>
    change Agrees (s.list ok)
    unfold Boot.list
    split
    · split_ifs
      · exact h.frame rfl rfl rfl
      · exact h.frame rfl rfl rfl
    · exact h
  | readLive =>
    change Agrees s.readLive
    unfold Boot.readLive
    split
    · exact h.frame rfl rfl rfl
    · exact h
  | recheck => exact h.recheck
  | destroy ok =>
    change Agrees (s.destroy ok)
    unfold Boot.destroy
    split
    · exact h.frame rfl rfl rfl
    · exact h

end Agrees

/-! ### What is destroyed -/

/-- The sweep destroys, and is about to destroy, exactly what was not live when it was looked up. -/
structure Judged (s : Boot) : Prop where
  verdicts : ∀ v ∈ s.verdicts, v.destroyed = !liveRow v.committed
  doomed : ∀ fleet run committed strays todo,
    s.sweep = .destroying fleet run committed strays todo → liveRow committed = false

namespace Judged

variable {s s' : Boot}

lemma quiet (h : Judged s) (hv : s'.verdicts = s.verdicts) (hs : s'.sweep = s.sweep ∨
    ∀ fleet run committed strays todo, s'.sweep ≠ .destroying fleet run committed strays todo) :
    Judged s' := by
  refine ⟨by rw [hv]; exact h.verdicts, fun fleet run committed strays todo hd => ?_⟩
  rcases hs with hs | hs
  · exact h.doomed fleet run committed strays todo (hs ▸ hd)
  · exact absurd hd (hs fleet run committed strays todo)

/-- A verdict is passed on one more workload. -/
lemma pass (h : Judged s) {v : Verdict} (hv : s'.verdicts = s.verdicts ++ [v])
    (hj : v.destroyed = !liveRow v.committed)
    (hs : ∀ fleet run committed strays todo,
      s'.sweep ≠ .destroying fleet run committed strays todo) :
    Judged s' := by
  refine ⟨fun w hw => ?_, fun fleet run committed strays todo hd =>
    absurd hd (hs fleet run committed strays todo)⟩
  rw [hv] at hw
  rcases List.mem_append.1 hw with hw | hw
  · exact h.verdicts w hw
  · obtain rfl := List.mem_singleton.1 hw
    exact hj

lemma recheck (h : Judged s) (ha : Agrees s) : Judged s.recheck := by
  unfold Boot.recheck
  split
  · next fleet run strays todo _ =>
    split_ifs with hlive
    · rw [ha.liveRow_get] at hlive
      refine h.pass rfl ?_ (by simp)
      rw [hlive]
      rfl
    · rw [ha.liveRow_get, Bool.not_eq_true] at hlive
      refine ⟨h.verdicts, fun fleet' run' committed strays' todo' hd => ?_⟩
      cases hd
      exact hlive
  · exact h.quiet rfl (.inr (by simp))
  · exact h

lemma destroy (h : Judged s) (ok : Bool) : Judged (s.destroy ok) := by
  unfold Boot.destroy
  split
  · next fleet run committed strays todo hd =>
    refine h.pass rfl ?_ (by simp)
    rw [h.doomed _ _ _ _ _ hd]
    rfl
  · exact h

lemma step (h : Judged s) (ha : Agrees s) (a : BootAction) : Judged (s.step a) := by
  cases a with
  | commitRow run fleet =>
    change Judged (s.commitRow run fleet)
    unfold Boot.commitRow
    split_ifs
    · exact h.quiet rfl (.inl rfl)
    · exact h
  | create run =>
    change Judged (s.create run)
    unfold Boot.create
    split
    · exact h.quiet rfl (.inl rfl)
    · exact h
  | createFails run leftBehind =>
    change Judged (s.createFails run leftBehind)
    unfold Boot.createFails
    split
    · dsimp only
      split_ifs
      · exact h.quiet rfl (.inl rfl)
      · exact h.quiet rfl (.inl rfl)
    · exact h
  | finish run =>
    change Judged (s.finish run)
    unfold Boot.finish
    split
    · exact h.quiet rfl (.inl rfl)
    · exact h
  | commit run state => exact h.quiet rfl (.inl rfl)
  | delete run =>
    change Judged (s.delete run)
    unfold Boot.delete
    split_ifs
    · exact h
    · exact h.quiet rfl (.inl rfl)
  | remove fleet run => exact h.quiet rfl (.inl rfl)
  | load =>
    change Judged s.load
    unfold Boot.load
    split
    · exact h.quiet rfl (.inr (by simp))
    · exact h
  | settle absent drivers =>
    change Judged (s.settle absent drivers)
    unfold Boot.settle
    split
    · exact h.quiet rfl (.inr (by simp))
    · exact h
  | list ok =>
    change Judged (s.list ok)
    unfold Boot.list
    split
    · split_ifs
      all_goals exact h.quiet rfl (.inr (by simp))
    · exact h
  | readLive =>
    change Judged s.readLive
    unfold Boot.readLive
    split
    · exact h.quiet rfl (.inr (by simp))
    · exact h
  | recheck => exact h.recheck ha
  | destroy ok => exact h.destroy ok

end Judged

end Boot

/-- In every interleaving in which no other session ends, or brings back, a run that boot has a copy
of: of the workloads the sweep looked up, it destroys exactly those whose run had ended or was not
there at that moment; and what it is about to destroy is such a workload, which is then gone if the
driver does as it is told. -/
theorem sweep_spares_live {s t : Boot} {as : List BootAction} (hs : s.AtBoot)
    (h : Runs Boot.step Boot.Undisturbed s as t) :
    (∀ v ∈ t.verdicts, v.destroyed = true ↔ liveRow v.committed = false) ∧
      ∀ fleet run committed strays todo, t.sweep = .destroying fleet run committed strays todo →
        liveRow committed = false ∧ (fleet, run) ∉ (t.step (.destroy true)).workloads := by
  have hagrees : s.Agrees := by
    intro run c hc
    rw [Boot.copy, hs.held, hs.last] at hc
    cases hc
  have hjudged : s.Judged := by
    refine ⟨by simp [hs.verdicts], fun fleet run committed strays todo hd => ?_⟩
    rw [hs.sweep] at hd
    cases hd
  have hend : t.Judged := h.invariant_under (fun _ _ hu ha => ha.step hu)
    (fun a _ _ ha hj => hj.step ha a) hagrees hjudged
  refine ⟨fun v hv => ?_, fun fleet run committed strays todo hd => ?_⟩
  · rw [hend.verdicts v hv]
    simp
  · refine ⟨hend.doomed fleet run committed strays todo hd, ?_⟩
    simp [Boot.step, Boot.destroy, hd]

/-! ### Stale copies -/

/-- Run 8 is launched while fleet 0 is swept; run 3 has a workload there and no row. -/
def launchedMeanwhile : Boot :=
  exec Boot.step { rows := fun _ => none, workloads := [(0, 3)] }
    [.load, .settle [] [0], .commitRow 8 0, .create 8, .list true, .readLive, .finish 8, .recheck,
      .destroy true]

/-- The new run is spared, and the workload nobody knows is destroyed. -/
theorem sweep_spares_launched_meanwhile :
    (launchedMeanwhile.workloads = [(0, 8)] ∧ launchedMeanwhile.verdicts = [⟨0, 3, none, true⟩]) ∧
      ∀ v ∈ launchedMeanwhile.verdicts, v.destroyed = true ↔ liveRow v.committed = false :=
  ⟨by decide +kernel,
    (sweep_spares_live ⟨fun _ => rfl, rfl, rfl, rfl⟩ (Runs.of_check (by decide +kernel))).1⟩

/-- Run 7 has committed its row when the first phase loads the runs, and creates its workload and
commits again during the sweep. -/
def launchedAtBoot : Boot :=
  exec Boot.step
    { rows := Function.update (fun _ => none) 7 (some { state := .preparing })
      workloads := []
      launches := Function.update (fun _ => none) 7 (some { fleet := 0 }) }
    [.load, .create 7, .settle [] [0], .list true, .readLive, .finish 7, .recheck, .destroy true]

/-- Run 7 is running when the first phase loads the runs, and is stopped during the sweep. -/
def stoppedMeanwhile : Boot :=
  exec Boot.step
    { rows := Function.update (fun _ => none) 7 (some { state := .running, hasRef := true })
      workloads := [(0, 7)] }
    [.load, .settle [] [0], .list true, .commit 7 .stopped, .readLive, .recheck]

/-- The launch is failed in the copy of the first phase, so its workload is destroyed although the
run is provisioning; the stopped run is running in the copy, so its workload is left alone. -/
theorem sweep_trusts_stale_copies :
    (launchedAtBoot.verdicts = [⟨0, 7, some { state := .provisioning, hasRef := true }, true⟩] ∧
        launchedAtBoot.workloads = []) ∧
      stoppedMeanwhile.verdicts = [⟨0, 7, some { state := .stopped, hasRef := true }, false⟩] ∧
        stoppedMeanwhile.workloads = [(0, 7)] := by
  decide +kernel

end Stoker
