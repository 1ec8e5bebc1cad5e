import Stoker.Server.Steps

/-!
# One T0 per run

T0 is set when the fleet is released. The supervisor's pass checks the stored T0 first; a ready post
checks the one of the row it loaded before it committed its mark, so two posts whose marks were both
committed before either evaluated the release set T0 twice. When no post goes ahead with the release
once T0 is stored, T0 never changes and every release command carries it.
-/

namespace Stoker

open Transition

/-- The end of a ready post that goes ahead with the release finds no T0 stored. -/
def ReleaseSeen (a : Action) (s : Sys) : Prop :=
  match a with
  | .release now i =>
    ∀ p ∈ s.readying[i]?, finishReady now p.1 p.2 s.db ≠ s.db → s.db.run.t0 = none
  | _ => True

instance (a : Action) (s : Sys) : Decidable (ReleaseSeen a s) :=
  match a with
  | .release .. => inferInstanceAs (Decidable (∀ p ∈ _, _ → _))
  | .launch .. | .claim .. | .ready .. | .heartbeat .. | .final .. | .stop .. | .pause ..
  | .resume .. | .scale .. | .rescale .. | .tick .. | .reconcile .. => isTrue trivial

/-- T0 is set at most once. -/
def T0Kept (a b : Option Time) : Prop := ∀ x, a = some x → b = some x

variable {a b : Option Time}

lemma T0Kept.of_eq (h : b = a) : T0Kept a b := fun _ hx => h.trans hx

lemma T0Kept.of_none (h : a = none) : T0Kept a b := by
  rintro x rfl
  cases h

/-- The instants of the release commands sent so far. -/
def Sys.releases (s : Sys) : List Time :=
  s.sent.filterMap fun
    | .reply _ _ r => match r.command with
      | .release t0 => some t0
      | _ => none
    | .slice _ _ => none

/-! ### One step -/

lemma supervisorTick_t0Kept (cfg : Settings) (boot now : Time) (env : Env) (db : Db) :
    T0Kept db.run.t0 (supervisorTick cfg boot now env db).run.t0 := by
  refine supervisorTick_rule (I := fun d => T0Kept db.run.t0 d.run.t0) ?_ ?_ ?_ (T0Kept.of_eq rfl)
  · intro a b hq ha x hx
    rw [hq.t0]
    exact ha x hx
  · -- a forced release finds no T0, so there was none at the start of the pass
    intro a _ ht _ ha x hx
    have hax := ha x hx
    rw [ht] at hax
    cases hax
  · intro a _ _ ha x hx
    rw [(stepDown_frame _ _ a).2]
    exact ha x hx

lemma step_t0Kept (cfg : Settings) (a : Action) (s : Sys) (hg : ReleaseSeen a s) :
    T0Kept s.db.run.t0 (Sys.step cfg a s).db.run.t0 := by
  have hstep := Sys.step_stored cfg a s
  generalize (Sys.step cfg a s).db = db at hstep ⊢
  cases hstep with
  | quiet hq => exact T0Kept.of_eq hq.t0
  | @launch now result loaded => exact T0Kept.of_eq (finishLaunch_frame now result loaded s.db).2.1
  | claim hc => exact T0Kept.of_eq (by rw [claimLease_run hc])
  | ready hm => exact T0Kept.of_eq (Upkeep.ready hm).t0
  | @release now _ loaded own hi =>
    by_cases hsame : finishReady now loaded own s.db = s.db
    · exact T0Kept.of_eq (by rw [hsame])
    · exact T0Kept.of_none (hg (loaded, own) (by simp [hi]) hsame)
  | heartbeat => exact T0Kept.of_eq (recordHeartbeat_run _ _ s.db).2.1
  | scale h =>
    obtain ⟨_, _, shares, _, rfl⟩ := scaleRunEndpoint_ok h
    exact T0Kept.of_eq rfl
  | rescale _ h => exact T0Kept.of_eq (rescaleRun_frame h).2
  | tick => exact supervisorTick_t0Kept cfg _ _ _ s.db

/-- A step sends no release command, or one that carries the T0 stored before and after it. -/
lemma step_releases (cfg : Settings) (a : Action) (s : Sys) :
    (Sys.step cfg a s).releases = s.releases ∨
    ∃ x, s.db.run.t0 = some x ∧ (Sys.step cfg a s).db.run.t0 = some x ∧
      (Sys.step cfg a s).releases = s.releases ++ [x] := by
  rcases Sys.step_sent cfg a s with hsent | ⟨_, holder, _, db, _, lease, _, _, _, _, hsent⟩ |
    ⟨now, hb, _, hdb, hsent⟩
  · refine .inl ?_
    rw [Sys.releases, hsent]
    rfl
  · refine .inl ?_
    simp [Sys.releases, hsent]
  · have hrel : (Sys.step cfg a s).releases = s.releases ++
        (match (recordHeartbeat now hb s.db).2.command with
          | .release t0 => [t0]
          | _ => []) := by
      simp only [Sys.releases, hsent, List.filterMap_append]
      cases hc : (recordHeartbeat now hb s.db).2.command <;> simp [hc]
    rw [hrel, hdb]
    rcases recordHeartbeat_cases now hb s.db with ⟨h, _⟩ | ⟨l, _, _, d, hd, hc, _, _, ht, _⟩
    · rw [h]
      exact .inl (by simp)
    · cases hx : d.command with
      | release x =>
        have hx' : (recordHeartbeat now hb s.db).2.command = .release x := hc.trans hx
        have ht0 : s.db.run.t0 = some x := by
          rw [hd] at hx
          exact (heartbeatCommand_release hx).2.1
        refine .inr ⟨x, ht0, ?_, by rw [hx']⟩
        exact ht.trans ht0
      | _ =>
        refine .inl ?_
        rw [hc, hx]
        simp

/-! ### Whole runs -/

/-- Every release command sent so far carries the stored T0. -/
def ReleasesAgree (s : Sys) : Prop := ∀ x ∈ s.releases, s.db.run.t0 = some x

lemma releasesAgree_step (cfg : Settings) (a : Action) (s : Sys) (hg : ReleaseSeen a s)
    (h : ReleasesAgree s) : ReleasesAgree (Sys.step cfg a s) := by
  intro x hx
  rcases step_releases cfg a s with hr | ⟨y, _, hy, hr⟩
  · rw [hr] at hx
    exact step_t0Kept cfg a s hg x (h x hx)
  · rw [hr, List.mem_append, List.mem_singleton] at hx
    rcases hx with hx | rfl
    · exact step_t0Kept cfg a s hg x (h x hx)
    · exact hy

end Stoker
