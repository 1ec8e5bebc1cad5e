import Stoker.Lifecycle.Manned
import Stoker.Worker.Sync

/-!
# The shape of the lease table

A provisioning seeds one row for each slot, a scale adds and deletes rows at the upper end, and
claims, takeovers, rescales and step-downs rewrite shares in place. Whatever happens to a run, its
slots are those below the worker count of its snapshot and each share is one value under the key of
its rate mode. A scale calls the driver before it touches a row, so one that fails there changes
nothing.

What a claim or a heartbeat is answered with is read off such a row, and the worker takes it as it
was meant.
-/

open List

namespace Stoker

open Transition

/-- The lease rows of a run: one for each slot below the worker count, each with a share that has
one public key, that of the rate mode. -/
structure LeaseTable (db : Db) : Prop where
  slots : db.leases.map (·.slot) = range db.run.snapshot.workers
  keyed : SharesKeyed db

namespace LeaseTable

variable {db : Db} {s : Sys} {now : Time} {spec : Snapshot}

lemma start (h : provisionRun now spec = .ok db) : LeaseTable db where
  slots := congrArg Prod.fst (provisionRun_fleet h).1
  keyed := SharesKeyed.start h

lemma step_slots (cfg : Settings) (a : Action) (h : LeaseTable s.db) :
    (Sys.step cfg a s).db.leases.map (·.slot) =
      range (Sys.step cfg a s).db.run.snapshot.workers := by
  have hfleet : s.db.fleet = (range s.db.run.snapshot.workers, s.db.run.snapshot.workers,
      s.db.run.snapshot.rotation) := by
    rw [Db.fleet, h.slots]
  rcases step_fleet cfg a s with hsame | ⟨now, workers, env, rfl, hs⟩
  · rw [Db.fleet, hfleet, Prod.mk.injEq, Prod.mk.injEq] at hsame
    rw [hsame.1, hsame.2.1]
  · have hscaled := scaleRunEndpoint_fleet hfleet hs
    rw [Db.fleet, Prod.mk.injEq, Prod.mk.injEq] at hscaled
    rw [hscaled.1, hscaled.2.1]

theorem step (cfg : Settings) (a : Action) (hs : s.registry.Sound) (h : LeaseTable s.db) :
    LeaseTable (Sys.step cfg a s).db where
  slots := h.step_slots cfg a
  keyed := h.keyed.step cfg a hs

/-- The table of a run keeps its shape through any history. -/
theorem reachable {cfg : Settings} {as : List Action} (hp : provisionRun now spec = .ok db)
    (h : Runs (Sys.step cfg) Always (Sys.start db) as s) : LeaseTable s.db :=
  h.invariant_under (I := fun s => s.registry.Sound) (J := fun s => LeaseTable s.db)
    (fun a s _ hs => hs.move (step_move cfg a s hs)) (fun a _ _ hs ht => ht.step cfg a hs)
    (start_sound hp) (start hp)

end LeaseTable

variable {s : Sys} {now : Time} {cfg : Settings} {spec : Snapshot} {db : Db} {as : List Action}

lemma step_scale_failed (cfg : Settings) {workers : ℕ} {env : Env}
    (hd : s.db.run.driverRef.isSome = true) (hfail : env.scaleOk = false) :
    Sys.step cfg (.scale now workers env) s = s := by
  cases hs : scaleRunEndpoint now workers env s.db with
  | error e =>
    rw [Sys.step, hs]
    rfl
  | ok db' =>
    rw [scaleRunEndpoint_driver hs hd] at hfail
    cases hfail

/-- After any history the slots of a run are `0 .. n - 1` for the worker count of the snapshot,
every share has one public key, that of the run's rate mode, and a scale that the driver refuses
leaves everything as it was. -/
theorem lease_table_shape (hp : provisionRun now spec = .ok db)
    (h : Runs (Sys.step cfg) Always (Sys.start db) as s) :
    s.db.leases.map (·.slot) = range s.db.run.snapshot.workers ∧
      (∀ l ∈ s.db.leases, ∃ v, l.share.pub = [(s.db.run.snapshot.rateMode.key, v)]) ∧
      ∀ (later : Time) (workers : ℕ) (env : Env), s.db.run.driverRef.isSome = true →
        env.scaleOk = false → Sys.step cfg (.scale later workers env) s = s := by
  have htable := LeaseTable.reachable hp h
  refine ⟨htable.slots, htable.keyed, ?_⟩
  intro later workers env hd hfail
  exact step_scale_failed cfg hd hfail

/-- A run of two workers that is scaled to three, of which one is taken over, and whose driver then
refuses another scale. -/
theorem lease_table_shape_scaled :
    let s := exec (Sys.step {}) (Sys.start (plainDb 2))
      [.launch 1 swarmRun, .claim 2 "w0" none, .scale 3 3 {}, .claim 4 "w1" none]
    s.db.leases.map (·.slot) = range 3 ∧
      Sys.step {} (.scale 5 4 { scaleOk := false }) s = s := by
  intro s
  have hp := provisionRun_plain (by decide : 0 < 2)
  have h : Runs (Sys.step {}) Always (Sys.start (plainDb 2)) _ s := Runs.always _ _
  obtain ⟨hslots, _, hfailed⟩ := lease_table_shape hp h
  have hworkers : s.db.run.snapshot.workers = 3 := by decide +kernel
  rw [hworkers] at hslots
  exact ⟨hslots, hfailed 5 4 { scaleOk := false } (by decide +kernel) rfl⟩

/-! ### What the control plane sends, the worker takes -/

/-- A share that a claim's answer may carry: one value under the key of the mode, positive if the
mode is paced. -/
def Payable (mode : RateMode) (share : PublicShare) : Prop :=
  ∃ v, share = [(mode.key, v)] ∧ (mode.paced = true → 0 < v)

lemma buildShareList_payable {mode : RateMode} {rate : Option ℚ} {n : ℕ} {shares : List PublicShare}
    (h : buildShareList mode rate n = .ok shares) (share : PublicShare) (hs : share ∈ shares) :
    Payable mode share := by
  by_cases hm : mode.paced = true
  · obtain ⟨rate, _, hrate, hn, rfl⟩ := buildShareList_ok hm h
    exact ⟨rate / n, eq_of_mem_replicate hs, fun _ => div_pos hrate (by exact_mod_cast hn)⟩
  · obtain ⟨v, hv⟩ := (buildShareList_shape h).2 share hs
    exact ⟨v, hv, fun hpaced => absurd hpaced hm⟩

/-- The worker makes of an answer what was meant: it starts from a slice with the slice's own share,
and a new share of a paced run becomes its share. -/
def Answer.Understood (mode : RateMode) : Answer → Prop
  | .slice holder given => ∀ now, ∃ w, Worker.ofSlice now holder given = .ok w ∧
      w.rateMode = mode ∧ w.share = given.share
  | .reply _ _ told => ∀ share, told.command = .retarget share → mode.paced = true →
      ∀ w : Worker, w.rateMode = mode → (w.retarget share).share = share

namespace Payable

variable {mode : RateMode} {share : PublicShare}

lemma starts (h : Payable mode share) (holder : String) {slice : Slice} (hs : slice.share = share) :
    (Answer.slice holder slice).Understood mode := by
  obtain ⟨v, rfl, hv⟩ := h
  intro now
  have hrate : sliceRate slice.share = .ok (mode, v) := by
    rw [hs, sliceRate, RateMode.key_mode, if_neg]
    rintro ⟨hm, hle⟩
    refine absurd (hv ?_) (not_lt.mpr hle)
    cases mode with
    | countInterval => exact absurd rfl hm
    | eps | perDayGb => rfl
  rw [Worker.ofSlice, hrate]
  exact ⟨_, rfl, rfl, hs.symm⟩

lemma adopted (h : Payable mode share) (hm : mode.paced = true) {w : Worker}
    (hw : w.rateMode = mode) : (w.retarget share).share = share := by
  obtain ⟨v, rfl, hv⟩ := h
  rw [Worker.retarget, if_neg (by simp [hw, hv hm]), Worker.share, hw]

end Payable

lemma Answer.Understood.step (cfg : Settings) (a : Action) (hs : s.registry.Sound)
    (hp : SharesMeet Payable s.db)
    (h : ∀ answer ∈ s.sent, answer.Understood s.db.run.snapshot.rateMode) :
    ∀ answer ∈ (Sys.step cfg a s).sent,
      answer.Understood (Sys.step cfg a s).db.run.snapshot.rateMode := by
  have hp' := SharesMeet.step buildShareList_payable cfg a hs hp
  intro answer hmem
  rcases Sys.step_sent cfg a s with hsent | ⟨now, holder, _, db, slot, lease, _, _, hl, hdb,
    hsent⟩ |
    ⟨now, hb, _, _, hsent⟩ <;> rw [hsent] at hmem
  · rw [step_mode]
    exact h answer hmem
  · rcases mem_append.1 hmem with hold | hnew
    · rw [step_mode]
      exact h answer hold
    · rw [mem_singleton.1 hnew]
      exact (hp' lease (hdb ▸ mem_of_find?_eq_some hl)).starts holder rfl
  · rw [step_mode]
    rcases mem_append.1 hmem with hold | hnew
    · exact h answer hold
    · rw [mem_singleton.1 hnew]
      intro share hshare hm w hw
      rcases recordHeartbeat_cases now hb s.db with ⟨hno, _⟩ | ⟨l, hl, _, d, rfl, hc, _⟩
      · rw [hno] at hshare
        cases hshare
      · obtain ⟨_, rfl⟩ := (heartbeatCommand_retarget _ _ _ _ _).1 (hc.symm.trans hshare)
        rw [(renewLease_frame now hb l).2.2.1]
        exact (hp l (mem_of_find?_eq_some hl)).adopted hm hw

/-- Whatever interleaving of claims, heartbeats, rescales, scales and ticks a run goes through, the
worker accepts the share of every slice a claim was answered with and works with it, and the worker
of any such slice takes over every share that an answer to a heartbeat carries, if the run is paced.
The urls of a slice, which the worker also asks for, are not modelled. -/
theorem answers_understood (hp : provisionRun now spec = .ok db)
    (h : Runs (Sys.step cfg) Always (Sys.start db) as s) {holder : String} {slice : Slice}
    (hslice : .slice holder slice ∈ s.sent) (t : Time) :
    ∃ w, Worker.ofSlice t holder slice = .ok w ∧ w.share = slice.share ∧
      ∀ slot leaseId reply share, .reply slot leaseId reply ∈ s.sent →
        reply.command = .retarget share → s.db.run.snapshot.rateMode.paced = true →
        (w.retarget share).share = share := by
  have hall := h.invariant_under (I := fun s => s.registry.Sound)
    (J := fun s => SharesMeet Payable s.db ∧
      ∀ answer ∈ s.sent, answer.Understood s.db.run.snapshot.rateMode)
    (fun a s _ hs => hs.move (step_move cfg a s hs))
    (fun a _ _ hs hj => ⟨SharesMeet.step buildShareList_payable cfg a hs hj.1,
      .step cfg a hs hj.1 hj.2⟩)
    (start_sound hp) ⟨SharesMeet.start buildShareList_payable hp, by simp [Sys.start]⟩
  obtain ⟨w, hw, hmode, hshare⟩ := hall.2 _ hslice t
  refine ⟨w, hw, hshare, ?_⟩
  intro slot leaseId reply share hreply hcommand hpaced
  exact hall.2 _ hreply share hcommand hpaced w hmode

/-- A worker that is released and whose run is then rescaled from twelve events per second to
two. -/
theorem answers_understood_rescaled :
    let s := exec (Sys.step {}) (Sys.start (plainDb 1))
      [.launch 1 swarmRun, .claim 2 "w0" none, .ready 3 0 (some 1), .release 4 0,
        .heartbeat 10 { slot := 0, leaseId := some 1 }, .rescale 11 2 {},
        .heartbeat 15 { slot := 0, leaseId := some 1 }]
    ∃ slice w, .slice "w0" slice ∈ s.sent ∧ Worker.ofSlice 5 "w0" slice = .ok w ∧
      w.share = slice.share ∧ (w.retarget [(.eps, 2)]).share = [(.eps, 2)] := by
  intro s
  let slice : Slice :=
    { slot := 0, totalWorkers := 1, leaseId := 1, engine := .eventgen, share := [(.eps, 12)],
      durationS := none, released := false, effectiveT0 := none }
  have hslice : .slice "w0" slice ∈ s.sent := by decide +kernel
  have hreply : .reply 0 (some 1) { command := .retarget [(.eps, 2)] } ∈ s.sent := by decide +kernel
  obtain ⟨w, hw, hshare, hretarget⟩ :=
    answers_understood (provisionRun_plain (by decide : 0 < 1)) (Runs.always _ _) hslice 5
  exact ⟨slice, w, hslice, hw, hshare, hretarget _ _ _ _ hreply rfl (by decide +kernel)⟩

end Stoker
