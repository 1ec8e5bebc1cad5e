import Stoker.Lifecycle.Split
import Stoker.Worker.Waiting

/-!
# No rate change is lost

A new share reaches a worker in its slice or by a retarget that a heartbeat is answered with, and
the marker on the lease says that a push is still owed. So whenever a live lease carries no marker,
its worker should be working with the stored share. Three things break that: a push that a worker
ignores because it still waits for the release, a push it ignores because the share is not positive,
and a share rewritten without a marker while the lease was lost, when the lease then comes back.
-/

open List

namespace Stoker

open Transition

/-! ### Stored shares have the key of the run's mode -/

/-- A single value under the key of a mode. -/
def Keyed (mode : RateMode) (share : PublicShare) : Prop := ∃ v, share = [(mode.key, v)]

/-- Every stored share is a single value under the key of the run's mode. -/
def SharesKeyed (db : Db) : Prop := ∀ l ∈ db.leases, Keyed db.run.snapshot.rateMode l.share.pub

/-- Every stored share meets a condition. -/
def SharesMeet (P : RateMode → PublicShare → Prop) (db : Db) : Prop :=
  ∀ l ∈ db.leases, P db.run.snapshot.rateMode l.share.pub

variable {now : Time} {s : Sys} {slot : ℕ}

namespace SharesMeet

variable {db db' : Db} {P : RateMode → PublicShare → Prop}

/-- Each row has a share that some row had before, or one that meets the condition. -/
lemma of_rows (h : SharesMeet P db) (hm : db'.run.snapshot.rateMode = db.run.snapshot.rateMode)
    (hl : ∀ l' ∈ db'.leases, (∃ l ∈ db.leases, l'.share.pub = l.share.pub) ∨
      P db.run.snapshot.rateMode l'.share.pub) : SharesMeet P db' := by
  intro l' hl'
  rw [hm]
  rcases hl l' hl' with ⟨l, hlm, hpub⟩ | hk
  · rw [hpub]
    exact h l hlm
  · exact hk

lemma mild (h : SharesMeet P db) (hm : Mild db db') : SharesMeet P db' := by
  refine h.of_rows hm.mode fun l' hl' => ?_
  obtain ⟨l, hl, hf⟩ := hm.leases.exists_of_mem hl'
  exact .inl ⟨l, hl, by rw [hf.share]⟩

lemma upkeep {leaseId : Option LeaseId} (h : SharesMeet P db) (hu : Upkeep slot leaseId db db') :
    SharesMeet P db' := by
  refine h.of_rows (by rw [hu.snapshot]) fun l' hl' => ?_
  obtain ⟨l, hl, hk⟩ := forall₂_exists_of_mem hu.leases hl'
  exact .inl ⟨l, hl, hk.pub⟩

-- what a split of the rate gives meets the condition
variable (hP : ∀ {mode rate n shares}, buildShareList mode rate n = .ok shares →
  ∀ share ∈ shares, P mode share)

include hP

lemma partialRelease {shares : List PublicShare} (h : SharesMeet P db) (now : Time)
    (hb : buildShareList db.run.snapshot.rateMode db.run.snapshot.rateValue
      (readySlots db.leases).length =
        .ok shares) : SharesMeet P (partialRelease now shares db) := by
  refine h.of_rows (by simp) fun l' hl' => ?_
  rw [partialRelease_leases] at hl'
  obtain ⟨k, hk, rfl | ⟨share, hs, rfl⟩⟩ := mem_assignShares hl'
  · obtain ⟨l, hl, rfl⟩ := mem_map.1 hk
    exact .inl ⟨l, hl, by rw [(Lease.Fades.declareLost l).share]⟩
  · exact .inr (hP hb share hs)

omit hP in
lemma reshare_pub (shares : List PublicShare) (l : Lease) :
    (shares[l.slot]? = none ∧ (reshare shares l).share.pub = l.share.pub) ∨
      (reshare shares l).share.pub ∈ shares := by
  unfold reshare
  cases hs : shares[l.slot]? with
  | none => exact .inl ⟨rfl, rfl⟩
  | some share =>
    refine .inr ?_
    split_ifs <;> exact mem_of_getElem? hs

lemma rescale {rate : Option ℚ} (h : SharesMeet P db)
    (hr : rescaleRun now rate db = .ok db') : SharesMeet P db' := by
  rcases rescaleRun_ok hr with rfl | ⟨_, _, shares, hb, rfl⟩
  · exact h
  · refine h.of_rows rfl fun l' hl' => ?_
    obtain ⟨l, hl, rfl⟩ := mem_map.1 hl'
    rcases reshare_pub shares l with ⟨_, hp⟩ | hp
    · exact .inl ⟨l, hl, hp⟩
    · exact .inr (hP hb _ hp)

lemma scale {workers : ℕ} {env : Env} (hs : db.leases.map (·.slot) = range db.leases.length)
    (hr : scaleRunEndpoint now workers env db = .ok db') : SharesMeet P db' := by
  obtain ⟨_, _, shares, hb, rfl⟩ := scaleRunEndpoint_ok hr
  intro l' hl'
  obtain ⟨l, hl, rfl⟩ := mem_map.1 hl'
  rcases reshare_pub shares l with ⟨hnone, _⟩ | hp
  · have hslot : l.slot ∈ (resizeLeases workers db).leases.map (·.slot) := mem_map_of_mem hl
    rw [Split.resizeLeases_slots hs, mem_range] at hslot
    rw [List.getElem?_eq_none_iff, (buildShareList_shape hb).1] at hnone
    exact absurd hslot (not_lt.2 hnone)
  · exact hP hb _ hp

lemma takeover (h : SharesMeet P db) (now : Time) (slot : ℕ) :
    SharesMeet P (reapportionOnTakeover now slot db) := by
  rcases reapportionOnTakeover_eq now slot db with he | ⟨_, shares, _, hb, _, he⟩ <;> rw [he]
  · exact h
  · refine h.of_rows rfl fun l' hl' => ?_
    obtain ⟨l, hl, rfl | ⟨share, hs, rfl⟩⟩ := mem_assignShares hl'
    · exact .inl ⟨_, hl, rfl⟩
    · refine .inr ?_
      rw [Split.takeoverShare_pub]
      exact hP hb share hs

lemma claim {holder : String} {hint : Option ℕ} (h : SharesMeet P db)
    (hc : claimLease now holder hint db = .ok (db', slot)) : SharesMeet P db' := by
  refine claimLease_rule hc (fun _ _ ha => ha) (fun _ => h.upkeep) ?_ fun _ hi =>
    takeover hP hi now slot
  refine h.of_rows rfl fun l' hl' => ?_
  obtain ⟨k, hk, rfl⟩ := mem_updateLease.1 hl'
  refine .inl ⟨k, hk, ?_⟩
  split_ifs
  · simp only [issueLease]
    split_ifs <;> rfl
  · rfl

theorem step (cfg : Settings) (a : Action) (hs : s.registry.Sound)
    (h : SharesMeet P s.db) : SharesMeet P (Sys.step cfg a s).db := by
  have hstep := Sys.step_stored cfg a s
  generalize (Sys.step cfg a s).db = db at hstep ⊢
  cases hstep with
  | quiet hq => exact h.mild hq.mild
  | launch => exact h.mild (.finishLaunch _ _ _ _)
  | claim hc => exact claim hP h hc
  | ready hm => exact h.upkeep (.ready hm)
  | release => exact h.mild (.finishReady _ _ _ _)
  | heartbeat => exact h.upkeep (.heartbeat _ _ (Sys.nodup_slots hs) fun _ => rfl)
  | scale hr => exact scale hP (Sys.slots_eq hs) hr
  | rescale _ hr => exact rescale hP h hr
  | @tick boot now env =>
    refine supervisorTick_deals (I := SharesMeet P) ?_ ?_ ?_ h
    · exact fun a b hm ha => ha.mild hm
    · exact fun a shares _ hb ha => partialRelease hP ha now hb
    · exact fun a b _ _ hr ha => rescale hP ha hr

lemma start {spec : Snapshot} (h : provisionRun now spec = .ok db) : SharesMeet P db := by
  obtain ⟨_, shares, hb, rfl⟩ := provisionRun_ok h
  intro l hl
  obtain ⟨i, hi, rfl⟩ := mem_mapIdx.1 hl
  exact hP hb _ (getElem_mem hi)

end SharesMeet

namespace SharesKeyed

theorem step (cfg : Settings) (a : Action) (hs : s.registry.Sound)
    (h : SharesKeyed s.db) : SharesKeyed (Sys.step cfg a s).db :=
  SharesMeet.step (fun hb => (buildShareList_shape hb).2) cfg a hs h

lemma start {db : Db} {spec : Snapshot} (h : provisionRun now spec = .ok db) : SharesKeyed db :=
  SharesMeet.start (fun hb => (buildShareList_shape hb).2) h

end SharesKeyed

/-! ### Rewrites no worker is told of -/

/-- The noted ids were generated. -/
def SilentGenerated (db : Db) : Prop := ∀ id ∈ db.hist.silent, id < db.nextId

/-- A live lease's share was not rewritten behind its worker's back. -/
def LiveLoud (db : Db) : Prop := ∀ l ∈ db.leases, l.state.live = true → l.leaseId ∉ db.hist.silent

variable {db db' : Db} {f : Fleet} {a : Action} {share : PublicShare} {w : Worker} {l : Lease}
  {e : Event} {spec : Snapshot}

lemma byWorker_silent (cfg : Settings) (hs : s.registry.Sound) (ha : a.byWorker = true) :
    (Sys.step cfg a s).db.hist.silent = s.db.hist.silent ∧
    s.db.nextId ≤ (Sys.step cfg a s).db.nextId := by
  have hkept : ∀ {slot leaseId db}, Upkeep slot leaseId s.db db →
      db.hist.silent = s.db.hist.silent ∧ s.db.nextId ≤ db.nextId :=
    fun hu => ⟨by rw [hu.hist], hu.nextId.ge⟩
  have hstep := Sys.step_stored cfg a s
  generalize (Sys.step cfg a s).db = db at hstep ⊢
  cases hstep with
  | quiet hq => exact ⟨by rw [hq.hist], hq.nextId.ge⟩
  | launch | release | scale | rescale | tick => cases ha
  | @claim now holder _ _ slot hc =>
    refine claimLease_rule hc (I := fun d => d.hist.silent = s.db.hist.silent ∧
      s.db.nextId ≤ d.nextId)
      (fun _ _ ha => ha) (fun _ => hkept) ⟨rfl, Nat.le_succ _⟩ fun _ hi => ?_
    obtain ⟨_, hnext, _, hsilent⟩ :=
      reapportionOnTakeover_frame now slot (issuedDb now holder slot s.db)
    rwa [hnext, hsilent]
  | ready hm => exact hkept (.ready hm)
  | heartbeat => exact hkept (.heartbeat _ _ (Sys.nodup_slots hs) fun _ => rfl)

/-- Noted ids stay noted, and all of them were generated. -/
lemma step_silent (cfg : Settings) (a : Action) (hs : s.registry.Sound) :
    (∀ id ∈ s.db.hist.silent, id ∈ (Sys.step cfg a s).db.hist.silent) ∧
      (SilentGenerated s.db → SilentGenerated (Sys.step cfg a s).db) := by
  by_cases ha : a.byWorker = true
  · obtain ⟨h₁, h₂⟩ := byWorker_silent cfg hs ha
    refine ⟨by rw [h₁]; exact fun _ h => h, fun h id hid => ?_⟩
    rw [h₁] at hid
    exact (h id hid).trans_le h₂
  · have hages := Ages.step cfg hs (by simpa using ha)
    exact ⟨hages.silent, hages.generated⟩

/-! ### Workers and their shares -/

instance (run : Run) (version : ℤ) (l : Lease) : Decidable (PushReady run version l) :=
  inferInstanceAs (Decidable (_ ∧ _))

/-- A share is pushed only to a worker that has started, and it is positive; and no lost lease comes
back whose share was rewritten while it was lost. -/
def PushesLand (e : Event) (f : Fleet) : Prop :=
  match e with
  | .heartbeat _ holder _ => ∀ w ∈ f.worker holder, ∀ l ∈ f.sys.db.leases, Fleet.Holds w l →
      (l.state = .lost → l.leaseId ∉ f.sys.db.hist.silent) ∧
      (PushReady f.sys.db.run 1 l → w.phase ≠ .waiting ∧ ∀ p ∈ l.share.pub, 0 < p.2)
  | _ => True

instance (e : Event) (f : Fleet) : Decidable (PushesLand e f) :=
  match e with
  | .heartbeat .. => inferInstanceAs (Decidable (∀ w ∈ _, ∀ l ∈ _, _ → _ ∧ (_ → _ ∧ ∀ p ∈ _, _)))
  | .server .. | .claim .. | .ready .. | .drain .. | .final .. => isTrue trivial

/-- A worker has the run's mode, and works with the stored share unless a push is owed or the
rewrite was noted. -/
def Synced (f : Fleet) : Prop :=
  ∀ w ∈ f.workers, ∀ l ∈ f.sys.db.leases, Fleet.Holds w l →
    w.rateMode = f.sys.db.run.snapshot.rateMode ∧
    (l.leaseId ∉ f.sys.db.hist.silent → l.share.retarget = false → l.share.pub = w.share)

lemma sliceRate_ok {mode : RateMode} {v : ℚ} (h : sliceRate share = .ok (mode, v)) :
    share = [(mode.key, v)] := by
  unfold sliceRate at h
  split at h
  · rename_i key value
    split_ifs at h
    cases h
    cases key <;> rfl
  · cases h

lemma step_mode (cfg : Settings) (a : Action) (s : Sys) :
    (Sys.step cfg a s).db.run.snapshot.rateMode = s.db.run.snapshot.rateMode := by
  have hrescale : ∀ {now rate} {db db' : Db}, rescaleRun now rate db = .ok db' →
      db'.run.snapshot.rateMode = db.run.snapshot.rateMode := by
    intro now rate db db' hr
    rcases rescaleRun_ok hr with rfl | ⟨_, _, _, _, rfl⟩ <;> rfl
  rcases Sys.step_snapshot cfg a s with
    h | ⟨_, _, _, _, h⟩ | ⟨_, _, _, _, h⟩ | ⟨boot, now, env, _, h⟩
  · rw [h]
  · obtain ⟨_, _, _, _, he⟩ := scaleRunEndpoint_ok h
    rw [he]
    rfl
  · exact hrescale h
  · rw [h]
    refine supervisorTick_deals (I := fun db => db.run.snapshot.rateMode =
      s.db.run.snapshot.rateMode) ?_ ?_ ?_ rfl
    · exact fun a b hm ha => hm.mode.trans ha
    · exact fun a shares _ _ ha => by simpa using ha
    · exact fun a b _ _ hr ha => (hrescale hr).trans ha

lemma LiveLoud.upkeep {leaseId : Option LeaseId} (h : LiveLoud db)
    (hu : Upkeep slot leaseId db db')
    (hback : ∀ l ∈ db.leases, l.slot = slot → leaseId = some l.leaseId → l.state = .lost →
      l.leaseId ∉ db.hist.silent) :
    LiveLoud db' := by
  intro l' hl' hlive
  obtain ⟨l, hl, hk⟩ := forall₂_exists_of_mem hu.leases hl'
  have hsame : l'.leaseId = l.leaseId := congrArg (·.2.1) hk.ident
  rw [hu.hist, hsame]
  rcases hk.live hlive with hlive | ⟨hlost, hs, hid⟩
  · exact h l hl hlive
  · exact hback l hl hs hid hlost

/-- A claim makes live the lease it issues under a fresh id, and no other. -/
lemma LiveLoud.claim {holder : String} {hint : Option ℕ} (hgen : SilentGenerated db)
    (h : LiveLoud db) (hc : claimLease now holder hint db = .ok (db', slot)) : LiveLoud db' := by
  refine claimLease_rule hc (fun _ _ ha => ha) (fun _ hu => h.upkeep hu (by simp)) ?_ fun _ hi => ?_
  · intro l' hl' hlive
    obtain ⟨l, hl, rfl⟩ := mem_updateLease.1 hl'
    split_ifs at hlive ⊢
    · exact fun hid => lt_irrefl _ (hgen _ hid)
    · exact h l hl hlive
  · intro l' hl' hlive
    rw [(reapportionOnTakeover_frame now slot _).2.2.2]
    have hrow := mem_map_of_mem (f := fun l => (l.leaseId, l.state)) hl'
    rw [reapportionOnTakeover_map now _ fun share l => ?_] at hrow
    · obtain ⟨l, hl, heq⟩ := mem_map.1 hrow
      obtain ⟨hid, hst⟩ := Prod.mk.inj heq
      rw [← hid]
      exact hi l hl (hst ▸ hlive)
    · rw [takeoverShare_state]
      exact congrArg (·, _) (congrArg (·.2.1) (takeoverShare_ident slot share l))

/-- What no worker asked for makes no lease live, and notes the id of no live one. -/
lemma LiveLoud.ages (h : LiveLoud db) (hages : Ages db db') : LiveLoud db' := by
  intro l' hl' hlive hid
  have hid' := hages.loud l' hl' hlive hid
  rcases hages.leases l' hl' with ⟨_, hdead⟩ | ⟨l, hl, hage⟩
  · rw [hlive] at hdead
    cases hdead
  · rcases hage.state with hst | hst
    · rw [hst] at hlive
      rw [hage.leaseId] at hid'
      exact h l hl hlive hid'
    · rw [hlive] at hst
      cases hst

theorem LiveLoud.step (cfg : Settings) (hs : s.registry.Sound) (hgen : SilentGenerated s.db)
    (h : LiveLoud s.db)
    (hback : ∀ now hb, a = .heartbeat now hb → ∀ l ∈ s.db.leases, l.slot = hb.slot →
      hb.leaseId = some l.leaseId → l.state = .lost → l.leaseId ∉ s.db.hist.silent) :
    LiveLoud (Sys.step cfg a s).db := by
  by_cases ha : a.byWorker = true
  · have hstep := Sys.step_stored cfg a s
    generalize (Sys.step cfg a s).db = db at hstep ⊢
    cases hstep with
    | quiet hq => exact h.ages (Ages.mild hq.mild)
    | launch | release | scale | rescale | tick => cases ha
    | claim hc => exact h.claim hgen hc
    | ready hm => exact h.upkeep (.ready hm) (by simp)
    | heartbeat => exact h.upkeep (.heartbeat _ _ (Sys.nodup_slots hs) fun _ => rfl) (hback _ _ rfl)
  · exact h.ages (Ages.step cfg hs (by simpa using ha))

/-- A worker that has started takes over the positive share that is pushed to it. -/
lemma Synced.pushed {payload : Heartbeat} {run : Run} {reply : Reply} (hb : w.beats now = true)
    (hk : Keyed w.rateMode l.share.pub)
    (hland : PushReady run 1 l → w.phase ≠ .waiting ∧ ∀ p ∈ l.share.pub, 0 < p.2)
    (hc : reply.command = (heartbeatCommand now run 1
      (renewLease now (w.heartbeat payload) l)).command)
    (hshare : reply.command = .retarget share) : l.share.pub = (w.handle now reply).share := by
  obtain ⟨_, hstate, hpub, hmk⟩ := renewLease_frame now (w.heartbeat payload) l
  obtain ⟨hready, hshare'⟩ := (heartbeatCommand_retarget _ _ _ _ _).1 (hc.symm.trans hshare)
  have hready' : PushReady run 1 l := by
    rw [PushReady, hstate, hmk] at hready
    exact hready
  obtain ⟨hwait, hpos⟩ := hland hready'
  obtain ⟨hdrain, hprep⟩ := Worker.running_of_beats hb
  obtain ⟨t0, hstarted⟩ : ∃ t0, w.phase = .started t0 := by
    cases hp : w.phase with
    | preparing => exact absurd hp hprep
    | waiting => exact absurd hp hwait
    | started t0 => exact ⟨t0, rfl⟩
  rw [Worker.handle_retarget hdrain hstarted hshare, hshare', hpub]
  obtain ⟨v, hv⟩ := hk
  rw [hv] at hpos ⊢
  exact (Worker.retarget_share (hpos _ mem_cons_self)).symm

theorem Synced.step (cfg : Settings) (hg : PushesLand e f) (hf : f.Sound)
    (hkeyed : SharesKeyed f.sys.db) (hkeyed' : SharesKeyed (Fleet.step cfg e f).sys.db)
    (hmode : (Fleet.step cfg e f).sys.db.run.snapshot.rateMode = f.sys.db.run.snapshot.rateMode)
    (hsilent : ∀ id ∈ f.sys.db.hist.silent, id ∈ (Fleet.step cfg e f).sys.db.hist.silent)
    (h : Synced f) : Synced (Fleet.step cfg e f) := by
  intro w' hw' l' hl' hh'
  have hmoved := Fleet.step_moved cfg hf hw' hl' hh'
  cases hmoved with
  | @aged _ w _ l _ hw hsame hl hh ha =>
    obtain ⟨hwm, hws⟩ := h w hw l hl hh
    have hshare : w'.rateMode = w.rateMode ∧ w'.share = w.share := by
      rcases hsame with rfl | rfl <;> exact ⟨rfl, rfl⟩
    refine ⟨by rw [hshare.1, hwm, hmode], fun hloud hmark => ?_⟩
    rw [hshare.2]
    rcases ha.share with ⟨hpub, hret⟩ | hret | hid
    · rw [hpub]
      refine hws (fun hid => hloud ?_) (hret.symm.trans hmark)
      rw [ha.leaseId]
      exact hsilent _ hid
    · rw [hmark] at hret
      cases hret
    · exact absurd hid hloud
  | @claimed now hint db _ _ hc hfind hslice =>
    have hpub : l'.share.pub = w'.share := sliceRate_ok (Worker.ofSlice_ok hslice).1
    refine ⟨?_, fun _ _ => hpub⟩
    obtain ⟨v, hv⟩ := hkeyed' l' hl'
    rw [hpub] at hv
    have hkey : w'.rateMode.key =
        (Fleet.step cfg (.claim now w'.holder hint) f).sys.db.run.snapshot.rateMode.key := by
      simp only [Worker.share, cons.injEq, Prod.mk.injEq] at hv
      exact hv.1.1
    have := congrArg ShareKey.mode hkey
    rwa [RateMode.key_mode, RateMode.key_mode] at this
  | @readied now w l hw hp hl hh =>
    obtain ⟨hwm, hws⟩ := h w hw l hl hh
    refine ⟨hwm.trans hmode.symm, fun hloud hmark => ?_⟩
    exact hws (fun hid => hloud (hsilent _ hid)) hmark
  | @answered now payload w l reply hw hb hl hh hr hc =>
    obtain ⟨hwm, hws⟩ := h w (Fleet.worker_some hw).1 l hl hh
    obtain ⟨_, _, hpub, hmk⟩ := renewLease_frame now (w.heartbeat payload) l
    have hmode' : (w.handle now reply).rateMode = w.rateMode :=
      congrArg (·.2.2.2.1) (Worker.handle_ident now reply w)
    refine ⟨by rw [hmode', hwm, hmode], fun hloud hmark => ?_⟩
    rw [(heartbeatCommand_frame _ _ _ _).2.1, hpub]
    by_cases hpush : ∃ share, reply.command = .retarget share
    · obtain ⟨share, hshare⟩ := hpush
      have hk : Keyed w.rateMode l.share.pub := by
        rw [hwm]
        exact hkeyed l hl
      exact Synced.pushed hb hk (hg w hw l hl hh).2 hc hshare
    · push Not at hpush
      rw [Worker.handle_share hpush]
      rw [heartbeatCommand_marker (by rw [← hc]; exact hpush), hmk] at hmark
      refine hws (fun hid => hloud ?_) hmark
      have hlid : (heartbeatCommand now f.sys.db.run 1
          (renewLease now (w.heartbeat payload) l)).lease.leaseId = l.leaseId :=
        congrArg (·.2.1) (answered_ident now _ _ _ _)
      rw [hlid]
      exact hsilent _ hid

/-! ### Whole runs -/

/-- The invariants that the argument needs at every state. -/
structure InStep (f : Fleet) : Prop where
  sound : f.Sound
  keyed : SharesKeyed f.sys.db
  generated : SilentGenerated f.sys.db
  loud : LiveLoud f.sys.db
  synced : Synced f

theorem InStep.step (cfg : Settings) (hg : PushesLand e f) (h : InStep f) :
    InStep (Fleet.step cfg e f) := by
  have hsys : SharesKeyed (Fleet.step cfg e f).sys.db ∧
      SilentGenerated (Fleet.step cfg e f).sys.db ∧
      LiveLoud (Fleet.step cfg e f).sys.db ∧
      (Fleet.step cfg e f).sys.db.run.snapshot.rateMode = f.sys.db.run.snapshot.rateMode ∧
      ∀ id ∈ f.sys.db.hist.silent, id ∈ (Fleet.step cfg e f).sys.db.hist.silent := by
    rcases Fleet.step_sys cfg e f with hs | ⟨a, hs, _, hbeat⟩ <;> rw [hs]
    · exact ⟨h.keyed, h.generated, h.loud, rfl, fun _ hid => hid⟩
    · have hr := h.sound.registry
      refine ⟨h.keyed.step cfg a hr, (step_silent cfg a hr).2 h.generated,
        h.loud.step cfg hr h.generated ?_, step_mode cfg a f.sys, (step_silent cfg a hr).1⟩
      intro now hb heq l hmem hslot hid
      obtain ⟨w, payload, hw, rfl, rfl⟩ := hbeat now hb heq
      exact (hg w hw l hmem ⟨hslot, (Option.some.inj hid).symm⟩).1
  obtain ⟨hkeyed, hgen, hloud, hmode, hsilent⟩ := hsys
  exact ⟨h.sound.step cfg e, hkeyed, hgen, hloud,
    h.synced.step cfg hg h.sound h.keyed hkeyed hmode hsilent⟩

lemma InStep.start (h : provisionRun now spec = .ok db) :
    InStep (Fleet.start db) := by
  refine ⟨Fleet.start_sound h, SharesKeyed.start h, ?_, ?_, fun w hw => by cases hw⟩
  · obtain ⟨_, shares, _, rfl⟩ := provisionRun_ok h
    intro id hid
    cases hid
  · obtain ⟨_, shares, _, rfl⟩ := provisionRun_ok h
    intro l _ _ hid
    cases hid

/-- In a run whose pushes land, the worker of a live lease that carries no marker works with the
stored share. -/
theorem no_rate_change_lost {cfg : Settings} {now : Time} {es : List Event}
    (hp : provisionRun now spec = .ok db)
    (h : Runs (Fleet.step cfg) PushesLand (Fleet.start db) es f) (hw : w ∈ f.workers)
    (hl : l ∈ f.sys.db.leases) (hh : Fleet.Holds w l) (hlive : l.state.live = true)
    (hm : l.share.retarget = false) : l.share.pub = w.share := by
  have hstep : InStep f :=
    h.invariant (I := InStep) (fun e f hg hf => hf.step cfg hg) (InStep.start hp)
  exact (hstep.synced w hw l hl hh).2 (hstep.loud l hl hlive) hm

/-- The rate of a running fleet is doubled, and the next heartbeat takes the new share to the
worker. -/
theorem no_rate_change_lost_rescale :
    let f := exec (Fleet.step {}) (Fleet.start (plainDb 1))
      [.server (.launch 1 swarmRun), .claim 2 "w0" none, .ready 4 "w0",
        .server (.release 5 0), .heartbeat 8 "w0" { slot := 0, leaseId := none },
        .server (.rescale 9 24 {}), .heartbeat 10 "w0" { slot := 0, leaseId := none }]
    ∃ w ∈ f.workers, ∃ l ∈ f.sys.db.leases, w.share = [(.eps, 24)] ∧ l.share.pub = w.share := by
  intro f
  have h : Runs (Fleet.step {}) PushesLand (Fleet.start (plainDb 1)) _ f :=
    Runs.of_check (by decide +kernel)
  have hex : ∃ w ∈ f.workers, ∃ l ∈ f.sys.db.leases, Fleet.Holds w l ∧ l.state.live = true ∧
      l.share.retarget = false ∧ w.share = [(.eps, 24)] := by decide +kernel
  obtain ⟨w, hw, l, hl, hh, hlive, hm, hshare⟩ := hex
  exact ⟨w, hw, l, hl, hshare,
    no_rate_change_lost (provisionRun_plain (by decide)) h hw hl hh hlive hm⟩

/-- One of two slots is claimed and its worker waits for the other one. The rate is doubled; the
worker's heartbeat is answered with the new share of twelve, which it ignores, and the marker is
gone: it goes on with six. -/
theorem rate_change_ignored :
    ¬ ∀ (cfg : Settings) (now : Time) (spec : Snapshot) (db : Db) (es : List Event) (f : Fleet)
      (w : Worker) (l : Lease), provisionRun now spec = .ok db →
      Runs (Fleet.step cfg) Always (Fleet.start db) es f → w ∈ f.workers →
      l ∈ f.sys.db.leases → Fleet.Holds w l → l.state.live = true → l.share.retarget = false →
      l.share.pub = w.share := by
  intro h
  have hex : ∃ w ∈ (exec (Fleet.step {}) (Fleet.start (plainDb 2))
      [.server (.launch 1 swarmRun), .claim 2 "w0" none, .ready 4 "w0",
        .server (.release 5 0), .server (.rescale 6 24 {}),
        .heartbeat 7 "w0" { slot := 0, leaseId := none }]).workers,
      ∃ l ∈ (exec (Fleet.step {}) (Fleet.start (plainDb 2))
      [.server (.launch 1 swarmRun), .claim 2 "w0" none, .ready 4 "w0",
        .server (.release 5 0), .server (.rescale 6 24 {}),
        .heartbeat 7 "w0" { slot := 0, leaseId := none }]).sys.db.leases,
      Fleet.Holds w l ∧ l.state.live = true ∧ l.share.retarget = false ∧ l.share.pub ≠ w.share := by
    decide +kernel
  obtain ⟨w, hw, l, hl, hh, hlive, hm, hne⟩ := hex
  exact hne (h {} 0 (plainSpec 2) (plainDb 2) _ _ w l (provisionRun_plain (by decide))
    (Runs.always _ _) hw hl hh hlive hm)

end Stoker
