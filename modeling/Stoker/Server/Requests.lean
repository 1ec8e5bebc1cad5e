import Stoker.Server.System
import Stoker.Transition.Fallible

/-!
# What each request can do

One inversion lemma for each request of an operator or a worker: what it has passed when it goes
through, and what it leaves.
-/

open List

namespace Stoker

open Transition

variable {now : Time} {db db' : Db} {ls : List Lease} {env : Env} {rate : Option ℚ} {slot : ℕ}
    {hint : Option ℕ} {leaseId : Option LeaseId}

/-! ### Splitting the rate -/

variable {f : PublicShare → Lease → Lease} {β : Type} {g : Lease → β} {force : Bool}
  {m lease : Lease} {s : Sys}

lemma assignShares_map (slots : List ℕ) (shares : List PublicShare) (ls : List Lease)
    (hg : ∀ share l, g (f share l) = g l) : (assignShares f slots shares ls).map g = ls.map g := by
  unfold assignShares
  rw [map_map]
  refine map_congr_left fun l _ => ?_
  rw [Function.comp_apply]
  cases (slots.zip shares).lookup l.slot with
  | none => rfl
  | some share => exact hg share l

variable {shares : List PublicShare}

/-- A row of an assignment is as it was, or was given one of the shares. -/
lemma mem_assignShares {slots : List ℕ} {l' : Lease} (h : l' ∈ assignShares f slots shares ls) :
    ∃ l ∈ ls, l' = l ∨ ∃ share ∈ shares, l' = f share l := by
  obtain ⟨l, hl, rfl⟩ := mem_map.1 h
  refine ⟨l, hl, ?_⟩
  cases hk : (slots.zip shares).lookup l.slot with
  | none => exact .inl rfl
  | some share =>
    obtain ⟨ps, qs, heq, _⟩ := lookup_eq_some_iff.1 hk
    have hmem : (l.slot, share) ∈ slots.zip shares := by simp [heq]
    exact .inr ⟨share, (of_mem_zip hmem).2, rfl⟩

lemma reshare_ident (shares : List PublicShare) (l : Lease) :
    (reshare shares l).ident = l.ident := by
  unfold reshare
  cases shares[l.slot]? with
  | none => rfl
  | some share =>
    split_ifs <;> rfl

lemma reshare_state (shares : List PublicShare) (l : Lease) :
    (reshare shares l).state = l.state := by
  unfold reshare
  cases shares[l.slot]? with
  | none => rfl
  | some share =>
    split_ifs <;> rfl

/-- A live row keeps its share or is told a new one. -/
lemma reshare_live (shares : List PublicShare) {l : Lease} (h : l.state.live = true) :
    reshare shares l = l ∨ ∃ share, reshare shares l = markRetarget share l := by
  unfold reshare
  cases shares[l.slot]? with
  | none => exact .inl rfl
  | some share =>
    dsimp only
    rw [if_pos h]
    exact .inr ⟨share, rfl⟩

/-! ### Operator requests -/

lemma requireActive_ok (h : requireActive db = .ok ()) : db.run.state.terminal = false := by
  unfold requireActive at h
  split_ifs at h with ht
  exact by simpa using ht

lemma stopRunEndpoint_ok (h : stopRunEndpoint now force env db = .ok db') :
    stopRun now force env db = .ok db' := by
  obtain ⟨_, _, h⟩ := bind_ok h
  obtain ⟨_, _, h⟩ := bind_ok h
  exact h

lemma pauseRunEndpoint_ok
    (h : pauseRunEndpoint now env db = .ok db') : pauseRun now env db = .ok db' := by
  obtain ⟨_, _, h⟩ := bind_ok h
  obtain ⟨_, h⟩ := unless_ok h
  obtain ⟨_, h⟩ := unless_ok h
  exact h

lemma resumeRunEndpoint_ok
    (h : resumeRunEndpoint now env db = .ok db') : resumeRun now env db = .ok db' := by
  obtain ⟨_, _, h⟩ := bind_ok h
  obtain ⟨_, h⟩ := unless_ok h
  exact h

variable {workers : ℕ}

lemma scaleRunEndpoint_gates (h : scaleRunEndpoint now workers env db = .ok db') :
    1 ≤ workers ∧ db.run.state.terminal = false ∧
      effectiveWorkers db.run.snapshot.engine workers = workers ∧
      ¬ ((rotationPinsFleet db.run.snapshot).isSome = true ∧ workers ≠
        (if db.run.snapshot.workers ≠ 0 then db.run.snapshot.workers else workers)) ∧
      scaleRun now workers env db = .ok db' := by
  obtain ⟨hw, h⟩ := unless_ok h
  obtain ⟨_, ha, h⟩ := bind_ok h
  obtain ⟨_, _, h⟩ := bind_ok h
  obtain ⟨he, h⟩ := unless_ok h
  obtain ⟨hpin, h⟩ := unless_ok h
  obtain ⟨_, h⟩ := unless_ok h
  obtain ⟨_, _, h⟩ := bind_ok h
  exact ⟨by omega, requireActive_ok ha, not_not.1 he, hpin, h⟩

lemma scaleRunEndpoint_ok (h : scaleRunEndpoint now workers env db = .ok db') :
    1 ≤ workers ∧ db.run.state.terminal = false ∧ ∃ shares,
      buildShareList db.run.snapshot.rateMode db.run.snapshot.rateValue workers = .ok shares ∧
      db' = ({ reshareAll shares (resizeLeases workers db) with
          run :=
            { db.run with snapshot := { db.run.snapshot with workers := workers } } }).appendEvent
        now (.scaled workers db.run.snapshot.rateMode) := by
  obtain ⟨hw, ht, he, _, h⟩ := scaleRunEndpoint_gates h
  refine ⟨hw, ht, ?_⟩
  unfold scaleRun at h
  dsimp only at h
  rw [he, if_neg (by omega), if_neg (by simp [ht])] at h
  split_ifs at h
  cases hs : buildShareList db.run.snapshot.rateMode db.run.snapshot.rateValue workers with
  | error e =>
    rw [hs] at h
    cases h
  | ok shares =>
    rw [hs] at h
    cases h
    exact ⟨shares, rfl, rfl⟩

/-- The driver is called before any row is touched. -/
lemma scaleRunEndpoint_driver
    (h : scaleRunEndpoint now workers env db = .ok db') (hd : db.run.driverRef.isSome = true) :
    env.scaleOk = true := by
  obtain ⟨hw, ht, _, _, h⟩ := scaleRunEndpoint_gates h
  unfold scaleRun at h
  rw [if_neg (by omega), if_neg (by simp [ht])] at h
  split_ifs at h with _ hfail
  rw [not_and, Bool.not_eq_false] at hfail
  exact hfail hd

lemma rescaleRun_sets (ht : db.run.state.terminal = false) (hl : ¬ db.leases.length < 1)
    (h : rescaleRun now rate db = .ok db') : ∃ shares,
      buildShareList db.run.snapshot.rateMode rate db.leases.length = .ok shares ∧
      db' = ({ reshareAll shares db with
          run :=
            { db.run with snapshot := { db.run.snapshot with rateValue := rate } } }).appendEvent
        now (.rescaled db.run.snapshot.rateMode rate) := by
  unfold rescaleRun at h
  dsimp only at h
  rw [if_neg (by simp [ht]), if_neg hl] at h
  cases hs : buildShareList db.run.snapshot.rateMode rate db.leases.length with
  | error e =>
    rw [hs] at h
    cases h
  | ok shares =>
    rw [hs] at h
    cases h
    exact ⟨shares, rfl, rfl⟩

lemma rescaleRun_ok
    (h : rescaleRun now rate db = .ok db') :
    db' = db ∨ (db.run.state.terminal = false ∧ 1 ≤ db.leases.length ∧ ∃ shares,
      buildShareList db.run.snapshot.rateMode rate db.leases.length = .ok shares ∧
      db' = ({ reshareAll shares db with
          run :=
            { db.run with snapshot := { db.run.snapshot with rateValue := rate } } }).appendEvent
        now (.rescaled db.run.snapshot.rateMode rate)) := by
  by_cases ht : db.run.state.terminal = true
  · simp only [rescaleRun, if_pos ht, Except.ok.injEq] at h
    exact .inl h.symm
  by_cases hl : db.leases.length < 1
  · simp only [rescaleRun, if_neg ht, if_pos hl, Except.ok.injEq] at h
    exact .inl h.symm
  rw [Bool.not_eq_true] at ht
  exact .inr ⟨ht, by omega, rescaleRun_sets ht hl h⟩

lemma rescaleRunEndpoint_ok {rate : ℚ}
    (h : rescaleRunEndpoint now rate env db = .ok db') :
    0 < rate ∧ rescaleRun now (some rate) db = .ok db' := by
  obtain ⟨_, _, h⟩ := bind_ok h
  obtain ⟨_, _, h⟩ := bind_ok h
  obtain ⟨hr, h⟩ := unless_ok h
  obtain ⟨_, h⟩ := unless_ok h
  obtain ⟨_, _, h⟩ := bind_ok h
  refine ⟨not_le.1 hr, ?_⟩
  cases hs : rescaleRun now (some rate) db with
  | error e =>
    rw [hs] at h
    cases h
  | ok db'' =>
    rw [hs] at h
    cases h
    rfl

/-- A step-down does nothing, or fails after noting the original rate, or is a rescale of a run that
is then marked degraded. -/
lemma stepDown_cases (now : Time) (cfg : Settings) (db : Db) :
    (stepDownForBackpressure now cfg db).db = db ∨
    ∃ current, db.run.snapshot.rateMode ≠ .countInterval ∧
      db.run.snapshot.rateValue = some current ∧
      (0 < current ∧ originalRate db.run.snapshot current * cfg.backpressureMinRateFraction ≤
        current * cfg.backpressureStepFactor) ∧
      ((stepDownForBackpressure now cfg db).db = noteOriginalRate current db ∨
       ∃ db', rescaleRun now (some (current * cfg.backpressureStepFactor))
          (noteOriginalRate current db) = .ok db' ∧
        (stepDownForBackpressure now cfg db).db =
          ({ db' with run := { db'.run with degraded := true } }).appendEvent now
            (.backpressureStepDown current (current * cfg.backpressureStepFactor))) := by
  unfold stepDownForBackpressure
  dsimp only
  split
  · exact .inl rfl
  · exact .inl rfl
  · rename_i current hrate hmode
    split_ifs with hc
    · exact .inl rfl
    · rw [not_or, not_le, not_lt] at hc
      refine .inr ⟨current, hmode, hrate, hc, ?_⟩
      split
      · exact .inl rfl
      · rename_i db' hs
        exact .inr ⟨db', hs, rfl⟩

lemma rescaleRun_frame (h : rescaleRun now rate db = .ok db') :
    db'.run.state = db.run.state ∧ db'.run.t0 = db.run.t0 := by
  rcases rescaleRun_ok h with rfl | ⟨_, _, shares, _, rfl⟩ <;> exact ⟨rfl, rfl⟩

lemma stepDown_frame (now : Time) (cfg : Settings) (db : Db) :
    (stepDownForBackpressure now cfg db).db.run.state = db.run.state ∧
      (stepDownForBackpressure now cfg db).db.run.t0 = db.run.t0 := by
  rcases stepDown_cases now cfg db with h | ⟨current, _, _, _, h | ⟨db', hr, h⟩⟩ <;> rw [h]
  · exact ⟨rfl, rfl⟩
  · exact ⟨rfl, rfl⟩
  · have hframe := rescaleRun_frame hr
    exact hframe

/-! ### Claims -/

lemma findLease_some {l : Lease} (h : db.findLease slot = some l) :
    l ∈ db.leases ∧ l.slot = slot := by
  exact ⟨mem_of_find?_eq_some h, by simpa using find?_some h⟩

section

variable {db : Db} {slot : ℕ} {l : Lease} {k : Lease}

/-- When no two rows have one slot, the row found is the only one of its slot. -/
lemma findLease_unique (hn : (db.leases.map (·.slot)).Nodup) (h : db.findLease slot = some l)
    (hk : k ∈ db.leases) (hs : k.slot = slot) : k = l := by
  obtain ⟨hl, hls⟩ := findLease_some h
  exact inj_on_of_nodup_map hn hk hl (hs.trans hls.symm)

lemma mem_updateLease {f : Lease → Lease} :
    k ∈ (db.updateLease slot f).leases ↔ ∃ j ∈ db.leases, k = if j.slot = slot then f j else j := by
  simp only [Db.updateLease, Db.mapLeases_leases, mem_map, eq_comm]

lemma findLease_updated {db' : Db} {g : Lease → Lease} (h : db.findLease slot = some l)
    (hl : db'.leases = (db.updateLease slot g).leases)
    (hg : ∀ k : Lease, k.slot = slot → (g k).slot = slot) : db'.findLease slot = some (g l) := by
  unfold Db.findLease at h ⊢
  rw [hl, Db.updateLease, Db.mapLeases_leases, find?_map]
  have hp :
      ((fun l : Lease => decide (l.slot = slot)) ∘ fun l => if l.slot = slot then g l else l) =
      fun l : Lease => decide (l.slot = slot) := by
    funext k
    by_cases hk : k.slot = slot
    · simp [hk, hg k hk]
    · simp [hk]
  rw [hp, h]
  have hls : l.slot = slot := by simpa using find?_some h
  simp [hls]

end

lemma minBySlot_mem (h : minBySlot ls = some m) : m ∈ ls := by
  induction ls generalizing m with
  | nil => cases h
  | cons l ls ih =>
    unfold minBySlot at h
    cases hm : minBySlot ls with
    | none =>
      rw [hm] at h
      cases h
      exact mem_cons_self
    | some k =>
      rw [hm] at h
      dsimp only at h
      split_ifs at h <;> cases h
      · exact mem_cons_of_mem _ (ih hm)
      · exact mem_cons_self

lemma nextClaimable_some (h : nextClaimable ls hint = some m) :
    m ∈ ls ∧ m.state.claimable = true := by
  suffices m ∈ ls.filter (·.state.claimable) by simpa using this
  unfold nextClaimable at h
  dsimp only at h
  split at h
  · cases h
    exact mem_of_find?_eq_some ‹_›
  · exact minBySlot_mem h

/-- The rows right after a claim has taken a lease, before any share is rewritten. -/
def issuedDb (now : Time) (holder : String) (slot : ℕ) (db : Db) : Db :=
  { db.updateLease slot (issueLease now holder db.nextId db.run.t0) with nextId := db.nextId + 1 }

variable {holder : String}

/-- A claim hands the holder the live lease it has, or takes a free or lost one. -/
lemma claimLease_ok (h : claimLease now holder hint db = .ok (db', slot)) :
    db.run.state.terminal = false ∧
    ((∃ held ∈ db.leases, held.holder = some holder ∧ held.state.live = true ∧ held.slot = slot ∧
        db' = (db.updateLease slot fun l => { l with lastHeartbeatAt := some now }).appendEvent now
          (.reclaim slot holder)) ∨
     ∃ lease, nextClaimable db.leases hint = some lease ∧ lease.slot = slot ∧
        (∀ l ∈ db.leases, l.holder = some holder → l.state.live = false) ∧
        db' = (if lease.state = .lost ∧ db.run.t0.isSome = true
            then reapportionOnTakeover now slot (issuedDb now holder slot db)
            else issuedDb now holder slot db).appendEvent now
          (.claim slot holder db.run.t0.isSome (decide (lease.state = .lost)))) := by
  unfold claimLease at h
  by_cases ht : db.run.state.terminal = true
  · rw [if_pos ht] at h
    cases h
  rw [if_neg ht] at h
  refine ⟨by simpa using ht, ?_⟩
  cases hh : heldLease db.leases holder with
  | some held =>
    rw [hh] at h
    cases h
    have hp := find?_some hh
    simp only [decide_eq_true_eq] at hp
    exact .inl ⟨held, mem_of_find?_eq_some hh, hp.1, hp.2, rfl, rfl⟩
  | none =>
    rw [hh] at h
    cases hn : nextClaimable db.leases hint with
    | none =>
      rw [hn] at h
      cases h
    | some lease =>
      rw [hn] at h
      cases h
      refine .inr ⟨lease, rfl, rfl, ?_, ?_⟩
      · intro l hl hhold
        have hnot := find?_eq_none.1 hh l hl
        simpa [hhold] using hnot
      · by_cases hl : lease.state = .lost ∧ db.run.t0.isSome = true
        · rw [if_pos hl, if_pos (by simpa using hl)]
          rfl
        · rw [if_neg hl, if_neg (by simpa using hl)]
          rfl

lemma takeoverShare_ident (slot : ℕ) (share : PublicShare) (l : Lease) :
    (takeoverShare slot share l).ident = l.ident := by
  unfold takeoverShare
  split_ifs <;> rfl

lemma takeoverShare_state (slot : ℕ) (share : PublicShare) (l : Lease) :
    (takeoverShare slot share l).state = l.state := by
  unfold takeoverShare
  split_ifs <;> rfl

/-- A takeover does nothing, or deals the rate over the live slots and may say so on the audit
trail. -/
lemma reapportionOnTakeover_eq (now : Time) (slot : ℕ) (db : Db) :
    reapportionOnTakeover now slot db = db ∨
    (db.run.degraded = true ∧ ∃ shares es,
      buildShareList db.run.snapshot.rateMode db.run.snapshot.rateValue
        (db.leases.filter (·.state.live)).length = .ok shares ∧
      (∀ e ∈ es, ∃ slots changed, e = ⟨now, .reapportioned slot slots changed⟩) ∧
      reapportionOnTakeover now slot db = { db with
        leases := assignShares (takeoverShare slot)
          ((db.leases.filter (·.state.live)).map (·.slot)) shares
          db.leases
        hist := { db.hist with split := (db.leases.filter (·.state.live)).map (·.slot) }
        events := db.events ++ es }) := by
  unfold reapportionOnTakeover
  dsimp only
  by_cases ht : db.run.state.terminal = true ∨ db.run.state = .draining
  · rw [if_pos ht]
    exact .inl rfl
  rw [if_neg ht]
  by_cases hd : db.run.degraded = false
  · rw [if_pos hd]
    exact .inl rfl
  split_ifs with hp
  · exact .inl rfl
  · split
    · exact .inl rfl
    · rename_i shares hs
      refine .inr ⟨by simpa using hd, shares, ?_⟩
      split_ifs
      · exact ⟨[], hs, by simp, by simp⟩
      · exact ⟨_, hs, fun e he => ⟨_, _, mem_singleton.1 he⟩, rfl⟩

/-- A takeover deals shares and nothing else. -/
lemma reapportionOnTakeover_frame (now : Time) (slot : ℕ) (db : Db) :
    (reapportionOnTakeover now slot db).run = db.run ∧
    (reapportionOnTakeover now slot db).nextId = db.nextId ∧
    (reapportionOnTakeover now slot db).samples = db.samples ∧
    (reapportionOnTakeover now slot db).hist.silent = db.hist.silent := by
  rcases reapportionOnTakeover_eq now slot db with h | ⟨_, _, _, _, _, h⟩ <;> rw [h] <;> simp

lemma reapportionOnTakeover_map (now : Time) (db : Db)
    (hg : ∀ share l, g (takeoverShare slot share l) = g l) :
    (reapportionOnTakeover now slot db).leases.map g = db.leases.map g := by
  rcases reapportionOnTakeover_eq now slot db with h | ⟨_, _, _, _, _, h⟩ <;> rw [h]
  exact assignShares_map _ _ _ hg

/-- On a degraded run that is under way, a rate that can be split is split over the live slots. -/
lemma reapportionOnTakeover_split
    (hd : db.run.degraded = true) (ht : db.run.state.terminal = false)
    (hdr : db.run.state ≠ .draining) (hl : ∃ l ∈ db.leases, l.state.live = true)
    (hb : buildShareList db.run.snapshot.rateMode db.run.snapshot.rateValue
      (db.leases.filter (·.state.live)).length = .ok shares) :
    (reapportionOnTakeover now slot db).leases = assignShares (takeoverShare slot)
        ((db.leases.filter (·.state.live)).map (·.slot)) shares db.leases ∧
      (reapportionOnTakeover now slot db).hist.split = (db.leases.filter (·.state.live)).map
        (·.slot) := by
  unfold reapportionOnTakeover
  rw [if_neg (by simp [ht, hdr]), if_neg (by simp [hd]), if_neg (by simpa using hl), hb]
  dsimp only
  split_ifs <;> exact ⟨rfl, rfl⟩

lemma claimLease_run (h : claimLease now holder hint db = .ok (db', slot)) : db'.run = db.run := by
  rcases (claimLease_ok h).2 with ⟨held, _, _, _, _, rfl⟩ | ⟨lease, _, _, _, rfl⟩
  · rfl
  · split_ifs <;> simp [issuedDb, reapportionOnTakeover_frame]

/-! ### Ready and heartbeat -/

lemma isLeaseHolder_some {l : Lease} :
    isLeaseHolder (some l) leaseId = true ↔ leaseId = some l.leaseId := by
  unfold isLeaseHolder
  rw [decide_eq_true_eq, eq_comm]

/-- A ready post is refused, or marks the row of the slot it holds. -/
lemma markReady_ok
    (h : markReady now slot leaseId db = .ok db') :
    ∃ lease, db.findLease slot = some lease ∧ leaseId = some lease.leaseId ∧
      db'.leases = (db.updateLease slot (readyLease now)).leases ∧
      db'.run = db.run ∧ db'.nextId = db.nextId ∧ db'.hist = db.hist := by
  unfold markReady at h
  cases hl : db.findLease slot with
  | none =>
    rw [hl] at h
    cases h
  | some lease =>
    rw [hl] at h
    dsimp only at h
    split_ifs at h with hh hs <;> cases h
    all_goals
      exact ⟨lease, rfl, isLeaseHolder_some.1 (by simpa using hh), rfl, rfl, rfl, rfl⟩

lemma Sys.claim_ok (hc : claimLease now holder hint s.db = .ok (db, slot))
    (hl : db.findLease slot = some lease) :
    s.claim now holder hint =
      { s with db := db, sent := s.sent ++ [.slice holder (buildSlice db.run lease)] } := by
  simp only [Sys.claim, hc, hl]

lemma Sys.ready_db (h : markReady now slot leaseId s.db = .ok db) :
    (s.ready now slot leaseId).db = db := by
  obtain ⟨lease, hl, _, hls, _⟩ := markReady_ok h
  unfold Sys.ready
  rw [h]
  dsimp only
  rw [findLease_updated hl hls fun _ hk => hk]

/-- The run's state after a heartbeat: unchanged, or `running` once a lease has crossed T0. -/
def CrossedOr (a b : RunState) : Prop := b = a ∨ (a = .releasing ∧ b = .running)

/-- A heartbeat is superseded and changes nothing, or it is the slot holder's and rewrites that one
lease as `heartbeatCommand` decides. -/
lemma recordHeartbeat_cases (now : Time) (hb : Heartbeat) (db : Db) :
    (recordHeartbeat now hb db = (db, { command := .superseded }) ∧
      ∀ l, db.findLease hb.slot = some l → hb.leaseId ≠ some l.leaseId) ∨
    ∃ lease, db.findLease hb.slot = some lease ∧ hb.leaseId = some lease.leaseId ∧
      ∃ d, d = heartbeatCommand now db.run hb.protocolVersion (renewLease now hb lease) ∧
        (recordHeartbeat now hb db).2.command = d.command ∧
        (recordHeartbeat now hb db).1.leases = (db.updateLease hb.slot fun _ => d.lease).leases ∧
        CrossedOr db.run.state (recordHeartbeat now hb db).1.run.state ∧
        (recordHeartbeat now hb db).1.run.t0 = db.run.t0 ∧
        (recordHeartbeat now hb db).1.run.snapshot = db.run.snapshot ∧
        (recordHeartbeat now hb db).1.run.degraded = db.run.degraded ∧
        (recordHeartbeat now hb db).1.nextId = db.nextId ∧
        (recordHeartbeat now hb db).1.hist = db.hist := by
  unfold recordHeartbeat
  cases hl : db.findLease hb.slot with
  | none => exact .inl ⟨rfl, by simp⟩
  | some lease =>
    dsimp only
    by_cases hh : isLeaseHolder (some lease) hb.leaseId = false
    · rw [if_pos hh]
      refine .inl ⟨rfl, ?_⟩
      intro l hl'
      cases hl'
      rw [ne_eq, ← isLeaseHolder_some, hh]
      decide
    · rw [if_neg hh]
      refine .inr ⟨lease, rfl, isLeaseHolder_some.1 (by simpa using hh), _, rfl, rfl, ?_⟩
      unfold storeHeartbeat crossT0 maybeMarkRunning CrossedOr
      split_ifs with h₁ h₂ h₃
      all_goals simp_all

lemma recordHeartbeat_run (now : Time) (hb : Heartbeat) (db : Db) :
    CrossedOr db.run.state (recordHeartbeat now hb db).1.run.state ∧
      (recordHeartbeat now hb db).1.run.t0 = db.run.t0 ∧
      (recordHeartbeat now hb db).1.run.snapshot = db.run.snapshot := by
  rcases recordHeartbeat_cases now hb db with ⟨h, _⟩ | ⟨_, _, _, _, _, _, _, hcross, ht, hsnap, _⟩
  · rw [h]
    exact ⟨.inl rfl, rfl, rfl⟩
  · exact ⟨hcross, ht, hsnap⟩

/-! ### Writing back loaded objects -/

lemma recordHeartbeat_command (now : Time) {hb : Heartbeat}
    (hl : db.findLease hb.slot = some lease) (hid : hb.leaseId = some lease.leaseId) :
    (recordHeartbeat now hb db).2.command =
      (heartbeatCommand now db.run hb.protocolVersion (renewLease now hb lease)).command := by
  rcases recordHeartbeat_cases now hb db with ⟨_, hno⟩ | ⟨l, hl', _, d, hd, hc, _⟩
  · exact absurd hid (hno lease hl)
  · cases hl.symm.trans hl'
    rw [← hd]
    exact hc

@[simp] lemma flushColumn_same {α : Type} [DecidableEq α] (stored loaded : α) :
    flushColumn stored loaded loaded = stored := by simp [flushColumn]

/-- A row that was not changed is not written. -/
@[simp] lemma Run.flush_same (stored loaded : Run) : Run.flush stored loaded loaded = stored := by
  cases stored
  simp [Run.flush]

lemma finishReady_cases (now : Time) (loaded : Run) (own : Lease) (db : Db) :
    finishReady now loaded own db = db ∨
    (loaded.t0 = none ∧ loaded.state.releasable = true ∧
      (∀ l ∈ db.leases, l.id ≠ own.id → l.state.pending = false) ∧
      (finishReady now loaded own db).run.t0 = some (now + releaseDelayS) ∧
      (finishReady now loaded own db).run.state =
        (if loaded.state = .releasing then db.run.state else .releasing) ∧
      (finishReady now loaded own db).run.snapshot = db.run.snapshot ∧
      (finishReady now loaded own db).run.degraded = db.run.degraded ∧
      (finishReady now loaded own db).leases = db.leases ∧
      (finishReady now loaded own db).nextId = db.nextId ∧
      (finishReady now loaded own db).hist = db.hist) := by
  unfold finishReady
  dsimp only
  rcases evaluateRelease_cases now false { db with
    run := loaded, leases := db.leases.map fun l => if l.id = own.id then own else l } with
    h | ⟨ht, hr, _, ⟨hp, h⟩ | ⟨hf, _⟩⟩
  · rw [h]
    refine .inl ?_
    simp
  · rw [h]
    refine .inr ⟨ht, hr, ?_, ?_, ?_, ?_, ?_, rfl, by simp, by simp⟩
    · intro l hl hne
      refine hp l (mem_map.2 ⟨l, hl, ?_⟩)
      rw [if_neg hne]
    · have ht' : loaded.t0 = none := ht
      simp [Run.flush, flushColumn, ht']
    · simp [Run.flush, flushColumn, eq_comm]
    · simp [Run.flush]
    · simp [Run.flush]
  · cases hf

/-- The end of a launch touches no lease, and of the columns the statements speak of only the
state. -/
lemma finishLaunch_frame (now : Time) (result : LaunchResult) (loaded : Run) (db : Db) :
    (finishLaunch now result loaded db).leases = db.leases ∧
    (finishLaunch now result loaded db).run.t0 = db.run.t0 ∧
    (finishLaunch now result loaded db).run.snapshot = db.run.snapshot ∧
    (finishLaunch now result loaded db).run.degraded = db.run.degraded ∧
    (finishLaunch now result loaded db).nextId = db.nextId ∧
    (finishLaunch now result loaded db).hist = db.hist := by
  cases result <;> refine ⟨?_, ?_, ?_, ?_, ?_, ?_⟩ <;> simp [finishLaunch, Run.flush]

lemma finishLaunch_state (now : Time) (result : LaunchResult) (loaded : Run) (db : Db) :
    (finishLaunch now result loaded db).run.state = match result with
      | .launched _ => flushColumn db.run.state loaded.state .provisioning
      | .driverError => flushColumn db.run.state loaded.state .failed
      | .crashed => db.run.state := by
  cases result <;> simp [finishLaunch, Run.flush]

/-! ### Final, stop, pause and resume -/

/-- The rows with the log tail of a final stored. -/
def logFinal (f : Final) (db : Db) : Db :=
  db.updateLease f.slot fun l => { l with finalLogTail := some f.logTail }

/-- The rows of a final that closes its lease, with the totals it was folded into. -/
def closeFinal (now : Time) (f : Final) (totals : Totals) (db : Db) : Db :=
  (({ logFinal f db with run := { db.run with totals := totals } }).updateLease f.slot
    fun l => { l with state := .done }).appendEvent now (.final f.slot)

/-- A final is ignored when its lease id is not the slot's; otherwise its log is stored, and it is
folded into the totals unless the lease is already done. -/
lemma recordFinal_ok {f : Final} (h : recordFinal now f db = .ok db') :
    ∃ lease, db.findLease f.slot = some lease ∧
      ((∃ id, f.leaseId = some id ∧ id ≠ lease.leaseId ∧ db' = db) ∨
       ((∀ id, f.leaseId = some id → id = lease.leaseId) ∧
         (lease.state = .done ∧ db' = maybeCompleteRun now (logFinal f db) ∨
          lease.state ≠ .done ∧ ∃ totals, foldTotals db.run.totals f.summary = .ok totals ∧
            db' = maybeCompleteRun now (closeFinal now f totals db)))) := by
  unfold recordFinal at h
  cases hl : db.findLease f.slot with
  | none =>
    rw [hl] at h
    cases h
  | some lease =>
    rw [hl] at h
    dsimp only at h
    refine ⟨lease, rfl, ?_⟩
    by_cases hid : f.leaseId.isSome = true ∧ isLeaseHolder (some lease) f.leaseId = false
    · rw [if_pos hid] at h
      cases h
      obtain ⟨id, hf⟩ := Option.isSome_iff_exists.1 hid.1
      refine .inl ⟨id, hf, ?_, rfl⟩
      rintro rfl
      have hholder := isLeaseHolder_some.2 hf
      rw [hid.2] at hholder
      cases hholder
    rw [if_neg hid] at h
    refine .inr ⟨?_, ?_⟩
    · intro id hf
      have hholder : isLeaseHolder (some lease) f.leaseId = true := by simpa [hf] using hid
      rw [isLeaseHolder_some, hf] at hholder
      exact Option.some.inj hholder
    by_cases hd : lease.state = .done
    · rw [if_pos hd] at h
      cases h
      exact .inl ⟨hd, rfl⟩
    · rw [if_neg hd] at h
      cases hfold : foldTotals db.run.totals f.summary with
      | error e =>
        rw [hfold] at h
        cases h
      | ok totals =>
        rw [hfold] at h
        cases h
        exact .inr ⟨hd, totals, rfl, rfl⟩

/-- The rows once a stop has begun: the pause is over, the run drains, the driver was told. -/
def beginStop (now : Time) (env : Env) (db : Db) : Db :=
  driverCall now .stop env.stopOk
    (transitionRun now .draining (some .operatorStop) { db with run := endPause now db.run })

/-- The rows of a forced stop whose counters are folded: no lease is live any more. -/
def forceStop (now : Time) (env : Env) (totals : Totals) (db : Db) : Db :=
  let destroyed := driverCall now .destroy env.destroyOk (beginStop now env db)
  { destroyed with run := { destroyed.run with totals := totals } }.mapLeases forceFinal

@[simp] lemma driverCall_run (now : Time) (op : DriverOp) (ok : Bool) (db : Db) :
    (driverCall now op ok db).run = db.run := by
  unfold driverCall
  split_ifs <;> rfl

@[simp] lemma driverCall_leases (now : Time) (op : DriverOp) (ok : Bool) (db : Db) :
    (driverCall now op ok db).leases = db.leases := by
  unfold driverCall
  split_ifs <;> rfl

@[simp] lemma driverCall_samples (now : Time) (op : DriverOp) (ok : Bool) (db : Db) :
    (driverCall now op ok db).samples = db.samples := by
  unfold driverCall
  split_ifs <;> rfl

@[simp] lemma extendDriverDeadline_run (now : Time) (env : Env) (db : Db) :
    (extendDriverDeadline now env db).run = db.run := by
  unfold extendDriverDeadline
  split
  · exact driverCall_run _ _ _ _
  · rfl

/-- A stop leaves an ended run alone; a graceful one begins the drain; a forced one also folds the
counters of the fleet, closes its leases and completes the run. -/
lemma stopRun_ok (h : stopRun now force env db = .ok db') :
    (db.run.state.terminal = true ∧ db' = db) ∨
    (db.run.state.terminal = false ∧
      (force = false ∧ db' = beginStop now env db ∨
       force = true ∧ ∃ totals,
        foldHeartbeatTotals (driverCall now .destroy env.destroyOk (beginStop now env db)) =
          .ok totals ∧
        db' = maybeCompleteRun now (forceStop now env totals db))) := by
  unfold stopRun at h
  by_cases ht : db.run.state.terminal = true
  · rw [if_pos ht] at h
    cases h
    exact .inl ⟨ht, rfl⟩
  rw [if_neg ht] at h
  refine .inr ⟨by simpa using ht, ?_⟩
  by_cases hf : force = false
  · rw [if_pos hf] at h
    cases h
    exact .inl ⟨hf, rfl⟩
  rw [if_neg hf] at h
  refine .inr ⟨by simpa using hf, ?_⟩
  dsimp only at h
  split at h
  · cases h
  · cases h
    rename_i totals hfold
    exact ⟨totals, hfold, rfl⟩

lemma pauseRun_ok (h : pauseRun now env db = .ok db') :
    db.run.state = .running ∧ db' = extendDriverDeadline now env
      (transitionRun now .paused none { db with run := { db.run with pausedAt := some now } }) := by
  unfold pauseRun at h
  split_ifs at h with hs
  cases h
  exact ⟨not_not.1 hs, rfl⟩

lemma resumeRun_ok (h : resumeRun now env db = .ok db') :
    db.run.state = .paused ∧ db' = extendDriverDeadline now env
      (transitionRun now .running none { db with run := endPause now db.run }) := by
  unfold resumeRun at h
  split_ifs at h with hs
  cases h
  exact ⟨not_not.1 hs, rfl⟩

end Stoker
