import Stoker.Lifecycle.Split

/-!
# The size of a fleet

The slots of a run's leases, and the worker count and the rotation in its snapshot, are changed by a
scale only. Claims, takeovers, releases and step-downs move shares around and replace holders, slot
for slot; a run that is stopped, lost or finished keeps its rows.
-/

open List

namespace Stoker

open Transition

/-- The fleet of a run: the slots of its leases, with the worker count and the rotation that its
snapshot records. -/
def Db.fleet (db : Db) : List ℕ × ℕ × Option Rotation :=
  (db.leases.map (·.slot), db.run.snapshot.workers, db.run.snapshot.rotation)

variable {db' db : Db} {now : Time}

lemma fleet_eq (hl : db'.leases.map (·.slot) = db.leases.map (·.slot))
    (hs : db'.run.snapshot = db.run.snapshot) : db'.fleet = db.fleet := by
  rw [Db.fleet, Db.fleet, hl, hs]

lemma Mild.fleet (h : Mild db db') : db'.fleet = db.fleet := by
  obtain ⟨_, hs⟩ := h.snapshot
  rw [Db.fleet, Db.fleet, h.leases.map_eq fun _ _ hl => hl.slot, hs]

variable {slot : ℕ}

/-- A row that is replaced in its slot. -/
lemma updateLease_slots {f : Lease → Lease} (hf : ∀ l, l.slot = slot → (f l).slot = slot) :
    (db.updateLease slot f).leases.map (·.slot) = db.leases.map (·.slot) := by
  rw [Db.updateLease, Db.mapLeases_leases, map_map]
  refine map_congr_left fun l _ => ?_
  rw [Function.comp_apply]
  split_ifs with h
  · rw [hf l h, h]
  · rfl

lemma reshareAll_slots (shares : List PublicShare) (db : Db) :
    (reshareAll shares db).leases.map (·.slot) = db.leases.map (·.slot) := by
  rw [reshareAll, map_map]
  exact map_congr_left fun l _ => congrArg Prod.fst (reshare_ident shares l)

lemma rescaleRun_fleet {rate : Option ℚ}
    (h : rescaleRun now rate db = .ok db') : db'.fleet = db.fleet := by
  rcases rescaleRun_ok h with rfl | ⟨_, _, shares, _, rfl⟩
  · rfl
  · exact congrArg (·, db.run.snapshot.workers, db.run.snapshot.rotation)
      (reshareAll_slots shares db)

lemma partialRelease_fleet (now : Time) (shares : List PublicShare) (db : Db) :
    (partialRelease now shares db).fleet = db.fleet := by
  refine fleet_eq ?_ (by simp)
  rw [partialRelease_leases, assignShares_map _ _ _ fun share l => markRetarget_slot l share]
  exact (Fade.of_map Lease.Fades.declareLost db.leases).map_eq fun _ _ hl => hl.slot

lemma supervisorTick_fleet (cfg : Settings) (boot now : Time) (env : Env) (db : Db) :
    (supervisorTick cfg boot now env db).fleet = db.fleet := by
  refine supervisorTick_deals (I := fun d => d.fleet = db.fleet) ?_ ?_ ?_ rfl
  · exact fun a b hm ha => hm.fleet.trans ha
  · exact fun a shares _ _ ha => (partialRelease_fleet now shares a).trans ha
  · exact fun a b _ _ hr ha => (rescaleRun_fleet hr).trans ha

lemma claimLease_fleet {holder : String} {hint : Option ℕ}
    (h : claimLease now holder hint db = .ok (db', slot)) : db'.fleet = db.fleet := by
  refine fleet_eq ?_ (by rw [claimLease_run h])
  rcases (claimLease_ok h).2 with ⟨held, _, _, _, _, rfl⟩ | ⟨lease, _, _, _, rfl⟩
  · exact updateLease_slots fun l hl => hl
  · have hissued : (issuedDb now holder slot db).leases.map (·.slot) = db.leases.map (·.slot) :=
      updateLease_slots fun l hl => hl
    split_ifs
    · refine (reapportionOnTakeover_map now _ fun share l => ?_).trans hissued
      exact congrArg Prod.fst (takeoverShare_ident slot share l)
    · exact hissued

lemma recordHeartbeat_fleet (now : Time) (hb : Heartbeat) (db : Db) :
    (recordHeartbeat now hb db).1.fleet = db.fleet := by
  rcases recordHeartbeat_cases now hb db with
    ⟨h, _⟩ | ⟨lease, hl, _, d, hd, _, hleases, _, _, hsnap, _⟩
  · rw [h]
  · refine fleet_eq ?_ hsnap
    rw [hleases]
    refine updateLease_slots fun l _ => ?_
    have hident : d.lease.ident = lease.ident := by
      rw [hd, answered_ident]
    exact (congrArg Prod.fst hident).trans (findLease_some hl).2

theorem step_fleet (cfg : Settings) (a : Action) (s : Sys) :
    (Sys.step cfg a s).db.fleet = s.db.fleet ∨ ∃ now workers env, a = .scale now workers env ∧
      scaleRunEndpoint now workers env s.db = .ok (Sys.step cfg a s).db := by
  have hstep := Sys.step_stored cfg a s
  generalize (Sys.step cfg a s).db = d at hstep ⊢
  cases hstep with
  | quiet hq => exact .inl hq.mild.fleet
  | launch => exact .inl (Mild.finishLaunch _ _ _ s.db).fleet
  | claim hc => exact .inl (claimLease_fleet hc)
  | ready hm =>
    obtain ⟨_, _, _, hleases, hrun, _⟩ := markReady_ok hm
    exact .inl (fleet_eq (by rw [hleases]; exact updateLease_slots fun l hl => hl) (by rw [hrun]))
  | release => exact .inl (Mild.finishReady _ _ _ s.db).fleet
  | heartbeat => exact .inl (recordHeartbeat_fleet _ _ s.db)
  | scale h => exact .inr ⟨_, _, _, rfl, h⟩
  | rescale _ hr => exact .inl (rescaleRun_fleet hr)
  | tick => exact .inl (supervisorTick_fleet cfg _ _ _ s.db)

lemma provisionRun_fleet {spec : Snapshot} (h : provisionRun now spec = .ok db) :
    db.fleet = (range db.run.snapshot.workers, db.run.snapshot.workers, spec.rotation) ∧
      0 < db.run.snapshot.workers := by
  obtain ⟨_, shares, hshares, rfl⟩ := provisionRun_ok h
  have hlen := (buildShareList_shape hshares).1
  refine ⟨?_, ?_⟩
  · have hslots := slots_seedLeases shares
    rw [hlen] at hslots
    exact congrArg (·, effectiveWorkers spec.engine spec.workers, spec.rotation) hslots
  · change 0 < effectiveWorkers spec.engine spec.workers
    unfold effectiveWorkers
    split_ifs
    · exact Nat.one_pos
    · omega

lemma scaleRunEndpoint_fleet {workers n : ℕ} {env : Env}
    {rot : Option Rotation} (hfleet : db.fleet = (range n, n, rot))
    (h : scaleRunEndpoint now workers env db = .ok db') :
    db'.fleet = (range workers, workers, rot) := by
  obtain ⟨_, _, shares, _, rfl⟩ := scaleRunEndpoint_ok h
  have hslots : db.leases.map (·.slot) = range n := congrArg Prod.fst hfleet
  have hrot : db.run.snapshot.rotation = rot := congrArg (fun f => f.2.2) hfleet
  have hlen : db.leases.length = n := by
    have hcount := congrArg length hslots
    rwa [length_map, length_range] at hcount
  have hresized : (resizeLeases workers db).leases.map (·.slot) = range workers :=
    Split.resizeLeases_slots (by rw [hslots, hlen])
  change ((reshareAll shares (resizeLeases workers db)).leases.map (·.slot), workers,
    db.run.snapshot.rotation) = _
  rw [reshareAll_slots, hresized, hrot]

end Stoker
