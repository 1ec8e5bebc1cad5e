import Stoker.Server.Steps
import Stoker.Transition.Registry

/-!
# Fencing

What identifies the leases forms a registry of fencing ids: which id each slot has at the moment,
under which holder, and which ids were handed to whom. Every step of the system is a move of that
registry, so every slot keeps exactly one current id and no id is issued to two holders. A message
whose id is not the current one of its slot changes nothing.
-/

open List

namespace Stoker

open Transition

/-- The ids handed out so far, with the holders they were handed to. -/
def Sys.issued (s : Sys) : List (String × LeaseId) :=
  s.sent.filterMap fun
    | .slice holder slice => some (holder, slice.leaseId)
    | .reply _ _ _ => none

/-- What identifies the leases. -/
def Sys.registry (s : Sys) : Registry String where
  rows := s.db.leases.map Lease.ident
  nextId := s.db.nextId
  issued := s.issued

variable {s : Sys}

/-- The rows are those of the slots from zero on, in order. -/
lemma Sys.slots_eq (hs : s.registry.Sound) :
    s.db.leases.map (·.slot) = range s.db.leases.length := by
  have hslots := hs.slots
  rwa [Sys.registry, map_map, length_map] at hslots

lemma Sys.nodup_slots (hs : s.registry.Sound) : (s.db.leases.map (·.slot)).Nodup := by
  rw [Sys.slots_eq hs]
  exact nodup_range

/-! ### Steps that keep the ids -/

/-- Every row keeps its slot, id and holder, and no id is generated. -/
def IdentKept (db db' : Db) : Prop :=
  db'.leases.map Lease.ident = db.leases.map Lease.ident ∧ db'.nextId = db.nextId

variable {db : Db} {now : Time} {slot : ℕ}

namespace IdentKept

lemma trans {a b c : Db} (h : IdentKept a b) (h' : IdentKept b c) : IdentKept a c :=
  ⟨h'.1.trans h.1, h'.2.trans h.2⟩

variable {db' : Db}

lemma of_mild (h : Mild db db') : IdentKept db db' :=
  ⟨h.leases.map_eq fun _ _ hf => hf.ident, h.nextId⟩

lemma partialRelease (now : Time) (shares : List PublicShare) (db : Db) :
    IdentKept db (partialRelease now shares db) := by
  refine ⟨?_, by simp⟩
  rw [partialRelease_leases, assignShares_map _ _ _ (fun share l => markRetarget_ident l share)]
  exact (Fade.of_map Lease.Fades.declareLost db.leases).map_eq fun _ _ hf => hf.ident

lemma reshareAll (shares : List PublicShare) (db : Db) : IdentKept db (reshareAll shares db) := by
  refine ⟨?_, rfl⟩
  simp only [Stoker.reshareAll, map_map]
  exact map_congr_left fun l _ => reshare_ident shares l

lemma rescale {rate : Option ℚ} (h : rescaleRun now rate db = .ok db') :
    IdentKept db db' := by
  rcases rescaleRun_ok h with rfl | ⟨_, _, shares, _, rfl⟩
  · exact ⟨rfl, rfl⟩
  · exact reshareAll shares db

lemma tick (cfg : Settings) (boot now : Time) (env : Env) (db : Db) :
    IdentKept db (supervisorTick cfg boot now env db) := by
  refine supervisorTick_deals (I := IdentKept db) ?_ ?_ ?_ ⟨rfl, rfl⟩
  · exact fun a b hm ha => ha.trans (of_mild hm)
  · exact fun a shares _ _ ha => ha.trans (partialRelease now shares a)
  · exact fun a b _ _ hr ha => ha.trans (rescale hr)

lemma of_upkeep {leaseId : Option LeaseId} (h : Upkeep slot leaseId db db') : IdentKept db db' :=
  ⟨forall₂_map_eq (fun _ _ hl => hl.ident) h.leases, h.nextId⟩

end IdentKept

/-! ### Claims and scales -/

lemma issuedDb_idents (now : Time) (holder : String) (slot : ℕ) (db : Db) :
    (issuedDb now holder slot db).leases.map Lease.ident =
      (db.leases.map Lease.ident).map (Registry.issueRow slot db.nextId holder) := by
  simp only [issuedDb, Db.updateLease, Db.mapLeases_leases, map_map]
  refine map_congr_left fun l _ => ?_
  by_cases h : l.slot = slot
  · simp [Function.comp_apply, Registry.issueRow, Lease.ident, issueLease, h]
  · simp [Function.comp_apply, Registry.issueRow, Lease.ident, h]

lemma claim_move {holder : String} {hint : Option ℕ}
    {lease : Lease} (hs : s.registry.Sound) (hc : claimLease now holder hint s.db = .ok (db, slot))
    (hl : db.findLease slot = some lease) :
    Registry.Move s.registry
      ⟨db.leases.map Lease.ident, db.nextId, s.issued ++ [(holder, lease.leaseId)]⟩ := by
  obtain ⟨hmem, hslot⟩ := findLease_some hl
  have hrow : (slot, lease.leaseId, lease.holder) ∈ db.leases.map Lease.ident :=
    mem_map.2 ⟨lease, hmem, by rw [Lease.ident, hslot]⟩
  rcases (claimLease_ok hc).2 with ⟨held, hheld, hholder, _, hhs, hdb⟩ | ⟨old, _, _, _, hdb⟩
  · -- the rows keep their ids, so the row answered with is the one held
    obtain ⟨hrows, hnext⟩ : IdentKept s.db db := by
      rw [hdb]
      exact .of_upkeep (.again now slot _ s.db)
    rw [hrows] at hrow ⊢
    have heq : (slot, held.leaseId, some holder) = (slot, lease.leaseId, lease.holder) := by
      refine inj_on_of_nodup_map (Registry.nodup_slots hs) ?_ hrow rfl
      exact mem_map.2 ⟨held, hheld, by rw [Lease.ident, hhs, hholder]⟩
    rw [← heq] at hrow
    have hid : held.leaseId = lease.leaseId := congrArg (·.2.1) heq
    rw [hnext, ← hid]
    exact Registry.Move.again hrow
  · have hrows : db.leases.map Lease.ident =
        (s.db.leases.map Lease.ident).map (Registry.issueRow slot s.db.nextId holder) := by
      rw [← issuedDb_idents now holder slot s.db, hdb, Db.appendEvent_leases]
      split_ifs with htake
      · exact reapportionOnTakeover_map now _ (takeoverShare_ident slot)
      · rfl
    have hnext : db.nextId = s.db.nextId + 1 := by
      rw [hdb, Db.appendEvent_nextId]
      split_ifs
      · exact (reapportionOnTakeover_frame now slot _).2.1
      · rfl
    rw [hrows] at hrow ⊢
    have hid : lease.leaseId = s.db.nextId := by
      rcases Registry.mem_issue (r := s.registry) hrow with h | ⟨_, h⟩
      · exact congrArg (·.2.1) h
      · exact absurd rfl h
    rw [hnext, hid]
    exact Registry.Move.issue s.registry slot holder

/-- A scale adds slots under fresh ids, or removes the highest ones. -/
lemma scale_move {workers : ℕ} {env : Env} (h : scaleRunEndpoint now workers env s.db = .ok db) :
    Registry.Move s.registry ⟨db.leases.map Lease.ident, db.nextId, s.issued⟩ := by
  obtain ⟨_, _, shares, _, rfl⟩ := scaleRunEndpoint_ok h
  have hkept := IdentKept.reshareAll shares (resizeLeases workers s.db)
  rw [Db.appendEvent_leases, Db.appendEvent_nextId]
  rw [hkept.1, hkept.2]
  by_cases hw : s.db.leases.length < workers
  · have hmove := Registry.Move.grow s.registry (workers - s.db.leases.length)
    simp only [Sys.registry, length_map] at hmove
    simp only [resizeLeases, if_pos hw, map_append, map_map, Sys.registry]
    exact hmove
  · have hzero : workers - s.db.leases.length = 0 := by omega
    have hmove := Registry.Move.shrink s.registry workers
    simp only [Sys.registry, filter_map] at hmove
    simp only [resizeLeases, if_neg hw, hzero, Sys.registry]
    exact hmove

/-! ### Every step is a move -/

lemma move_of_kept {t : Sys} (h : IdentKept s.db t.db) (hi : t.issued = s.issued) :
    Registry.Move s.registry t.registry := by
  have heq : t.registry = s.registry := by
    unfold Sys.registry
    rw [h.1, h.2, hi]
  rw [heq]
  exact Registry.Move.stay _

theorem step_move (cfg : Settings) (a : Action) (s : Sys) (hs : s.registry.Sound) :
    Registry.Move s.registry (Sys.step cfg a s).registry := by
  have hn := Sys.nodup_slots hs
  have hstep := Sys.step_happens cfg a s
  generalize Sys.step cfg a s = t at hstep ⊢
  cases hstep with
  | idle => exact Registry.Move.stay _
  | launch => exact move_of_kept (.of_mild (.finishLaunch _ _ _ s.db)) rfl
  | @claim now holder hint db slot lease hc hl =>
    have hmove := claim_move hs hc hl
    have hissued : Sys.issued { s with db := db, sent := s.sent ++
        [Answer.slice holder (buildSlice db.run lease)] } =
        s.issued ++ [(holder, lease.leaseId)] := by
      simp [Sys.issued, buildSlice]
    rw [← hissued] at hmove
    exact hmove
  | ready hm => exact move_of_kept (.of_upkeep (.ready hm)) rfl
  | release => exact move_of_kept (.of_mild (.finishReady _ _ _ s.db)) rfl
  | @heartbeat now hb =>
    refine move_of_kept (.of_upkeep (.heartbeat now hb hn fun _ => rfl)) ?_
    simp [Sys.heartbeat, Sys.issued]
  | final h => exact move_of_kept (.of_mild (Quiet.final h).mild) rfl
  | stop h => exact move_of_kept (.of_mild (Quiet.stop h).mild) rfl
  | pause h => exact move_of_kept (.of_mild (Quiet.pause h).mild) rfl
  | resume h => exact move_of_kept (.of_mild (Quiet.resume h).mild) rfl
  | scale h => exact scale_move h
  | rescale _ h => exact move_of_kept (IdentKept.rescale h) rfl
  | tick => exact move_of_kept (IdentKept.tick cfg _ _ _ s.db) rfl
  | reconcile => exact move_of_kept (.of_mild (Quiet.reconcile _ _ s.db).mild) rfl

/-! ### Whole runs -/

variable {spec : Snapshot} {cfg : Settings} {as : List Action}

lemma start_sound (h : provisionRun now spec = .ok db) :
    (Sys.start db).registry.Sound := by
  obtain ⟨_, shares, _, rfl⟩ := provisionRun_ok h
  have hrows : (seedLeases shares).map Lease.ident =
      (range shares.length).map fun i => (i, i, none) :=
    map_seedLeases (fun _ _ => rfl) shares
  refine ⟨?_, ?_, ?_, ?_, ?_, ?_⟩
  · simp [Sys.registry, Sys.start, provisionedDb, hrows, Function.comp_def]
  · simp [Sys.registry, Sys.start, provisionedDb, hrows, Function.comp_def, nodup_range]
  · simp [Sys.registry, Sys.start, provisionedDb, hrows]
  all_goals simp [Sys.registry, Sys.start, Sys.issued]

theorem registry_sound (hp : provisionRun now spec = .ok db)
    (h : Runs (Sys.step cfg) Always (Sys.start db) as s) : s.registry.Sound :=
  h.invariant (I := fun s => s.registry.Sound) (fun a s _ hs => hs.move (step_move cfg a s hs))
    (start_sound hp)

def Action.carries : Action → Option (ℕ × LeaseId)
  | .ready _ slot leaseId => leaseId.map (slot, ·)
  | .heartbeat _ hb => hb.leaseId.map (hb.slot, ·)
  | .final _ f => f.leaseId.map (f.slot, ·)
  | _ => none

/-- A message whose id is not the current one of its slot changes no stored row. -/
lemma stray_message (cfg : Settings) {a : Action} {id : LeaseId}
    (ha : a.carries = some (slot, id)) (hid : ∀ l ∈ s.db.leases, l.slot = slot → l.leaseId ≠ id) :
    (Sys.step cfg a s).db = s.db := by
  have hfind : ∀ {sl lease}, sl = slot → s.db.findLease sl = some lease → lease.leaseId ≠ id :=
    fun hsl hl => hid _ (findLease_some hl).1 ((findLease_some hl).2.trans hsl)
  cases a with
  | ready now sl leaseId =>
    obtain ⟨id', rfl, heq⟩ := Option.map_eq_some_iff.1 ha
    obtain ⟨rfl, rfl⟩ := Prod.mk.inj heq
    change (s.ready now sl (some id')).db = s.db
    unfold Sys.ready
    cases hm : markReady now sl (some id') s.db with
    | error e => rfl
    | ok db =>
      obtain ⟨lease, hl, hcur, _⟩ := markReady_ok hm
      exact absurd (Option.some.inj hcur).symm (hfind rfl hl)
  | heartbeat now hb =>
    obtain ⟨id', hb', heq⟩ := Option.map_eq_some_iff.1 ha
    obtain ⟨hsl, rfl⟩ := Prod.mk.inj heq
    rcases recordHeartbeat_cases now hb s.db with ⟨h, _⟩ | ⟨lease, hl, hcur, _⟩
    · change (recordHeartbeat now hb s.db).1 = s.db
      rw [h]
    · rw [hb'] at hcur
      exact absurd (Option.some.inj hcur).symm (hfind hsl hl)
  | final now f =>
    obtain ⟨id', hf, heq⟩ := Option.map_eq_some_iff.1 ha
    obtain ⟨hsl, rfl⟩ := Prod.mk.inj heq
    change (s.commit (recordFinal now f s.db)).db = s.db
    unfold recordFinal
    cases hl : s.db.findLease f.slot with
    | none => rfl
    | some lease =>
      have hstray : f.leaseId.isSome = true ∧ isLeaseHolder (some lease) f.leaseId = false := by
        refine ⟨by simp [hf], ?_⟩
        rw [← Bool.not_eq_true, isLeaseHolder_some, hf]
        exact fun h => hfind hsl hl (Option.some.inj h).symm
      dsimp only
      rw [if_pos hstray]
      rfl
  | _ => cases ha

/-- Fencing: in every reachable state a message whose lease id is not its slot's current one changes
no lease, sample, total or state; every slot has exactly one current id; and no id was ever issued
to two holders. -/
theorem fencing {now : Time} {db : Db} {s : Sys} (hp : provisionRun now spec = .ok db)
    (h : Runs (Sys.step cfg) Always (Sys.start db) as s) :
    (∀ a slot id, a.carries = some (slot, id) →
      (∀ l ∈ s.db.leases, l.slot = slot → l.leaseId ≠ id) → (Sys.step cfg a s).db = s.db) ∧
    (∀ slot < s.db.leases.length, ∃! id, ∃ l ∈ s.db.leases, l.slot = slot ∧ l.leaseId = id) ∧
    (∀ p ∈ s.issued, ∀ q ∈ s.issued, p.2 = q.2 → p.1 = q.1) := by
  have hsound := registry_sound hp h
  have hslots := Sys.slots_eq hsound
  have hn := Sys.nodup_slots hsound
  refine ⟨fun a slot id ha hid => stray_message cfg ha hid, fun slot hlt => ?_, hsound.issuedOnce⟩
  have hmem : slot ∈ s.db.leases.map (·.slot) := by
    rw [hslots]
    exact mem_range.2 hlt
  obtain ⟨l, hl, rfl⟩ := mem_map.1 hmem
  refine ⟨l.leaseId, ⟨l, hl, rfl, rfl⟩, ?_⟩
  rintro id ⟨k, hk, hks, rfl⟩
  rw [inj_on_of_nodup_map hn hk hl hks]

/-- A worker that lapsed and was replaced: its late heartbeat, ready post and final change
nothing, and the two workers have different ids. -/
theorem fencing_takeover :
    let s := exec (Sys.step {}) (Sys.start (plainDb 1))
      [.launch 1 swarmRun, .claim 2 "w0" none, .tick 0 100 {},
        .claim 101 "w1" none]
    s.issued = [("w0", 1), ("w1", 2)] ∧
      (∀ a slot id, a.carries = some (slot, id) →
        (∀ l ∈ s.db.leases, l.slot = slot → l.leaseId ≠ id) → (Sys.step {} a s).db = s.db) ∧
      (∀ slot < s.db.leases.length, ∃! id, ∃ l ∈ s.db.leases, l.slot = slot ∧ l.leaseId = id) ∧
      (∀ p ∈ s.issued, ∀ q ∈ s.issued, p.2 = q.2 → p.1 = q.1) := by
  intro s
  exact ⟨by decide +kernel, fencing (provisionRun_plain (by decide)) (Runs.always _ _)⟩

end Stoker
