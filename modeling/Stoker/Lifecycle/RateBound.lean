import Stoker.Lifecycle.Split

/-!
# The fleet is not asked for more than the rate

The shares of the live leases add up to at most the rate as long as every live slot took part in the
last split. Two steps make a slot live without splitting the rate again: a claim, and a heartbeat
that restores a lost lease. After a partial release the slots left out still carry their old share,
so when one of their workers is heard from again the fleet is asked for more than the rate.
-/

open List

namespace Stoker

open Transition

def Lease.rate (l : Lease) : ℚ := (l.share.pub.map (·.2)).sum

/-- What the live leases are asked for together. -/
def Db.asked (db : Db) : ℚ := ((db.leases.filter (·.state.live)).map Lease.rate).sum

/-- Every live slot took part in the last split. -/
def Covered (db : Db) : Prop := ∀ l ∈ db.leases, l.state.live = true → l.slot ∈ db.hist.split

/-- The claim of this slot splits the rate again. -/
def TakesOver (db : Db) (l : Lease) : Prop :=
  l.state = .lost ∧ db.run.t0.isSome = true ∧ db.run.degraded = true ∧ db.run.state ≠ .draining

/-- A slot that becomes live took part in the last split, or its claim splits the rate again. A
claim makes one live when the run has not ended and the worker holds none, a heartbeat when the
worker is not told to drain. -/
def JoinsSplit (a : Action) (s : Sys) : Prop :=
  match a with
  | .claim _ holder hint => s.db.run.state.terminal = false →
      (∀ l ∈ s.db.leases, l.holder = some holder → l.state.live = false) →
      ∀ l ∈ nextClaimable s.db.leases hint, l.slot ∈ s.db.hist.split ∨ TakesOver s.db l
  | .heartbeat _ hb => Served s.db.run hb.protocolVersion → ∀ l ∈ s.db.leases, l.slot = hb.slot →
      hb.leaseId = some l.leaseId → l.state = .lost → l.slot ∈ s.db.hist.split
  | _ => True

instance (db : Db) (l : Lease) : Decidable (TakesOver db l) := inferInstanceAs (Decidable (_ ∧ _))

instance (a : Action) (s : Sys) : Decidable (JoinsSplit a s) := by
  unfold JoinsSplit
  split <;> infer_instance

/-! ### The bound -/

variable {rate : ℚ}

lemma Split.rate_of_mem {db : Db} (h : Split db rate) {l : Lease} (hl : l ∈ db.leases)
    (hs : l.slot ∈ db.hist.split) : l.rate = rate / db.hist.split.length := by
  have hshare : l.share.pub = _ := h.share l.deal (mem_map_of_mem hl) hs
  unfold Lease.rate
  rw [hshare]
  simp [evenShare]

/-- The sum of the shares of some rows that all took part in the last split. -/
lemma Split.sum_rates {db : Db} (h : Split db rate) (p : Lease → Bool)
    (hp : ∀ l ∈ db.leases, p l = true → l.slot ∈ db.hist.split) :
    ((db.leases.filter p).map Lease.rate).sum =
      (db.leases.filter p).length * (rate / db.hist.split.length) := by
  have hconst : ∀ x ∈ (db.leases.filter p).map Lease.rate, x = rate / db.hist.split.length := by
    intro x hx
    obtain ⟨l, hl, rfl⟩ := mem_map.1 hx
    obtain ⟨hmem, hlp⟩ := mem_filter.1 hl
    exact h.rate_of_mem hmem (hp l hmem hlp)
  rw [sum_eq_card_nsmul _ _ hconst, length_map, nsmul_eq_mul]

theorem Split.asked_le {db : Db} (h : Split db rate) (hc : Covered db) : db.asked ≤ rate := by
  unfold Db.asked
  rw [h.sum_rates _ hc]
  -- the live slots are among the slots of the split, none of them twice
  have hsub : (db.leases.filter (·.state.live)).map (·.slot) ⊆ db.hist.split := by
    intro x hx
    obtain ⟨l, hl, rfl⟩ := mem_map.1 hx
    obtain ⟨hmem, hlive⟩ := mem_filter.1 hl
    exact hc l hmem hlive
  have hn : ((db.leases.filter (·.state.live)).map (·.slot)).Nodup :=
    h.nodup_slots.sublist (Sublist.map _ filter_sublist)
  have hle : (db.leases.filter (·.state.live)).length ≤ db.hist.split.length := by
    have := (subperm_of_subset hn hsub).length_le
    rwa [length_map] at this
  have hleq : ((db.leases.filter (·.state.live)).length : ℚ) ≤ db.hist.split.length := by
    exact_mod_cast hle
  rcases Nat.eq_zero_or_pos db.hist.split.length with hz | hpos
  · rw [hz] at hle
    have : (db.leases.filter (·.state.live)).length = 0 := by omega
    rw [this]
    simpa using h.pos.le
  · have hposq : (0 : ℚ) < db.hist.split.length := by exact_mod_cast hpos
    calc ((db.leases.filter (·.state.live)).length : ℚ) * (rate / db.hist.split.length)
        ≤ db.hist.split.length * (rate / db.hist.split.length) := by
          apply mul_le_mul_of_nonneg_right hleq
          exact div_nonneg h.pos.le hposq.le
      _ = rate := by field_simp

/-! ### One step -/

namespace Covered

variable {db db' : Db}

lemma of_all (h : ∀ l ∈ db.leases, l.slot ∈ db.hist.split) : Covered db := fun l hl _ => h l hl

lemma mild (h : Covered db) (hm : Mild db db') : Covered db' := by
  intro l' hl' hlive
  obtain ⟨l, hl, hf⟩ := hm.leases.exists_of_mem hl'
  rw [hm.hist, hf.slot]
  exact h l hl (hf.state_of_live hlive ▸ hlive)

lemma reshareAll (shares : List PublicShare) (hh : db'.hist.split = db.leases.map (·.slot))
    (hl : db'.leases = (Stoker.reshareAll shares db).leases) : Covered db' := by
  refine of_all fun l hmem => ?_
  rw [hl] at hmem
  obtain ⟨k, hk, rfl⟩ := mem_map.1 hmem
  rw [hh, Split.reshare_slot]
  exact mem_map_of_mem hk

variable {now : Time}

lemma rescale {value : Option ℚ} (h : Covered db)
    (hr : rescaleRun now value db = .ok db') : Covered db' := by
  rcases rescaleRun_ok hr with rfl | ⟨_, _, shares, _, rfl⟩
  · exact h
  · exact reshareAll shares rfl rfl

variable {shares : List PublicShare} {holder : String}

lemma partialRelease (hs : Split db rate) (now : Time) (ht : db.run.t0 = none)
    (hb : buildShareList db.run.snapshot.rateMode db.run.snapshot.rateValue
      (readySlots db.leases).length = .ok shares) :
    Covered (partialRelease now shares db) := by
  intro l' hl' hlive
  rw [partialRelease_leases, hs.buildShareList_eq hb, Split.assignShares_even] at hl'
  rw [partialRelease_hist]
  obtain ⟨k, hk, rfl⟩ := mem_map.1 hl'
  obtain ⟨l, hl, rfl⟩ := mem_map.1 hk
  split_ifs at hlive ⊢ with hmem
  · exact hmem
  · have hf := Lease.Fades.declareLost l
    have hst := hf.state_of_live hlive
    rw [hf.slot]
    refine mem_map_of_mem (mem_filter.2 ⟨hl, ?_⟩)
    have hrun := (hs.unreleased ht).2.2 l hl
    unfold declareLost at hst hlive
    cases hls : l.state <;> simp_all [LeaseState.pending, LeaseState.live]

lemma upkeep {slot : ℕ} {leaseId : Option LeaseId} (h : Covered db)
    (hu : Upkeep slot leaseId db db')
    (hg : ∀ l ∈ db.leases, l.slot = slot → leaseId = some l.leaseId → l.state = .lost →
      l.slot ∈ db.hist.split) : Covered db' := by
  intro l' hl' hlive
  obtain ⟨l, hl, hk⟩ := forall₂_exists_of_mem hu.leases hl'
  rw [hu.hist, hk.slot_eq]
  rcases hk.live hlive with hlive | ⟨hlost, hs, hid⟩
  · exact h l hl hlive
  · exact hg l hl hs hid hlost

variable {slot : ℕ}

/-- The rows of a claim before any share is rewritten: the slot taken is the only one that becomes
live. -/
lemma live_issuedDb {l' : Lease} (hl' : l' ∈ (issuedDb now holder slot db).leases)
    (hlive : l'.state.live = true) :
    l'.slot = slot ∨ ∃ l ∈ db.leases, l'.slot = l.slot ∧ l.state.live = true := by
  obtain ⟨j, hj, rfl⟩ := mem_updateLease.1 hl'
  split_ifs at hlive ⊢ with hs
  · exact .inl hs
  · exact .inr ⟨j, hj, rfl, hlive⟩

lemma of_takeover
    (hl : db'.leases = assignShares (takeoverShare slot)
      ((db.leases.filter (·.state.live)).map (·.slot)) shares db.leases)
    (hh : db'.hist.split = (db.leases.filter (·.state.live)).map (·.slot)) : Covered db' := by
  intro l' hl' hlive
  have hrow : (l'.slot, l'.state) ∈ db.leases.map fun l => (l.slot, l.state) := by
    rw [← assignShares_map ((db.leases.filter (·.state.live)).map (·.slot)) shares db.leases
      (f := takeoverShare slot), ← hl]
    · exact mem_map_of_mem hl'
    · intro share l
      rw [takeoverShare_state]
      exact congrArg (·, _) (congrArg Prod.fst (takeoverShare_ident slot share l))
  obtain ⟨l, hmem, heq⟩ := mem_map.1 hrow
  obtain ⟨hslot, hstate⟩ := Prod.mk.inj heq
  rw [hh, ← hslot]
  exact mem_map_of_mem (mem_filter.2 ⟨hmem, by rw [hstate]; exact hlive⟩)

lemma claim {hint : Option ℕ} (h : Covered db) (hs : Split db rate)
    (hc : claimLease now holder hint db = .ok (db', slot))
    (hg : db.run.state.terminal = false →
      (∀ l ∈ db.leases, l.holder = some holder → l.state.live = false) →
      ∀ l ∈ nextClaimable db.leases hint, l.slot ∈ db.hist.split ∨ TakesOver db l) :
    Covered db' := by
  obtain ⟨hterm, hcase⟩ := claimLease_ok hc
  rcases hcase with ⟨held, _, _, _, _, rfl⟩ | ⟨lease, hnext, hslot, hnone, rfl⟩
  · exact h.upkeep (.again now slot _ db) (by simp)
  · have hjoins := hg hterm hnone lease hnext
    refine Covered.mild ?_ (Quiet.appendEvent now (.inl (by simp))).mild
    have hi := hs.issuedDb now holder slot
    -- the rows right after the claim are covered if the slot took part in the last split
    have hin : slot ∈ db.hist.split → Covered (issuedDb now holder slot db) := by
      intro hin l' hl' hlive
      rcases live_issuedDb hl' hlive with hl | ⟨l, hl, hls, hll⟩
      · exact hl ▸ hin
      · exact hls ▸ h l hl hll
    have hmem : lease ∈ db.leases := (nextClaimable_some hnext).1
    by_cases hlost : lease.state = .lost ∧ db.run.t0.isSome = true
    · rw [if_pos hlost]
      rcases hjoins with hsp | ⟨_, _, hdeg, hdr⟩
      · rcases reapportionOnTakeover_eq now slot (issuedDb now holder slot db) with
          he | ⟨_, shares, _, _, _, he⟩ <;> rw [he]
        · exact hin (hslot ▸ hsp)
        · exact of_takeover rfl rfl
      · have hlive : ∃ l ∈ (issuedDb now holder slot db).leases, l.state.live = true :=
          ⟨_, mem_updateLease.2 ⟨lease, hmem, rfl⟩, by rw [if_pos hslot]; rfl⟩
        have hpos : 0 < ((issuedDb now holder slot db).leases.filter (·.state.live)).length := by
          obtain ⟨l, hl, hll⟩ := hlive
          exact length_pos_of_mem (mem_filter.2 ⟨hl, hll⟩)
        have hb := buildShareList_rate hi.paced hi.pos hpos
        rw [← hi.value] at hb
        have hrun : (issuedDb now holder slot db).run = db.run := rfl
        obtain ⟨hl, hh⟩ := reapportionOnTakeover_split (by rw [hrun, hdeg]) (by rw [hrun, hterm])
          (by rw [hrun]; exact hdr) hlive hb
        exact of_takeover hl hh
    · rw [if_neg hlost]
      rcases hjoins with hsp | ⟨h₁, h₂, _⟩
      · exact hin (hslot ▸ hsp)
      · exact absurd ⟨h₁, h₂⟩ hlost

lemma tick (h : Covered db) (hs : Split db rate) (cfg : Settings) (boot now : Time)
    (env : Env) : Covered (supervisorTick cfg boot now env db) := by
  have hboth : Covered (supervisorTick cfg boot now env db) ∧
      ∃ r, Split (supervisorTick cfg boot now env db) r := by
    refine supervisorTick_deals (I := fun d => Covered d ∧ ∃ r, Split d r) ?_ ?_ ?_ ⟨h, rate, hs⟩
    · rintro a b hm ⟨hc, r, hr⟩
      exact ⟨hc.mild hm, r, hr.mild hm⟩
    · rintro a shares ht hb ⟨_, r, hr⟩
      exact ⟨partialRelease hr now ht hb, r, hr.partialRelease now hb⟩
    · rintro a b _ _ hresc ⟨hc, r, hr⟩
      exact ⟨hc.rescale hresc, hr.rescale hresc⟩
  exact hboth.1

lemma step (cfg : Settings) (a : Action) {s : Sys} (hg : JoinsSplit a s)
    (hs : Split s.db rate) (h : Covered s.db) : Covered (Sys.step cfg a s).db := by
  have hstep := Sys.step_stored cfg a s
  generalize (Sys.step cfg a s).db = d at hstep ⊢
  cases hstep with
  | quiet hq => exact h.mild hq.mild
  | launch => exact h.mild (.finishLaunch _ _ _ _)
  | claim hc => exact h.claim hs hc hg
  | ready hm => exact h.upkeep (.ready hm) (by simp)
  | release => exact h.mild (.finishReady _ _ _ _)
  | @heartbeat now hb =>
    by_cases hserved : Served s.db.run hb.protocolVersion
    · exact h.upkeep (.heartbeat _ _ hs.nodup_slots fun _ => rfl) (hg hserved)
    · have hnone : Upkeep hb.slot none s.db (recordHeartbeat now hb s.db).1 :=
        .heartbeat now hb hs.nodup_slots fun h => absurd h hserved
      exact h.upkeep hnone (by simp)
  | scale hsc =>
    obtain ⟨_, _, shares, _, rfl⟩ := scaleRunEndpoint_ok hsc
    exact reshareAll shares rfl rfl
  | rescale _ hr => exact h.rescale hr
  | tick => exact h.tick hs cfg _ _ _

end Covered

/-! ### Whole runs -/

/-- In a run in which every slot that becomes live takes part in the split, the live leases of a
paced run are never asked for more than its rate. -/
theorem asked_le_rate_of_joins {cfg : Settings} {now : Time} {spec : Snapshot} {db : Db}
    {as : List Action} {s : Sys} (hm : spec.rateMode.paced = true)
    (hp : provisionRun now spec = .ok db) (h : Runs (Sys.step cfg) JoinsSplit (Sys.start db) as s) :
    ∃ rate, s.db.run.snapshot.rateValue = some rate ∧ s.db.asked ≤ rate := by
  obtain ⟨rate, hs⟩ := Split.reachable hm hp h
  refine ⟨rate, hs.value, hs.asked_le ?_⟩
  refine h.invariant_under (I := fun s => ∃ r, Split s.db r) (J := fun s => Covered s.db)
    ?_ ?_ ?_ ?_
  · exact fun a s _ ⟨r, hr⟩ => hr.step cfg a
  · exact fun a s hg ⟨r, hr⟩ hc => hc.step cfg a hg hr
  · exact Split.start hm hp
  · obtain ⟨_, shares, _, rfl⟩ := provisionRun_ok hp
    intro l hl hlive
    obtain ⟨i, _, rfl⟩ := mem_mapIdx.1 hl
    cases hlive

/-- A partial release leaves a lapsed worker out; its replacement takes the slot over, and the rate
is split over both again. -/
theorem asked_le_rate_of_joins_takeover :
    let s := exec (Sys.step {}) (Sys.start (plainDb 2))
      [.launch 1 swarmRun, .claim 2 "w0" none, .claim 3 "w1" none,
        .ready 4 0 (some 2), .release 5 0, .heartbeat 100 { slot := 0, leaseId := some 2 },
        .tick 0 121 {}, .claim 122 "w2" none]
    s.db.leases.map (·.state) = [.ready, .claimed] ∧
      ∃ rate, s.db.run.snapshot.rateValue = some rate ∧ s.db.asked ≤ rate := by
  intro s
  have hp := provisionRun_plain (by decide : 0 < 2)
  have h : Runs (Sys.step {}) JoinsSplit (Sys.start (plainDb 2)) _ s :=
    Runs.of_check (by decide +kernel)
  exact ⟨by decide +kernel, asked_le_rate_of_joins rfl hp h⟩

/-- A worker that claimed but did not get ready is left out of the partial release. The other one is
given the whole rate of twelve; the next heartbeat of the first brings its lease back with its old
share of six. -/
theorem asked_exceeds_rate :
    ¬ ∀ (cfg : Settings) (now : Time) (spec : Snapshot) (db : Db) (as : List Action) (s : Sys),
      spec.rateMode.paced = true → provisionRun now spec = .ok db →
      Runs (Sys.step cfg) Always (Sys.start db) as s →
      ∃ rate, s.db.run.snapshot.rateValue = some rate ∧ s.db.asked ≤ rate := by
  intro h
  obtain ⟨rate, hr, hle⟩ := h {} 0 (plainSpec 2) (plainDb 2)
    [.launch 1 swarmRun, .claim 2 "w0" none, .claim 3 "w1" none,
      .ready 4 0 (some 2), .release 5 0, .heartbeat 100 { slot := 0, leaseId := some 2 },
      .heartbeat 100 { slot := 1, leaseId := some 3 }, .tick 0 121 {},
      .heartbeat 122 { slot := 1, leaseId := some 3 }] _ rfl (provisionRun_plain (by decide))
    (Runs.always _ _)
  have hrate : rate = 12 := by
    have h12 : some rate = some 12 := hr.symm.trans (by decide +kernel)
    exact Option.some.inj h12
  subst hrate
  revert hle
  decide +kernel

end Stoker
