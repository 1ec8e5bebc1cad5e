import Stoker.Lifecycle.Fencing

/-!
# How the rate is split

The rate of a paced run (events per second or GB per day) is split evenly: when the run is
provisioned, scaled or rescaled over all its slots, at a partial release over the ready ones, at a
takeover on a degraded run over the live ones. The history variable `split` remembers the slots of
the last split. Every slot in it has the same share, the rate divided by their number; before the
release they are all the slots, and no lease runs.
-/

open List

namespace Stoker

open Transition

def evenShare (mode : RateMode) (rate : ℚ) (n : ℕ) : PublicShare := [(mode.key, rate / n)]

def Lease.deal (l : Lease) : ℕ × PublicShare := (l.slot, l.share.pub)

/-- The rows of a paced run at some rate, with the shares of the last split. -/
structure Split (db : Db) (rate : ℚ) : Prop where
  slots : db.leases.map (·.slot) = range db.leases.length
  size : 0 < db.leases.length
  paced : db.run.snapshot.rateMode.paced = true
  value : db.run.snapshot.rateValue = some rate
  pos : 0 < rate
  nodup : db.hist.split.Nodup
  share : ∀ d ∈ db.leases.map Lease.deal, d.1 ∈ db.hist.split →
    d.2 = evenShare db.run.snapshot.rateMode rate db.hist.split.length
  unreleased : db.run.t0 = none → db.hist.split = db.leases.map (·.slot) ∧
    db.run.degraded = false ∧ ∀ l ∈ db.leases, l.state ≠ .running

namespace Split

variable {db db' : Db} {rate : ℚ}

lemma nodup_slots (h : Split db rate) : (db.leases.map (·.slot)).Nodup := by
  rw [h.slots]
  exact nodup_range

lemma slots_of_deals (hd : db'.leases.map Lease.deal = db.leases.map Lease.deal) :
    db'.leases.map (·.slot) = db.leases.map (·.slot) := by
  have hfst := congrArg (map Prod.fst) hd
  rwa [map_map, map_map] at hfst

/-- A step that deals no new shares. -/
lemma frame (h : Split db rate) (hd : db'.leases.map Lease.deal = db.leases.map Lease.deal)
    (hm : db'.run.snapshot.rateMode = db.run.snapshot.rateMode)
    (hv : db'.run.snapshot.rateValue = db.run.snapshot.rateValue) (hh : db'.hist = db.hist)
    (hu : db'.run.t0 = none → db.run.t0 = none ∧ db'.run.degraded = db.run.degraded ∧
      ((∀ l ∈ db.leases, l.state ≠ .running) → ∀ l ∈ db'.leases, l.state ≠ .running)) :
    Split db' rate := by
  have hs := slots_of_deals hd
  have hlen : db'.leases.length = db.leases.length := by
    have := congrArg length hs
    rwa [length_map, length_map] at this
  refine ⟨?_, ?_, ?_, ?_, h.pos, ?_, ?_, ?_⟩
  · rw [hs, hlen]
    exact h.slots
  · rw [hlen]
    exact h.size
  · rw [hm]
    exact h.paced
  · rw [hv]
    exact h.value
  · rw [hh]
    exact h.nodup
  · rw [hd, hm, hh]
    exact h.share
  · intro ht
    obtain ⟨ht', hdeg, hrun⟩ := hu ht
    obtain ⟨h₁, h₂, h₃⟩ := h.unreleased ht'
    exact ⟨by rw [hh, hs, h₁], hdeg.trans h₂, hrun h₃⟩

lemma splittable (h : Split db rate) : ¬ db.Unsplittable := by
  rintro ⟨n, e, hn, hb⟩
  rw [h.value, buildShareList_rate h.paced h.pos hn] at hb
  cases hb

lemma mild (h : Split db rate) (hm : Mild db db') : Split db' rate := by
  obtain ⟨_, hs⟩ := hm.snapshot
  refine h.frame ?_ hm.mode (by rw [hs]) hm.hist fun ht => ?_
  · refine hm.leases.map_eq fun l l' hf => ?_
    rw [Lease.deal, Lease.deal, hf.slot, hf.share]
  · obtain ⟨ht', hd, _⟩ := hm.unreleased ht
    refine ⟨ht', hd.resolve_right h.splittable, fun hrun l' hl' hs => ?_⟩
    obtain ⟨l, hl, hf⟩ := hm.leases.exists_of_mem hl'
    exact hrun l hl ((hf.state_of_live (by rw [hs]; rfl)).symm.trans hs)

/-! ### New splits -/

lemma lookup_zip_replicate (slots : List ℕ) (share : PublicShare) (x : ℕ) :
    (slots.zip (replicate slots.length share)).lookup x =
      if x ∈ slots then some share else none := by
  induction slots with
  | nil => rfl
  | cons y slots ih =>
    rw [length_cons, replicate_succ, zip_cons_cons, lookup_cons, ih]
    by_cases h : x = y
    · simp [h]
    · have hb : (x == y) = false := by simpa using h
      simp [hb, h]

lemma assignShares_even (f : PublicShare → Lease → Lease) (slots : List ℕ) (share : PublicShare)
    (ls : List Lease) :
    assignShares f slots (replicate slots.length share) ls =
      ls.map fun l => if l.slot ∈ slots then f share l else l := by
  refine map_congr_left fun l _ => ?_
  rw [lookup_zip_replicate]
  split_ifs <;> rfl

variable {slots : List ℕ} {rate' : ℚ} {n slot : ℕ} {shares : List PublicShare} {s : Sys}
  {spec : Snapshot}

/-- A step that splits the rate anew over some slots. -/
lemma resplit {ls : List Lease} {f : Lease → Lease} (hs : ls.map (·.slot) = range ls.length)
    (hsize : 0 < ls.length) (hpaced : db'.run.snapshot.rateMode.paced = true)
    (hrate : db'.run.snapshot.rateValue = some rate') (hpos : 0 < rate') (hn : slots.Nodup)
    (hslot : ∀ l, (f l).slot = l.slot)
    (hshare : ∀ l ∈ ls, l.slot ∈ slots →
      (f l).share.pub = evenShare db'.run.snapshot.rateMode rate' slots.length)
    (hl : db'.leases = ls.map f) (hh : db'.hist.split = slots)
    (hu : db'.run.t0 = none → slots = ls.map (·.slot) ∧ db'.run.degraded = false ∧
      ∀ l ∈ ls, (f l).state ≠ .running) :
    Split db' rate' := by
  have hslots : db'.leases.map (·.slot) = ls.map (·.slot) := by
    rw [hl, map_map]
    exact map_congr_left fun l _ => hslot l
  refine ⟨?_, ?_, hpaced, hrate, hpos, ?_, ?_, ?_⟩
  · rw [hslots, hl, length_map]
    exact hs
  · rw [hl, length_map]
    exact hsize
  · rw [hh]
    exact hn
  · intro d hd hmem
    rw [hl, map_map] at hd
    obtain ⟨l, hl', rfl⟩ := mem_map.1 hd
    rw [hh] at hmem ⊢
    exact hshare l hl' (by rwa [← hslot l])
  · intro ht
    obtain ⟨h₁, h₂, h₃⟩ := hu ht
    refine ⟨by rw [hh, hslots, h₁], h₂, ?_⟩
    intro k hk
    rw [hl] at hk
    obtain ⟨l, hl', rfl⟩ := mem_map.1 hk
    exact h₃ l hl'

/-! ### One operation -/

lemma buildShareList_eq (h : Split db rate)
    (hb : buildShareList db.run.snapshot.rateMode db.run.snapshot.rateValue n = .ok shares) :
    shares = replicate n (evenShare db.run.snapshot.rateMode rate n) := by
  obtain ⟨r, hr, _, _, hs⟩ := buildShareList_ok h.paced hb
  rw [h.value] at hr
  cases hr
  exact hs

variable {l : Lease}

lemma reshare_even {share : PublicShare} (hl : l.slot < n) :
    (reshare (replicate n share) l).share.pub = share := by
  unfold reshare
  rw [getElem?_replicate, if_pos hl]
  split_ifs <;> rfl

lemma reshare_slot (shares : List PublicShare) (l : Lease) :
    (reshare shares l).slot = l.slot := congrArg Prod.fst (reshare_ident shares l)

lemma reshareAll (hs : db.leases.map (·.slot) = range db.leases.length)
    (hsize : 0 < db.leases.length)
    (hl : db'.leases = (Stoker.reshareAll
      (replicate db.leases.length (evenShare db'.run.snapshot.rateMode rate' db.leases.length))
        db).leases)
    (hh : db'.hist.split = db.leases.map (·.slot))
    (hpaced : db'.run.snapshot.rateMode.paced = true)
    (hrate : db'.run.snapshot.rateValue = some rate') (hpos : 0 < rate')
    (hu : db'.run.t0 = none → db'.run.degraded = false ∧ ∀ l ∈ db.leases, l.state ≠ .running) :
    Split db' rate' := by
  refine resplit hs hsize hpaced hrate hpos (hs ▸ nodup_range) (reshare_slot _) ?_ hl hh ?_
  · intro l hl' _
    have hlt : l.slot < db.leases.length := by
      have hmem : l.slot ∈ db.leases.map (·.slot) := mem_map_of_mem hl'
      rw [hs] at hmem
      exact mem_range.1 hmem
    rw [reshare_even hlt, length_map]
  · intro ht
    obtain ⟨h₁, h₂⟩ := hu ht
    refine ⟨rfl, h₁, fun l hl' => ?_⟩
    rw [reshare_state]
    exact h₂ l hl'

variable {now : Time}

lemma rescale {value : Option ℚ} (h : Split db rate)
    (hr : rescaleRun now value db = .ok db') : ∃ rate', Split db' rate' := by
  rcases rescaleRun_ok hr with rfl | ⟨_, _, shares, hb, rfl⟩
  · exact ⟨rate, h⟩
  · obtain ⟨rate', rfl, hpos, _, rfl⟩ := buildShareList_ok h.paced hb
    refine ⟨rate', reshareAll h.slots h.size rfl rfl h.paced rfl hpos fun ht => ?_⟩
    exact (h.unreleased ht).2

variable {workers : ℕ}

lemma resizeLeases_slots (hs : db.leases.map (·.slot) = range db.leases.length) :
    (resizeLeases workers db).leases.map (·.slot) = range workers := by
  unfold resizeLeases
  by_cases hw : db.leases.length < workers
  · simp only [if_pos hw, map_append, map_map, Function.comp_def, hs]
    rw [← range_add]
    congr 1
    omega
  · simp only [if_neg hw]
    have hf : (db.leases.filter (·.slot < workers)).map (·.slot) =
        (db.leases.map (·.slot)).filter (· < workers) := by
      rw [filter_map]
      rfl
    rw [hf, hs, Registry.filter_lt_range, min_eq_left (by omega)]

lemma resizeLeases_state (hl : l ∈ (resizeLeases workers db).leases) :
    l ∈ db.leases ∨ l.state = .free := by
  unfold resizeLeases at hl
  dsimp only at hl
  split_ifs at hl
  · rcases mem_append.1 hl with hl | hl
    · exact .inl hl
    · obtain ⟨i, _, rfl⟩ := mem_map.1 hl
      exact .inr rfl
  · exact .inl (mem_filter.1 hl).1

lemma scale {env : Env} (h : Split db rate)
    (hr : scaleRunEndpoint now workers env db = .ok db') : Split db' rate := by
  obtain ⟨hw, _, shares, hb, rfl⟩ := scaleRunEndpoint_ok hr
  have hrange : (resizeLeases workers db).leases.map (·.slot) = range workers :=
    resizeLeases_slots h.slots
  have hlen : (resizeLeases workers db).leases.length = workers := by
    have := congrArg length hrange
    rwa [length_map, length_range] at this
  have hs : (resizeLeases workers db).leases.map (·.slot) =
      range (resizeLeases workers db).leases.length := by
    rw [hlen]
    exact hrange
  rw [h.buildShareList_eq hb]
  refine reshareAll hs (by omega) ?_ rfl h.paced h.value h.pos fun ht => ?_
  · rw [hlen]
    rfl
  · obtain ⟨_, hd, hrun⟩ := h.unreleased ht
    refine ⟨hd, fun l hl => ?_⟩
    rcases resizeLeases_state hl with hl | hl
    · exact hrun l hl
    · rw [hl]
      decide

lemma readySlots_nodup (h : Split db rate) : (readySlots db.leases).Nodup :=
  h.nodup_slots.sublist (Sublist.map _ filter_sublist)

lemma assign {f : PublicShare → Lease → Lease} (h : Split db rate) (hn : slots.Nodup)
    (hslot : ∀ share l, (f share l).slot = l.slot)
    (hpub : ∀ share l, (f share l).share.pub = share)
    (hl : db'.leases = assignShares f slots
      (replicate slots.length (evenShare db.run.snapshot.rateMode rate slots.length)) db.leases)
    (hm : db'.run.snapshot.rateMode = db.run.snapshot.rateMode)
    (hv : db'.run.snapshot.rateValue = db.run.snapshot.rateValue) (hh : db'.hist.split = slots)
    (ht : db'.run.t0 ≠ none) : Split db' rate := by
  rw [assignShares_even] at hl
  refine resplit h.slots h.size (hm ▸ h.paced) (hv.trans h.value) h.pos hn ?_ ?_ hl hh ?_
  · intro l
    split_ifs
    · exact hslot _ l
    · rfl
  · intro l _ hmem
    rw [if_pos hmem, hpub, hm]
  · exact fun ht' => absurd ht' ht

lemma partialRelease (h : Split db rate) (now : Time)
    (hb : buildShareList db.run.snapshot.rateMode db.run.snapshot.rateValue
      (readySlots db.leases).length = .ok shares) :
    Split (partialRelease now shares db) rate := by
  have hlost := h.mild (Quiet.mapLeases Lease.Fades.declareLost db).mild
  refine hlost.assign h.readySlots_nodup (fun share l => markRetarget_slot l share)
    (fun share l => markRetarget_pub l share) ?_ ?_ ?_ ?_ ?_
  · rw [partialRelease_leases, h.buildShareList_eq hb]
    rfl
  all_goals simp

lemma upkeep {leaseId : Option LeaseId} (h : Split db rate) (hu : Upkeep slot leaseId db db') :
    Split db' rate := by
  refine h.frame (forall₂_map_eq (fun _ _ hl => ?_) hu.leases) (by rw [hu.snapshot])
    (by rw [hu.snapshot])
    hu.hist fun ht => ⟨hu.t0.symm.trans ht, hu.degraded, fun hrun k hk hstate => ?_⟩
  · rw [Lease.deal, Lease.deal, hl.pub]
    exact congrArg (·, _) hl.slot_eq
  · obtain ⟨l, hl, hk⟩ := forall₂_exists_of_mem hu.leases hk
    rcases hk.running hstate with hrunning | hset
    · exact hrun l hl hrunning
    · rw [hu.t0.symm.trans ht] at hset
      cases hset

/-! ### Claims -/

lemma issuedDb (h : Split db rate) (now : Time) (holder : String) (slot : ℕ) :
    Split (issuedDb now holder slot db) rate := by
  refine h.frame ?_ rfl rfl rfl fun ht => ⟨ht, rfl, ?_⟩
  · simp only [Stoker.issuedDb, Db.updateLease, Db.mapLeases_leases, map_map]
    refine map_congr_left fun l _ => ?_
    rw [Function.comp_apply]
    split_ifs
    · unfold issueLease Lease.deal
      split_ifs <;> rfl
    · rfl
  · intro hrun k hk
    obtain ⟨j, hj, rfl⟩ := mem_updateLease.1 hk
    split_ifs
    · simp [issueLease]
    · exact hrun j hj

lemma takeoverShare_pub (slot : ℕ) (share : PublicShare) (l : Lease) :
    (takeoverShare slot share l).share.pub = share := by
  unfold takeoverShare
  split_ifs with h
  · exact h
  · rfl
  · rfl

lemma takeover (h : Split db rate) (now : Time) (slot : ℕ) (ht : db.run.t0 ≠ none) :
    Split (reapportionOnTakeover now slot db) rate := by
  rcases reapportionOnTakeover_eq now slot db with he | ⟨_, shares, _, hb, _, he⟩ <;> rw [he]
  · exact h
  · have hn : ((db.leases.filter (·.state.live)).map (·.slot)).Nodup :=
      h.nodup_slots.sublist (Sublist.map _ filter_sublist)
    have hshares := h.buildShareList_eq hb
    refine h.assign hn ?_ (takeoverShare_pub slot) ?_ rfl rfl rfl ht
    · exact fun share l => congrArg Prod.fst (takeoverShare_ident slot share l)
    · rw [hshares, length_map]

lemma claim {holder : String} {hint : Option ℕ} (h : Split db rate)
    (hc : claimLease now holder hint db = .ok (db', slot)) : Split db' rate := by
  refine claimLease_rule hc (fun a k ha => ?_) (fun a ha => h.upkeep ha)
    (h.issuedDb now holder slot) ?_
  · exact ha.frame rfl rfl rfl rfl fun ht => ⟨ht, rfl, fun hrun => hrun⟩
  · exact fun hset hi => hi.takeover now slot (Option.isSome_iff_ne_none.1 hset)

/-! ### Whole runs -/

lemma tick (h : Split db rate) (cfg : Settings) (boot now : Time) (env : Env) :
    ∃ rate', Split (supervisorTick cfg boot now env db) rate' := by
  refine supervisorTick_deals (I := fun d => ∃ rate', Split d rate') ?_ ?_ ?_ ⟨rate, h⟩
  · rintro a b hm ⟨r, ha⟩
    exact ⟨r, ha.mild hm⟩
  · rintro a shares _ hb ⟨r, ha⟩
    exact ⟨r, ha.partialRelease now hb⟩
  · rintro a b _ _ hr ⟨r, ha⟩
    exact ha.rescale hr

theorem step (cfg : Settings) (a : Action) (h : Split s.db rate) :
    ∃ rate', Split (Sys.step cfg a s).db rate' := by
  have hstep := Sys.step_stored cfg a s
  generalize (Sys.step cfg a s).db = d at hstep ⊢
  cases hstep with
  | quiet hq => exact ⟨rate, h.mild hq.mild⟩
  | launch => exact ⟨rate, h.mild (.finishLaunch _ _ _ _)⟩
  | claim hc => exact ⟨rate, h.claim hc⟩
  | ready hm => exact ⟨rate, h.upkeep (.ready hm)⟩
  | release => exact ⟨rate, h.mild (.finishReady _ _ _ _)⟩
  | heartbeat => exact ⟨rate, h.upkeep (.heartbeat _ _ h.nodup_slots fun _ => rfl)⟩
  | scale hs => exact ⟨rate, h.scale hs⟩
  | rescale _ hr => exact h.rescale hr
  | tick => exact h.tick cfg _ _ _

theorem start (hm : spec.rateMode.paced = true) (hp : provisionRun now spec = .ok db) :
    ∃ rate, Split db rate := by
  obtain ⟨_, shares, hb, rfl⟩ := provisionRun_ok hp
  obtain ⟨rate, hr, hpos, hn, hs⟩ := buildShareList_ok hm hb
  have hlen : (seedLeases shares).length = shares.length := by simp [seedLeases]
  have hshares : shares.length = effectiveWorkers spec.engine spec.workers := by simp [hs]
  refine ⟨rate, ?_, ?_, hm, hr, hpos, nodup_range, ?_, ?_⟩
  · change (seedLeases shares).map (·.slot) = range (seedLeases shares).length
    rw [slots_seedLeases, hlen]
  · change 0 < (seedLeases shares).length
    omega
  · intro d hd _
    obtain ⟨l, hl, rfl⟩ := mem_map.1 hd
    obtain ⟨i, hi, rfl⟩ := mem_mapIdx.1 hl
    have heven : ∀ share ∈ shares, share =
        evenShare spec.rateMode rate (effectiveWorkers spec.engine spec.workers) := by
      rw [hs]
      exact fun share h => eq_of_mem_replicate h
    change shares[i] = evenShare spec.rateMode rate (range shares.length).length
    rw [length_range, hshares]
    exact heven _ (getElem_mem hi)
  · intro _
    refine ⟨(slots_seedLeases shares).symm, rfl, fun l hl => ?_⟩
    obtain ⟨i, _, rfl⟩ := mem_mapIdx.1 hl
    simp

theorem reachable {cfg : Settings} {G : Action → Sys → Prop} {as : List Action}
    (hm : spec.rateMode.paced = true) (hp : provisionRun now spec = .ok db)
    (h : Runs (Sys.step cfg) G (Sys.start db) as s) : ∃ rate, Split s.db rate :=
  h.invariant (I := fun s => ∃ rate, Split s.db rate) (fun a _ _ ⟨_, hs⟩ => hs.step cfg a)
    (start hm hp)

end Split

end Stoker
