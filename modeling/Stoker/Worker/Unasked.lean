import Stoker.Lifecycle.Fencing

/-!
# Steps no worker asked for

What the operator, the supervisor and the rest of a launch or of a ready post can do to the leases
while their workers look away: rows keep who they belong to, none becomes live, and a share that
changes is marked to be pushed, or the lease was not live and its id is noted as `silent`.
-/

open List

namespace Stoker

open Transition

/-- The steps a worker's request takes. -/
def Action.byWorker : Action → Bool
  | .claim .. | .ready .. | .heartbeat .. | .final .. => true
  | _ => false

structure Lease.Ages (silent : List LeaseId) (l l' : Lease) : Prop where
  ident : l'.ident = l.ident
  state : l'.state = l.state ∨ l'.state.live = false
  share : (l'.share.pub = l.share.pub ∧ l'.share.retarget = l.share.retarget) ∨
    l'.share.retarget = true ∨ l'.leaseId ∈ silent

/-- Rows are new or have aged; the lease ids noted as silent belong to leases that are not live. -/
structure Ages (db db' : Db) : Prop where
  leases : ∀ l' ∈ db'.leases, (db.nextId ≤ l'.leaseId ∧ l'.state.live = false) ∨
    ∃ l ∈ db.leases, Lease.Ages db'.hist.silent l l'
  nextId : db.nextId ≤ db'.nextId
  silent : ∀ id ∈ db.hist.silent, id ∈ db'.hist.silent
  loud : ∀ l' ∈ db'.leases, l'.state.live = true → l'.leaseId ∈ db'.hist.silent →
    l'.leaseId ∈ db.hist.silent
  generated : (∀ id ∈ db.hist.silent, id < db.nextId) → ∀ id ∈ db'.hist.silent, id < db'.nextId
  t0 : db'.run.t0 = none → db.run.t0 = none

namespace Lease.Ages

variable {silent silent' : List LeaseId} {l l' l'' : Lease}

lemma leaseId (h : Ages silent l l') : l'.leaseId = l.leaseId := congrArg (·.2.1) h.ident

lemma refl (silent : List LeaseId) (l : Lease) : Ages silent l l :=
  ⟨rfl, .inl rfl, .inl ⟨rfl, rfl⟩⟩

lemma of_fades (silent : List LeaseId) (h : Fades l l') : Ages silent l l' := by
  refine ⟨h.ident, ?_, .inl ⟨by rw [h.share], by rw [h.share]⟩⟩
  rcases h.state with h | h | h
  · exact .inl h
  · exact .inr (by rw [h]; rfl)
  · exact .inr (by rw [h]; rfl)

lemma trans (hs : ∀ id ∈ silent, id ∈ silent') (h : Ages silent l l') (h' : Ages silent' l' l'') :
    Ages silent' l l'' := by
  refine ⟨h'.ident.trans h.ident, ?_, ?_⟩
  · rcases h'.state with h₂ | h₂
    · rw [h₂]
      exact h.state
    · exact .inr h₂
  · rcases h'.share with ⟨hp, hr⟩ | h₂
    · rw [hp, hr, h'.leaseId]
      rcases h.share with h₁ | h₁ | h₁
      · exact .inl h₁
      · exact .inr (.inl h₁)
      · exact .inr (.inr (hs _ h₁))
    · exact .inr h₂

end Lease.Ages

namespace Ages

variable {db db' db'' : Db}

/-- Rows that age where no id is noted. -/
lemma of_rows (hl : ∀ l' ∈ db'.leases, ∃ l ∈ db.leases, Lease.Ages db'.hist.silent l l')
    (hn : db'.nextId = db.nextId) (hs : db'.hist.silent = db.hist.silent)
    (ht : db'.run.t0 = none → db.run.t0 = none) : Ages db db' := by
  refine ⟨fun l' h => .inr (hl l' h), hn.ge, ?_, ?_, ?_, ht⟩
  · rw [hs]
    exact fun _ h => h
  · rw [hs]
    exact fun _ _ _ h => h
  · rw [hs, hn]
    exact fun h => h

lemma mild (h : Mild db db') : Ages db db' := by
  refine of_rows ?_ h.nextId (by rw [h.hist]) fun ht => (h.unreleased ht).1
  intro l' hl'
  obtain ⟨l, hl, hf⟩ := h.leases.exists_of_mem hl'
  exact ⟨l, hl, Lease.Ages.of_fades _ hf⟩

lemma refl (db : Db) : Ages db db := mild (Quiet.refl db).mild

lemma trans (h : Ages db db') (h' : Ages db' db'') : Ages db db'' := by
  refine ⟨?_, h.nextId.trans h'.nextId, fun id hid => h'.silent id (h.silent id hid), ?_,
    fun hg => h'.generated (h.generated hg), fun ht => h.t0 (h'.t0 ht)⟩
  · intro l'' hl''
    rcases h'.leases l'' hl'' with ⟨hid, hst⟩ | ⟨l', hl', ha'⟩
    · exact .inl ⟨h.nextId.trans hid, hst⟩
    · rcases h.leases l' hl' with ⟨hid, hst⟩ | ⟨l, hl, ha⟩
      · refine .inl ⟨by rw [ha'.leaseId]; exact hid, ?_⟩
        rcases ha'.state with h₂ | h₂
        · rw [h₂, hst]
        · exact h₂
      · exact .inr ⟨l, hl, ha.trans h'.silent ha'⟩
  · intro l'' hl'' hlive hid
    have hid' := h'.loud l'' hl'' hlive hid
    rcases h'.leases l'' hl'' with ⟨_, hst⟩ | ⟨l', hl', ha'⟩
    · rw [hst] at hlive
      cases hlive
    · rcases ha'.state with h₂ | h₂
      · rw [h₂] at hlive
        rw [ha'.leaseId] at hid' ⊢
        exact h.loud l' hl' hlive hid'
      · rw [h₂] at hlive
        cases hlive

lemma partialRelease (now : Time) (shares : List PublicShare) (db : Db) :
    Ages db (partialRelease now shares db) := by
  refine of_rows ?_ ?_ ?_ ?_
  · intro l' hl'
    rw [partialRelease_leases] at hl'
    obtain ⟨k, hk, hk'⟩ := mem_assignShares hl'
    obtain ⟨l, hl, rfl⟩ := mem_map.1 hk
    have ha := Lease.Ages.of_fades (Stoker.partialRelease now shares db).hist.silent
      (Lease.Fades.declareLost l)
    refine ⟨l, hl, ?_⟩
    rcases hk' with rfl | ⟨share, _, rfl⟩
    · exact ha
    · exact ha.trans (fun _ h => h) ⟨rfl, .inl rfl, .inr (.inl rfl)⟩
  all_goals simp

/-- New shares for every row: a live worker is told, any other lease's id is noted. -/
lemma reshareAll (shares : List PublicShare) (hid : ∀ l ∈ db.leases, l.leaseId < db.nextId)
    (hnd : (db.leases.map (·.leaseId)).Nodup) : Ages db (reshareAll shares db) := by
  refine ⟨?_, le_rfl, fun id h => mem_append_right _ h, ?_, ?_, fun h => h⟩
  · intro l' hl'
    obtain ⟨l, hl, rfl⟩ := mem_map.1 hl'
    refine .inr ⟨l, hl, reshare_ident shares l, .inl (reshare_state shares l), ?_⟩
    by_cases hlive : l.state.live = true
    · rcases reshare_live shares hlive with h | ⟨share, h⟩ <;> rw [h]
      · exact .inl ⟨rfl, rfl⟩
      · exact .inr (.inl rfl)
    · refine .inr (.inr (mem_append_left _ (mem_map.2 ⟨l, ?_, ?_⟩)))
      · exact mem_filter.2 ⟨hl, by simpa using hlive⟩
      · exact congrArg (·.2.1) (reshare_ident shares l).symm
  · -- a live row is none of those noted, because no other row has its id
    intro l' hl' hlive hmem
    obtain ⟨l, hl, rfl⟩ := mem_map.1 hl'
    rw [reshare_state] at hlive
    rcases mem_append.1 hmem with hmem | hmem
    · obtain ⟨k, hk, hkid⟩ := mem_map.1 hmem
      obtain ⟨hk, hdead⟩ := mem_filter.1 hk
      have hleq : (reshare shares l).leaseId = l.leaseId :=
        congrArg (·.2.1) (reshare_ident shares l)
      have hkl : k = l := inj_on_of_nodup_map hnd hk hl (hkid.trans hleq)
      rw [hkl, hlive] at hdead
      cases hdead
    · exact hmem
  · intro hs id hmem
    rcases mem_append.1 hmem with hmem | hmem
    · obtain ⟨k, hk, rfl⟩ := mem_map.1 hmem
      exact hid k (mem_filter.1 hk).1
    · exact hs id hmem

lemma rescale {now : Time} {rate : Option ℚ} (h : rescaleRun now rate db = .ok db')
    (hid : ∀ l ∈ db.leases, l.leaseId < db.nextId) (hnd : (db.leases.map (·.leaseId)).Nodup) :
    Ages db db' := by
  rcases rescaleRun_ok h with rfl | ⟨_, _, shares, _, rfl⟩
  · exact refl _
  · have hr := reshareAll shares hid hnd
    exact ⟨hr.leases, hr.nextId, hr.silent, hr.loud, hr.generated, hr.t0⟩

lemma resize (workers : ℕ) (db : Db) : Ages db (resizeLeases workers db) := by
  refine ⟨?_, Nat.le_add_right _ _, fun _ h => h, fun _ _ _ h => h, ?_, fun h => h⟩
  · intro l' hl'
    simp only [resizeLeases] at hl'
    split_ifs at hl'
    · rcases mem_append.1 hl' with hl' | hl'
      · exact .inr ⟨l', hl', Lease.Ages.refl _ l'⟩
      · obtain ⟨i, _, rfl⟩ := mem_map.1 hl'
        exact .inl ⟨Nat.le_add_right _ _, rfl⟩
    · exact .inr ⟨l', (mem_filter.1 hl').1, Lease.Ages.refl _ l'⟩
  · exact fun hs id hmem => (hs id hmem).trans_le (Nat.le_add_right _ _)

end Ages

/-! ### Ids of the rows -/

/-- Every row has an id of its own, and all of them were generated. -/
def IdsSound (db : Db) : Prop :=
  (∀ l ∈ db.leases, l.leaseId < db.nextId) ∧ (db.leases.map (·.leaseId)).Nodup

variable {db : Db}

lemma IdsSound.kept {db' : Db} (h : IdsSound db) (hk : IdentKept db db') : IdsSound db' := by
  have hids : db'.leases.map (·.leaseId) = db.leases.map (·.leaseId) := by
    have := congrArg (map (fun p : ℕ × LeaseId × Option String => p.2.1)) hk.1
    rwa [map_map, map_map] at this
  refine ⟨fun l hl => ?_, by rw [hids]; exact h.2⟩
  have hmem : l.leaseId ∈ db.leases.map (·.leaseId) := hids ▸ mem_map_of_mem hl
  obtain ⟨k, hk', hkid⟩ := mem_map.1 hmem
  rw [← hkid, hk.2]
  exact h.1 k hk'

lemma IdsSound.of_registry {issued : List (String × LeaseId)}
    (h : (⟨db.leases.map Lease.ident, db.nextId, issued⟩ : Registry String).Sound) :
    IdsSound db := by
  refine ⟨fun l hl => h.generated _ (mem_map_of_mem hl), ?_⟩
  have := h.ids
  rwa [map_map] at this

/-! ### The steps -/

namespace Ages

variable {s : Sys} {db : Db}

lemma scale {now : Time} {workers : ℕ} {env : Env} (hs : s.registry.Sound)
    (h : scaleRunEndpoint now workers env s.db = .ok db) : Ages s.db db := by
  have hsound : IdsSound db := IdsSound.of_registry (hs.move (scale_move h))
  obtain ⟨_, _, shares, _, rfl⟩ := scaleRunEndpoint_ok h
  have hk := IdentKept.reshareAll shares (resizeLeases workers s.db)
  have hres : IdsSound (resizeLeases workers s.db) := hsound.kept ⟨hk.1.symm, hk.2.symm⟩
  have hr := (resize workers s.db).trans (reshareAll shares hres.1 hres.2)
  exact ⟨hr.leases, hr.nextId, hr.silent, hr.loud, hr.generated, hr.t0⟩

lemma tick (cfg : Settings) (boot now : Time) (env : Env) (h : IdsSound db) :
    Ages db (supervisorTick cfg boot now env db) := by
  refine (supervisorTick_deals (I := fun d => IdsSound d ∧ Ages db d) ?_ ?_ ?_ ⟨h, refl db⟩).2
  · exact fun a b hm ha => ⟨ha.1.kept (.of_mild hm), ha.2.trans (mild hm)⟩
  · exact fun a shares _ _ ha =>
      ⟨ha.1.kept (.partialRelease now shares a), ha.2.trans (partialRelease now shares a)⟩
  · exact fun a b _ _ hr ha => ⟨ha.1.kept (.rescale hr), ha.2.trans (rescale hr ha.1.1 ha.1.2)⟩

/-- Every step that no worker asked for only ages the rows. -/
theorem step (cfg : Settings) {a : Action} (hs : s.registry.Sound) (ha : a.byWorker = false) :
    Ages s.db (Sys.step cfg a s).db := by
  have hids : IdsSound s.db := IdsSound.of_registry hs
  have hstep := Sys.step_stored cfg a s
  generalize (Sys.step cfg a s).db = db at hstep ⊢
  cases hstep with
  | quiet hq => exact mild hq.mild
  | launch => exact mild (.finishLaunch _ _ _ s.db)
  | claim | ready | heartbeat => cases ha
  | release => exact mild (.finishReady _ _ _ s.db)
  | scale h => exact scale hs h
  | rescale _ h => exact rescale h hids.1 hids.2
  | tick => exact tick cfg _ _ _ hids

end Ages

end Stoker
