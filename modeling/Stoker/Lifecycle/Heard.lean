import Stoker.Lifecycle.Fencing
import Stoker.Server.Trail

/-!
# How a step moves the leases

Every step but a scale keeps the rows and their order. A row is heard from, which stamps it with the
step's instant, or else it keeps its last heartbeat and its state, unless it is closed or given up.
A row that is done stays done, and no row becomes free again.
-/

open List

namespace Stoker

open Transition

/-- Where a row stands: the columns that the statements below speak of. -/
def Lease.standing (l : Lease) : ℕ × ℕ × LeaseState × Option Time :=
  (l.id, l.slot, l.state, l.lastHeartbeatAt)

/-- One row before and after a step. -/
structure Lease.Goes (a : Action) (l l' : Lease) : Prop where
  id : l'.id = l.id
  slot : l'.slot = l.slot
  closed : l.state = .done → l'.state = .done
  free : l'.state = .free → l.state = .free
  heard : (l'.lastHeartbeatAt = some a.time ∧
      (l'.state = .free → a.carries = some (l.slot, l.leaseId))) ∨
    (l'.lastHeartbeatAt = l.lastHeartbeatAt ∧
      (l'.state = l.state ∨ l'.state = .done ∨ l'.state = .lost))

namespace Lease.Goes

variable {a : Action} {l l' : Lease}

lemma refl (a : Action) (l : Lease) : Goes a l l :=
  ⟨rfl, rfl, fun h => h, fun h => h, .inr ⟨rfl, .inl rfl⟩⟩

lemma of_wanes (h : l.Wanes l') : Goes a l l' := by
  refine ⟨h.id, h.slot, h.done_iff.2, fun hf => ?_, .inr ⟨h.lastHeartbeatAt, ?_⟩⟩
  · rcases h.state with hs | ⟨hs, _⟩
    · exact hs ▸ hf
    · rw [hs] at hf
      cases hf
  · rcases h.state with hs | ⟨hs, _⟩
    · exact .inl hs
    · exact .inr (.inr hs)

/-- A row that only fades, at a step that no heartbeat comes with. -/
lemma of_fades (h : l.Fades l') (hb : l'.lastHeartbeatAt = l.lastHeartbeatAt)
    (hd : l.state = .done → l'.state = .done) : Goes a l l' := by
  refine ⟨h.id, h.slot, hd, fun hf => ?_, .inr ⟨hb, ?_⟩⟩
  · rcases h.state with hs | hs | hs <;> rw [hs] at hf
    · exact hf
    · cases hf
    · cases hf
  · rcases h.state with hs | hs | hs
    · exact .inl hs
    · exact .inr (.inr hs)
    · exact .inr (.inl hs)

lemma congr {l'' : Lease} (h : Goes a l l') (hs : l''.standing = l'.standing) : Goes a l l'' := by
  obtain ⟨hid, hslot, hstate, hb⟩ : l''.id = l'.id ∧ l''.slot = l'.slot ∧ l''.state = l'.state ∧
      l''.lastHeartbeatAt = l'.lastHeartbeatAt := by
    simpa [standing] using hs
  refine ⟨hid.trans h.id, hslot.trans h.slot, ?_, ?_, ?_⟩
  · rw [hstate]
    exact h.closed
  · rw [hstate]
    exact h.free
  · rw [hstate, hb]
    exact h.heard

lemma forceFinal (l : Lease) : Goes a l (forceFinal l) := by
  refine of_fades (Lease.Fades.forceFinal l) ?_ ?_
  · unfold Stoker.forceFinal
    split_ifs <;> rfl
  · intro hd
    simp [Stoker.forceFinal, hd, LeaseState.live]

end Lease.Goes

/-! ### Rows -/

/-- The rows go on one by one. -/
def Go (a : Action) (ls ls' : List Lease) : Prop := List.Forall₂ (Lease.Goes a) ls ls'

variable {slot : ℕ}

namespace Go

variable {a : Action} {db db' : Db}

lemma refl (a : Action) (ls : List Lease) : Go a ls ls :=
  forall₂_same.2 fun l _ => Lease.Goes.refl a l

variable {ls : List Lease} {ls' : List Lease} {f : Lease → Lease}

lemma of_map (hf : ∀ l ∈ ls, Lease.Goes a l (f l)) : Go a ls (ls.map f) :=
  forall₂_map_right_iff.2 (forall₂_same.2 hf)

lemma of_wane (h : Wane ls ls') : Go a ls ls' :=
  List.Forall₂.imp (fun _ _ => Lease.Goes.of_wanes) h

lemma congr {ls'' : List Lease} (h : Go a ls ls')
    (hs : ls''.map Lease.standing = ls'.map Lease.standing) : Go a ls ls'' := by
  have hsame : List.Forall₂ (fun l' l'' : Lease => l''.standing = l'.standing) ls' ls'' := by
    rw [← forall₂_eq_eq_eq, forall₂_map_left_iff, forall₂_map_right_iff] at hs
    exact hs.flip
  refine forall₂_comp (R := Lease.Goes a) (T := Lease.Goes a) ?_ h hsame
  exact fun _ _ _ hg he => hg.congr he

lemma update {l : Lease} (hn : (db.leases.map (·.slot)).Nodup) (hl : db.findLease slot = some l)
    (hf : Lease.Goes a l (f l)) : Go a db.leases (db.updateLease slot f).leases := by
  refine of_map fun k hk => ?_
  by_cases hs : k.slot = slot
  · rw [if_pos hs, findLease_unique hn hl hk hs]
    exact hf
  · rw [if_neg hs]
    exact Lease.Goes.refl a k

lemma slots (h : Go a ls ls') : ls'.map (·.slot) = ls.map (·.slot) :=
  forall₂_map_eq (fun _ _ hl => hl.slot) h

lemma exists_of_mem (h : Go a ls ls') {l' : Lease} (hl : l' ∈ ls') :
    ∃ l ∈ ls, Lease.Goes a l l' :=
  forall₂_exists_of_mem h hl

end Go

/-! ### Requests of workers -/

section

variable {now : Time} {db db' : Db}

lemma findLease_of_mem (hn : (db.leases.map (·.slot)).Nodup) {l : Lease} (hl : l ∈ db.leases) :
    db.findLease l.slot = some l := by
  unfold Db.findLease
  cases hf : db.leases.find? (·.slot = l.slot) with
  | none => simpa using find?_eq_none.1 hf l hl
  | some k =>
    obtain ⟨hk, hks⟩ := findLease_some hf
    rw [inj_on_of_nodup_map hn hk hl hks]

/-- A takeover moves shares only. -/
lemma reapportionOnTakeover_standing (now : Time) (slot : ℕ) (db : Db) :
    (reapportionOnTakeover now slot db).leases.map Lease.standing =
      db.leases.map Lease.standing := by
  refine reapportionOnTakeover_map now db fun share l => ?_
  unfold takeoverShare
  split_ifs <;> rfl

lemma claimLease_go {holder : String} {hint : Option ℕ}
    (hn : (db.leases.map (·.slot)).Nodup) (h : claimLease now holder hint db = .ok (db', slot)) :
    Go (.claim now holder hint) db.leases db'.leases := by
  obtain ⟨_, ⟨held, hh, _, hlive, rfl, rfl⟩ | ⟨lease, hc, rfl, _, rfl⟩⟩ := claimLease_ok h
  · refine Go.update hn (findLease_of_mem hn hh) ⟨rfl, rfl, id, id, .inl ⟨rfl, ?_⟩⟩
    intro hf
    have hfree : held.state = .free := hf
    rw [hfree] at hlive
    cases hlive
  · obtain ⟨hl, hclaim⟩ := nextClaimable_some hc
    have hissued : Go (.claim now holder hint) db.leases
        (issuedDb now holder lease.slot db).leases := by
      refine Go.update hn (findLease_of_mem hn hl) ⟨rfl, rfl, ?_, ?_, .inl ⟨rfl, ?_⟩⟩
      · intro hd
        rw [hd] at hclaim
        cases hclaim
      · rintro ⟨⟩
      · rintro ⟨⟩
    split_ifs
    · exact hissued.congr (reapportionOnTakeover_standing now lease.slot _)
    · exact hissued

lemma markReady_go {leaseId : Option LeaseId} (hn : (db.leases.map (·.slot)).Nodup)
    (h : markReady now slot leaseId db = .ok db') :
    Go (.ready now slot leaseId) db.leases db'.leases := by
  obtain ⟨lease, hl, hid, hls, _⟩ := markReady_ok h
  rw [hls]
  have hs : (readyLease now lease).state = lease.state ∨ (readyLease now lease).state = .ready := by
    unfold readyLease
    split_ifs
    · exact .inr rfl
    · exact .inl rfl
  refine Go.update hn hl ⟨rfl, rfl, ?_, ?_, .inl ⟨rfl, ?_⟩⟩
  · intro hd
    simp [readyLease, hd]
  · intro hf
    rcases hs with hs | hs
    · exact hs ▸ hf
    · rw [hs] at hf
      cases hf
  · intro _
    simp [Action.carries, hid, (findLease_some hl).2]

lemma heartbeatCommand_renewed (now : Time) (run : Run) (hb : Heartbeat) (l : Lease) :
    (heartbeatCommand now run hb.protocolVersion (renewLease now hb l)).lease.id = l.id ∧
    (heartbeatCommand now run hb.protocolVersion (renewLease now hb l)).lease.lastHeartbeatAt =
      some now := by
  have hrenew : (renewLease now hb l).id = l.id ∧
      (renewLease now hb l).lastHeartbeatAt = some now := by
    unfold renewLease storeEngineReport storeAssignedWork
    cases hb.assignedWork <;> cases hb.engineImpl.bind EngineImpl.parse <;> exact ⟨rfl, rfl⟩
  obtain ⟨-, -, hid, hat⟩ := heartbeatCommand_frame now run hb.protocolVersion (renewLease now hb l)
  exact ⟨hid.trans hrenew.1, hat.trans hrenew.2⟩

lemma recordHeartbeat_go (now : Time) (hb : Heartbeat) (hn : (db.leases.map (·.slot)).Nodup) :
    Go (.heartbeat now hb) db.leases (recordHeartbeat now hb db).1.leases := by
  rcases recordHeartbeat_cases now hb db with ⟨h, _⟩ | ⟨lease, hl, hid, d, rfl, _, hls, _⟩
  · rw [h]
    exact Go.refl _ _
  · rw [hls]
    obtain ⟨hkey, hat⟩ := heartbeatCommand_renewed now db.run hb lease
    have hslot := congrArg Prod.fst (answered_ident now db.run hb.protocolVersion hb lease)
    have hstate := answered_state now db.run hb.protocolVersion hb lease
    refine Go.update hn hl ⟨hkey, hslot, ?_, ?_, .inl ⟨hat, ?_⟩⟩
    · intro hd
      rcases hstate with hs | ⟨_, hs, _⟩ | ⟨hs | hs, _⟩
      · exact hs.trans hd
      all_goals
        rw [hd] at hs
        cases hs
    · intro hf
      rcases hstate with hs | ⟨_, _, hs⟩ | ⟨_, _, hs⟩
      · exact hs ▸ hf
      · rw [hs] at hf
        split_ifs at hf
      · rw [hs] at hf
        cases hf
    · intro _
      simp [Action.carries, hid, (findLease_some hl).2]

lemma recordFinal_go {f : Final} (hn : (db.leases.map (·.slot)).Nodup)
    (h : recordFinal now f db = .ok db') : Go (.final now f) db.leases db'.leases := by
  obtain ⟨lease, hl, ⟨_, _, _, rfl⟩ | ⟨_, ⟨_, rfl⟩ | ⟨_, totals, _, rfl⟩⟩⟩ := recordFinal_ok h
  · exact Go.refl _ _
  · rw [maybeCompleteRun_leases]
    exact Go.update hn hl ⟨rfl, rfl, fun h => h, fun h => h, .inr ⟨rfl, .inl rfl⟩⟩
  · rw [maybeCompleteRun_leases]
    have hclose : (closeFinal now f totals db).leases = (db.updateLease f.slot fun l =>
        { l with finalLogTail := some f.logTail, state := .done }).leases := by
      simp only [closeFinal, logFinal, Db.updateLease, Db.mapLeases, Db.appendEvent, map_map]
      refine map_congr_left fun l _ => ?_
      by_cases hs : l.slot = f.slot
      · simp [hs]
      · simp [hs]
    rw [hclose]
    exact Go.update hn hl ⟨rfl, rfl, fun _ => rfl, fun h => (by cases h),
      .inr ⟨rfl, .inr (.inl rfl)⟩⟩

end

/-! ### Steps -/

variable {now : Time} {env : Env} {db db' : Db}

lemma stopRun_go {force : Bool} {a : Action} (h : stopRun now force env db = .ok db') :
    Go a db.leases db'.leases := by
  have hbegin : (beginStop now env db).leases = db.leases := by simp [beginStop]
  rcases stopRun_ok h with ⟨_, rfl⟩ | ⟨_, ⟨_, rfl⟩ | ⟨_, totals, _, rfl⟩⟩
  · exact Go.refl _ _
  · rw [hbegin]
    exact Go.refl _ _
  · rw [maybeCompleteRun_leases]
    have hforce : (forceStop now env totals db).leases = db.leases.map forceFinal := by
      simp [forceStop, hbegin]
    rw [hforce]
    exact Go.of_map fun l _ => Lease.Goes.forceFinal l

lemma extendDriverDeadline_leases (now : Time) (env : Env) (db : Db) :
    (extendDriverDeadline now env db).leases = db.leases := by
  unfold extendDriverDeadline
  split
  · exact driverCall_leases _ _ _ _
  · rfl

theorem Sys.step_go (cfg : Settings) (a : Action) {s : Sys} (hs : s.registry.Sound) :
    Go a s.db.leases (Sys.step cfg a s).db.leases ∨
    ∃ now workers env, a = .scale now workers env ∧
      scaleRunEndpoint now workers env s.db = .ok (Sys.step cfg a s).db := by
  have hn := Sys.nodup_slots hs
  have hstep := Sys.step_happens cfg a s
  generalize Sys.step cfg a s = t at hstep ⊢
  cases hstep with
  | idle | release => exact .inl (Go.refl _ _)
  | @launch now result loaded =>
    rw [(finishLaunch_frame now result loaded s.db).1]
    exact .inl (Go.refl _ _)
  | claim h => exact .inl (claimLease_go hn h)
  | ready h => exact .inl (markReady_go hn h)
  | heartbeat => exact .inl (recordHeartbeat_go _ _ hn)
  | final h => exact .inl (recordFinal_go hn h)
  | stop h => exact .inl (stopRun_go h)
  | pause h =>
    obtain ⟨_, rfl⟩ := pauseRun_ok h
    rw [extendDriverDeadline_leases, transitionRun_leases]
    exact .inl (Go.refl _ _)
  | resume h =>
    obtain ⟨_, rfl⟩ := resumeRun_ok h
    rw [extendDriverDeadline_leases, transitionRun_leases]
    exact .inl (Go.refl _ _)
  | scale h => exact .inr ⟨_, _, _, rfl, h⟩
  | rescale _ h => exact .inl (Go.of_wane (Overseen.rescale h).leases)
  | tick => exact .inl (Go.of_wane (supervisorTick_overseen cfg _ _ _ s.db).leases)
  | reconcile => exact .inl (Go.of_wane (Overseen.reconcile _ _ s.db).leases)

lemma scale_rows {workers : ℕ} (h : scaleRunEndpoint now workers env db = .ok db') {l' : Lease}
    (hl : l' ∈ db'.leases) :
    (∃ l ∈ db.leases, l'.standing = l.standing) ∨
    (l'.state = .free ∧ l'.lastHeartbeatAt = none) := by
  obtain ⟨_, _, shares, _, rfl⟩ := scaleRunEndpoint_ok h
  obtain ⟨k, hk, rfl⟩ := mem_map.1 hl
  have hstand : (reshare shares k).standing = k.standing := by
    unfold reshare
    split
    · rfl
    · split_ifs <;> rfl
  have hrow : k ∈ db.leases ∨ (k.state = .free ∧ k.lastHeartbeatAt = none) := by
    simp only [resizeLeases] at hk
    split_ifs at hk
    · rcases mem_append.1 hk with hk | hk
      · exact .inl hk
      · obtain ⟨i, _, rfl⟩ := mem_map.1 hk
        exact .inr ⟨rfl, rfl⟩
    · exact .inl (mem_filter.1 hk).1
  rcases hrow with hk | hk
  · exact .inl ⟨k, hk, hstand⟩
  · obtain ⟨_, _, hstate, hb⟩ : (reshare shares k).id = k.id ∧ (reshare shares k).slot = k.slot ∧
        (reshare shares k).state = k.state ∧
        (reshare shares k).lastHeartbeatAt = k.lastHeartbeatAt := by
      simpa [Lease.standing] using hstand
    exact .inr ⟨hstate.trans hk.1, hb.trans hk.2⟩

end Stoker
