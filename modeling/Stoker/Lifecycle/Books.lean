import Stoker.Lifecycle.Heard
import Stoker.Server.Shown

/-!
# How a step moves the books

What is shown of a run is computed from three things: the totals that are folded, the samples, and
for every slot whether its lease is done. Most steps leave all three alone. A heartbeat of a slot
holder adds a sample. A final that is taken is folded and closes its lease. A forced stop folds what
is pending and closes the live leases. A scale adds rows or deletes them, and touches neither totals
nor samples.
-/

open List

namespace Stoker

open Transition

/-- What the books say of a row: its slot, and whether it is closed. -/
def Lease.entry (l : Lease) : ℕ × Bool := (l.slot, decide (l.state = .done))

def Db.book (db : Db) : List (ℕ × Bool) := db.leases.map Lease.entry

/-- A heartbeat is its slot holder's. -/
def Db.hears (hb : Heartbeat) (db : Db) : Bool := isLeaseHolder (db.findLease hb.slot) hb.leaseId

/-- A final is taken: its slot is known and not closed, its lease id is absent or the holder's, and
it can be folded. -/
def Db.takes (f : Final) (db : Db) : Bool :=
  (db.findLease f.slot).any (fun l => decide (l.state ≠ .done) &&
    (f.leaseId.isNone || isLeaseHolder (some l) f.leaseId)) &&
  (foldTotals db.run.totals f.summary).isOk

/-- The step reports something: a heartbeat that is heard, or a final that is taken. -/
def Action.reports (a : Action) (db : Db) : Bool :=
  match a with
  | .heartbeat _ hb => db.hears hb
  | .final _ f => db.takes f
  | _ => false

/-- The books are left as they are. -/
structure Unbooked (db db' : Db) : Prop where
  totals : db'.run.totals = db.run.totals
  samples : db'.samples = db.samples
  book : db'.book = db.book

namespace Unbooked

variable {now : Time} {db db' db'' : Db}

lemma refl (db : Db) : Unbooked db db := ⟨rfl, rfl, rfl⟩

lemma trans (h : Unbooked db db') (h' : Unbooked db' db'') : Unbooked db db'' :=
  ⟨h'.totals.trans h.totals, h'.samples.trans h.samples, h'.book.trans h.book⟩

variable {ls ls' : List Lease} {leaseId : Option LeaseId}

lemma book_of_wane (h : Wane ls ls') :
    ls'.map Lease.entry = ls.map Lease.entry :=
  forall₂_map_eq (fun _ _ hl => by simp only [Lease.entry, hl.slot, hl.done_iff]) h

lemma of_overseen {K : EventKind → Prop} (h : Overseen K now db db') : Unbooked db db' :=
  ⟨h.totals, h.samples, book_of_wane h.leases⟩

variable {slot : ℕ}

lemma book_of_upkeep (h : Upkeep slot leaseId db db') : db'.book = db.book :=
  forall₂_map_eq (fun _ _ hl => by simp only [Lease.entry, hl.slot_eq, hl.done_iff]) h.leases

lemma book_update {l : Lease} {f : Lease → Lease} (hn : (db.leases.map (·.slot)).Nodup)
    (hl : db.findLease slot = some l) (hf : (f l).entry = l.entry) :
    (db.updateLease slot f).book = db.book := by
  unfold Db.book Db.updateLease Db.mapLeases
  rw [map_map]
  refine map_congr_left fun k hk => ?_
  by_cases hs : k.slot = slot
  · simp only [Function.comp_apply, hs, if_true]
    rw [findLease_unique hn hl hk hs, hf]
  · simp only [Function.comp_apply, hs, if_false]

lemma book_of_standing (h : ls'.map Lease.standing = ls.map Lease.standing) :
    ls'.map Lease.entry = ls.map Lease.entry := by
  have hentry : Lease.entry = (fun x => (x.2.1, decide (x.2.2.1 = .done))) ∘ Lease.standing := rfl
  rw [hentry, ← map_map, ← map_map, h]

lemma claim {holder : String} {hint : Option ℕ} (hn : (db.leases.map (·.slot)).Nodup)
    (h : claimLease now holder hint db = .ok (db', slot)) : Unbooked db db' := by
  refine ⟨by rw [claimLease_run h], ?_, ?_⟩
  all_goals obtain ⟨_, ⟨held, hh, _, hlive, rfl, rfl⟩ | ⟨lease, hc, rfl, _, rfl⟩⟩ := claimLease_ok h
  · rfl
  · rw [Db.appendEvent_samples]
    split_ifs
    · exact (reapportionOnTakeover_frame now lease.slot _).2.2.1
    · rfl
  · exact book_of_upkeep (.again now held.slot _ db)
  · obtain ⟨hl, hclaim⟩ := nextClaimable_some hc
    have hissued : (issuedDb now holder lease.slot db).book = db.book := by
      refine book_update hn (findLease_of_mem hn hl) ?_
      have hdone : lease.state ≠ .done := by
        intro hd
        rw [hd] at hclaim
        cases hclaim
      simp [Lease.entry, issueLease, hdone]
    split_ifs
    · exact (book_of_standing (reapportionOnTakeover_standing now lease.slot _)).trans hissued
    · exact hissued

lemma ready (h : markReady now slot leaseId db = .ok db') : Unbooked db db' := by
  obtain ⟨lease, hl, _, _, hrun, _⟩ := markReady_ok h
  refine ⟨by rw [hrun], ?_, book_of_upkeep (.ready h)⟩
  unfold markReady at h
  rw [hl] at h
  dsimp only at h
  split_ifs at h <;> cases h <;> rfl

lemma launch (now : Time) (result : LaunchResult) (loaded : Run) (db : Db) :
    Unbooked db (finishLaunch now result loaded db) := by
  refine ⟨?_, ?_, ?_⟩
  · cases result <;> simp [finishLaunch, Run.flush]
  · cases result <;> simp [finishLaunch]
  · unfold Db.book
    rw [(finishLaunch_frame now result loaded db).1]

lemma release (now : Time) (loaded : Run) (own : Lease) (db : Db) :
    Unbooked db (finishReady now loaded own db) := by
  have hview := Overseen.evaluateRelease now false { db with
    run := loaded, leases := db.leases.map fun l => if l.id = own.id then own else l }
  refine ⟨?_, hview.samples, rfl⟩
  have htotals := hview.totals
  simp [finishReady, Run.flush, htotals]

end Unbooked

/-! ### Steps that are booked -/

/-- The rows of a fleet that is resized. -/
def resizeBook (workers : ℕ) (book : List (ℕ × Bool)) : List (ℕ × Bool) :=
  if book.length < workers then
    book ++ (range (workers - book.length)).map fun i => (book.length + i, false)
  else book.filter (·.1 < workers)

def closeEntry (slot : ℕ) (e : ℕ × Bool) : ℕ × Bool := if e.1 = slot then (e.1, true) else e

/-- What a step does to the books. -/
inductive Booked (a : Action) (db db' : Db) : Prop where
  | kept (silent : a.reports db = false) (h : Unbooked db db')
  | heard {now : Time} {hb : Heartbeat} (action : a = .heartbeat now hb)
      (heard : db.hears hb = true)
      (totals : db'.run.totals = db.run.totals)
      (samples : db'.samples = db.samples ++ [⟨hb.slot, now, hb.counters⟩])
      (book : db'.book = db.book)
  | closed {now : Time} {f : Final} (action : a = .final now f) (taken : db.takes f = true)
      (folded : foldTotals db.run.totals f.summary = .ok db'.run.totals)
      (samples : db'.samples = db.samples)
      (book : db'.book = db.book.map (closeEntry f.slot))
  | forced {now : Time} {env : Env} (action : a = .stop now true env)
      (folded : foldHeartbeatTotals db = .ok db'.run.totals) (samples : db'.samples = db.samples)
      (book : db'.book = db.leases.map fun l => (l.slot, l.state.live || decide (l.state = .done)))
  | resized {now : Time} {workers : ℕ} {env : Env} (action : a = .scale now workers env)
      (totals : db'.run.totals = db.run.totals) (samples : db'.samples = db.samples)
      (book : db'.book = resizeBook workers db.book)

variable {db db' : Db} {s : Sys} {now : Time} {env : Env}

lemma recordHeartbeat_stores (now : Time) {hb : Heartbeat} {lease : Lease}
    (hl : db.findLease hb.slot = some lease) (hid : hb.leaseId = some lease.leaseId) :
    (recordHeartbeat now hb db).1.run.totals = db.run.totals ∧
      (recordHeartbeat now hb db).1.samples = db.samples ++ [⟨hb.slot, now, hb.counters⟩] := by
  have hstored : ∀ l, (storeHeartbeat now hb l db).run = db.run ∧
      (storeHeartbeat now hb l db).samples = db.samples ++ [⟨hb.slot, now, hb.counters⟩] := by
    intro l
    unfold storeHeartbeat
    split_ifs <;> exact ⟨rfl, rfl⟩
  have hcross : ∀ d : Db, (crossT0 now hb.slot d).run.totals = d.run.totals ∧
      (crossT0 now hb.slot d).samples = d.samples := by
    intro d
    unfold crossT0 maybeMarkRunning
    split_ifs <;> simp
  unfold recordHeartbeat
  rw [hl]
  dsimp only
  rw [if_neg (by rw [isLeaseHolder_some.2 hid]; simp)]
  split_ifs
  · rw [(hcross _).1, (hcross _).2, (hstored _).1, (hstored _).2]
    exact ⟨rfl, rfl⟩
  · rw [(hstored _).1, (hstored _).2]
    exact ⟨rfl, rfl⟩

lemma recordHeartbeat_booked (now : Time) (hb : Heartbeat) (hn : (db.leases.map (·.slot)).Nodup) :
    Booked (.heartbeat now hb) db (recordHeartbeat now hb db).1 := by
  rcases recordHeartbeat_cases now hb db with ⟨h, hno⟩ | ⟨lease, hl, hid, _⟩
  · refine .kept ?_ ?_
    · cases hl : db.findLease hb.slot with
      | none => simp [Action.reports, Db.hears, hl, isLeaseHolder]
      | some lease =>
        rw [Action.reports, Db.hears, hl, ← Bool.not_eq_true, isLeaseHolder_some]
        exact hno lease hl
    · rw [h]
      exact .refl db
  · have hheard : db.hears hb = true := by
      rw [Db.hears, hl]
      exact isLeaseHolder_some.2 hid
    obtain ⟨htotals, hsamples⟩ := recordHeartbeat_stores now hl hid
    exact .heard rfl hheard htotals hsamples (Unbooked.book_of_upkeep
      (.heartbeat now hb hn fun _ => rfl))

/-- A final that is taken is answered; one that is answered and not taken changes no books. -/
lemma recordFinal_booked (now : Time) (f : Final) (hn : (s.db.leases.map (·.slot)).Nodup) :
    Booked (.final now f) s.db (s.commit (recordFinal now f s.db)).db := by
  cases hr : recordFinal now f s.db with
  | error e =>
    refine .kept ?_ (.refl _)
    unfold recordFinal at hr
    simp only [Action.reports, Db.takes]
    cases hl : s.db.findLease f.slot with
    | none => rfl
    | some lease =>
      rw [hl] at hr
      dsimp only at hr
      split_ifs at hr with hid hd
      cases hf : foldTotals s.db.run.totals f.summary with
      | error _ => exact Bool.and_false _
      | ok totals =>
        rw [hf] at hr
        cases hr
  | ok db =>
    change Booked _ s.db db
    have hcomplete : ∀ d : Db, Unbooked d (maybeCompleteRun now d) := fun d =>
      .of_overseen (Overseen.maybeComplete now d)
    obtain ⟨lease, hl, ⟨id, hid, hne, rfl⟩ | ⟨hid, ⟨hd, rfl⟩ | ⟨hd, totals, hf, rfl⟩⟩⟩ :=
      recordFinal_ok hr
    · refine .kept ?_ (.refl _)
      have hno : isLeaseHolder (some lease) (some id) = false := by
        rw [← Bool.not_eq_true, isLeaseHolder_some]
        exact fun h => hne (Option.some.inj h)
      simp [Action.reports, Db.takes, hl, hid, hno]
    · have hlog : Unbooked s.db (logFinal f s.db) := ⟨rfl, rfl, Unbooked.book_update hn hl rfl⟩
      exact .kept (by simp [Action.reports, Db.takes, hl, hd]) (hlog.trans (hcomplete _))
    · refine .closed rfl ?_ ?_ (hcomplete _).samples ?_
      · have hholds : f.leaseId.isNone = true ∨ isLeaseHolder (some lease) f.leaseId = true := by
          cases hfid : f.leaseId with
          | none => exact .inl rfl
          | some id => exact .inr (isLeaseHolder_some.2 (by rw [hid id hfid]))
        rw [Db.takes, hl, hf]
        simpa [hd, Except.isOk, Except.toBool] using hholds
      · rw [(hcomplete _).totals]
        exact hf
      · rw [(hcomplete _).book]
        simp only [Db.book, closeFinal, logFinal, Db.updateLease, Db.mapLeases, Db.appendEvent,
          map_map]
        refine map_congr_left fun l _ => ?_
        by_cases hs : l.slot = f.slot
        all_goals simp [Lease.entry, closeEntry, hs]

/-- What is folded at a stop does not depend on what the stop has done before. -/
lemma foldHeartbeatTotals_congr (hl : db'.leases = db.leases) (hs : db'.samples = db.samples)
    (ht : db'.run.totals = db.run.totals) : foldHeartbeatTotals db' = foldHeartbeatTotals db := by
  unfold foldHeartbeatTotals liveTotals
  rw [hl, hs, ht]

@[simp] lemma endPause_totals (now : Time) (run : Run) :
    (endPause now run).totals = run.totals := by
  unfold endPause
  cases run.pausedAt <;> rfl

lemma beginStop_unbooked (now : Time) (env : Env) (db : Db) :
    (beginStop now env db).leases = db.leases ∧ (beginStop now env db).samples = db.samples ∧
      (beginStop now env db).run.totals = db.run.totals := by
  refine ⟨?_, ?_, ?_⟩ <;> simp [beginStop]

lemma extendDriverDeadline_unbooked (now : Time) (env : Env) (db : Db) :
    Unbooked db (extendDriverDeadline now env db) := by
  refine ⟨by rw [extendDriverDeadline_run],
    ?_, by rw [Db.book, extendDriverDeadline_leases, Db.book]⟩
  unfold extendDriverDeadline
  split
  · exact driverCall_samples _ _ _ _
  · rfl

lemma stopRun_booked {force : Bool} (h : stopRun now force env db = .ok db') :
    Booked (.stop now force env) db db' := by
  obtain ⟨hleases, hsamples, htotals⟩ := beginStop_unbooked now env db
  rcases stopRun_ok h with ⟨_, rfl⟩ | ⟨_, ⟨_, rfl⟩ | ⟨rfl, totals, hf, rfl⟩⟩
  · exact .kept rfl (.refl _)
  · exact .kept rfl ⟨htotals, hsamples, by rw [Db.book, hleases, Db.book]⟩
  · have hcomplete : Unbooked (forceStop now env totals db)
        (maybeCompleteRun now (forceStop now env totals db)) :=
      .of_overseen (Overseen.maybeComplete now _)
    refine .forced rfl ?_ ?_ ?_
    · rw [hcomplete.totals]
      refine Eq.trans ?_ hf
      refine (foldHeartbeatTotals_congr ?_ ?_ ?_).symm
      · simp [hleases]
      · simp [hsamples]
      · simp [htotals]
    · rw [hcomplete.samples]
      exact (driverCall_samples _ _ _ _).trans hsamples
    · rw [hcomplete.book]
      simp only [Db.book, forceStop, Db.mapLeases, driverCall_leases, hleases, map_map]
      refine map_congr_left fun l _ => ?_
      unfold Function.comp forceFinal Lease.entry
      cases hs : l.state <;> simp [LeaseState.live, hs]

lemma scale_booked {workers : ℕ} (h : scaleRunEndpoint now workers env db = .ok db') :
    Booked (.scale now workers env) db db' := by
  obtain ⟨_, _, shares, _, rfl⟩ := scaleRunEndpoint_ok h
  refine .resized rfl rfl rfl ?_
  have hreshare : ((resizeLeases workers db).leases.map (reshare shares)).map Lease.entry =
      (resizeLeases workers db).leases.map Lease.entry :=
    Unbooked.book_of_wane (Wane.of_map (Lease.Wanes.reshare shares) _)
  refine hreshare.trans ?_
  simp only [resizeLeases, resizeBook, Db.book, length_map]
  split_ifs
  · rw [map_append, map_map]
    rfl
  · rw [filter_map]
    rfl

theorem Sys.step_booked (cfg : Settings) (a : Action) (hs : s.registry.Sound) :
    Booked a s.db (Sys.step cfg a s).db := by
  have hn := Sys.nodup_slots hs
  by_cases hfinal : ∃ now f, a = .final now f
  · obtain ⟨now, f, rfl⟩ := hfinal
    exact recordFinal_booked now f hn
  by_cases hbeat : ∃ now hb, a = .heartbeat now hb
  · obtain ⟨now, hb, rfl⟩ := hbeat
    exact recordHeartbeat_booked now hb hn
  have hsilent : a.reports s.db = false := by
    cases a with
    | heartbeat now hb => exact absurd ⟨now, hb, rfl⟩ hbeat
    | final now f => exact absurd ⟨now, f, rfl⟩ hfinal
    | _ => rfl
  have hstep := Sys.step_happens cfg a s
  generalize Sys.step cfg a s = t at hstep ⊢
  cases hstep with
  | idle => exact .kept hsilent (.refl _)
  | launch => exact .kept hsilent (.launch _ _ _ s.db)
  | claim h => exact .kept hsilent (.claim hn h)
  | ready h => exact .kept hsilent (.ready h)
  | release => exact .kept hsilent (.release _ _ _ s.db)
  | heartbeat => exact absurd ⟨_, _, rfl⟩ hbeat
  | final => exact absurd ⟨_, _, rfl⟩ hfinal
  | stop h => exact stopRun_booked h
  | @pause now env _ h =>
    obtain ⟨_, rfl⟩ := pauseRun_ok h
    have hturn : Unbooked s.db (transitionRun now .paused none
        { s.db with run := { s.db.run with pausedAt := some now } }) :=
      ⟨by simp, by simp, by simp [Db.book]⟩
    exact .kept hsilent (hturn.trans (extendDriverDeadline_unbooked now env _))
  | @resume now env _ h =>
    obtain ⟨_, rfl⟩ := resumeRun_ok h
    have hturn : Unbooked s.db (transitionRun now .running none
        { s.db with run := endPause now s.db.run }) := ⟨by simp, by simp, by simp [Db.book]⟩
    exact .kept hsilent (hturn.trans (extendDriverDeadline_unbooked now env _))
  | scale h => exact scale_booked h
  | rescale _ h => exact .kept hsilent (.of_overseen (Overseen.rescale h))
  | tick => exact .kept hsilent (.of_overseen (supervisorTick_overseen cfg _ _ _ s.db))
  | reconcile => exact .kept hsilent (.of_overseen (Overseen.reconcile _ _ s.db))

end Stoker
