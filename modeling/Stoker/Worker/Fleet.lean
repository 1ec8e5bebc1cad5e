import Stoker.Worker.Agent
import Stoker.Worker.Unasked

/-!
# A run and its workers

The control plane together with the workers it serves, when no message is lost: a worker's request
is served and its answer handled in one step. In between, the steps that no worker asked for (the
operator's, the supervisor's, the rest of a launch or of a ready post) come in any order.
-/

open List

namespace Stoker

open Transition

/-- The workers, the newest last; a holder has one worker at a time. -/
abbrev Roster := List Worker

/-- Put a worker in place of the one its holder had. -/
def Roster.put (w : Worker) (ws : Roster) : Roster := ws.filter (·.holder ≠ w.holder) ++ [w]

variable {w : Worker}

lemma Roster.mem_put {v : Worker} {ws : Roster} (h : v ∈ Roster.put w ws) :
    v = w ∨ (v ∈ ws ∧ v.holder ≠ w.holder) := by
  rcases mem_append.1 h with hv | hv
  · obtain ⟨hmem, hne⟩ := mem_filter.1 hv
    exact .inr ⟨hmem, by simpa using hne⟩
  · exact .inl (mem_singleton.1 hv)

structure Fleet where
  sys : Sys
  workers : Roster := []
  deriving DecidableEq

/-- What can happen to a run and its workers. -/
inductive Event where
  | server (a : Action)
  | claim (now : Time) (holder : String) (hintSlot : Option ℕ)
  | ready (now : Time) (holder : String)
  | heartbeat (now : Time) (holder : String) (payload : Heartbeat)
  | drain (holder : String)
  | final (now : Time) (holder : String) (summary : Totals) (logTail : List String)
  deriving DecidableEq

namespace Fleet

def start (db : Db) : Fleet := { sys := Sys.start db }

def worker (holder : String) (f : Fleet) : Option Worker := f.workers.find? (·.holder = holder)

lemma worker_some {holder : String} {f : Fleet} (h : f.worker holder = some w) :
    w ∈ f.workers ∧ w.holder = holder :=
  ⟨mem_of_find?_eq_some h, by simpa using find?_some h⟩

/-- A worker claims. One that cannot read its slice ends at once, and so does whatever its holder
ran before. -/
def claim (now : Time) (holder : String) (hintSlot : Option ℕ) (f : Fleet) : Fleet :=
  match claimLease now holder hintSlot f.sys.db with
  | .error _ => f
  | .ok (db, slot) =>
    match db.findLease slot with
    | none => f
    | some lease =>
      { sys := f.sys.claim now holder hintSlot
        workers := match Worker.ofSlice now holder (buildSlice db.run lease) with
          | .ok w => Roster.put w f.workers
          | .error _ => f.workers.filter (·.holder ≠ holder) }

/-- A worker that is prepared posts ready; a refused post is tried again later. -/
def ready (now : Time) (holder : String) (f : Fleet) : Fleet :=
  match f.worker holder with
  | none => f
  | some w =>
    if w.draining = true ∨ w.phase ≠ .preparing then f
    else
      match markReady now w.slot (some w.leaseId) f.sys.db with
      | .error _ => f
      | .ok _ =>
        { sys := f.sys.ready now w.slot (some w.leaseId)
          workers := Roster.put (w.readied now) f.workers }

def heartbeat (now : Time) (holder : String) (payload : Heartbeat) (f : Fleet) : Fleet :=
  match f.worker holder with
  | none => f
  | some w =>
    if w.beats now = false then f
    else
      let hb := w.heartbeat payload
      { sys := f.sys.heartbeat now hb
        workers := Roster.put (w.handle now (recordHeartbeat now hb f.sys.db).2) f.workers }

/-- A worker begins to drain for a reason of its own: a signal, its engine, its deadline. -/
def drain (holder : String) (f : Fleet) : Fleet :=
  match f.worker holder with
  | none => f
  | some w => { f with workers := Roster.put { w with draining := true } f.workers }

/-- A drained worker reports and exits. -/
def final (now : Time) (holder : String) (summary : Totals) (logTail : List String) (f : Fleet) :
    Fleet :=
  match f.worker holder with
  | none => f
  | some w =>
    if w.draining = false then f
    else
      { sys := f.sys.commit (recordFinal now ⟨w.slot, some w.leaseId, summary, logTail⟩ f.sys.db)
        workers := f.workers.filter (·.holder ≠ holder) }

def step (cfg : Settings) (e : Event) (f : Fleet) : Fleet :=
  match e with
  | .server a => if a.byWorker then f else { f with sys := Sys.step cfg a f.sys }
  | .claim now holder hint => f.claim now holder hint
  | .ready now holder => f.ready now holder
  | .heartbeat now holder payload => f.heartbeat now holder payload
  | .drain holder => f.drain holder
  | .final now holder summary logTail => f.final now holder summary logTail

/-- What can come of an event. -/
inductive Happens (cfg : Settings) (f : Fleet) : Event → Fleet → Prop where
  /-- There is no such worker, it is not at that point, or its request is refused. -/
  | idle {e : Event} : Happens cfg f e f
  | served {a : Action} (ha : a.byWorker = false) :
      Happens cfg f (.server a) { f with sys := Sys.step cfg a f.sys }
  | claimed {now : Time} {holder : String} {hint : Option ℕ} {db : Db} {slot : ℕ} {lease : Lease}
      {w : Worker} (hc : claimLease now holder hint f.sys.db = .ok (db, slot))
      (hl : db.findLease slot = some lease)
      (hw : Worker.ofSlice now holder (buildSlice db.run lease) = .ok w) :
      Happens cfg f (.claim now holder hint)
        { sys := f.sys.claim now holder hint, workers := Roster.put w f.workers }
  /-- The claim is served, but the worker cannot read its slice. -/
  | unread {now : Time} {holder : String} {hint : Option ℕ} {db : Db} {slot : ℕ} {lease : Lease}
      (hc : claimLease now holder hint f.sys.db = .ok (db, slot))
      (hl : db.findLease slot = some lease) :
      Happens cfg f (.claim now holder hint)
        { sys := f.sys.claim now holder hint, workers := f.workers.filter (·.holder ≠ holder) }
  | readied {now : Time} {w : Worker} {db : Db} (hw : f.worker w.holder = some w)
      (hp : w.phase = .preparing) (hm : markReady now w.slot (some w.leaseId) f.sys.db = .ok db) :
      Happens cfg f (.ready now w.holder)
        { sys := f.sys.ready now w.slot (some w.leaseId)
          workers := Roster.put (w.readied now) f.workers }
  | answered {now : Time} {payload : Heartbeat} {w : Worker} (hw : f.worker w.holder = some w)
      (hb : w.beats now = true) :
      Happens cfg f (.heartbeat now w.holder payload)
        { sys := f.sys.heartbeat now (w.heartbeat payload)
          workers :=
            Roster.put (w.handle now (recordHeartbeat now (w.heartbeat payload) f.sys.db).2)
            f.workers }
  | drained {w : Worker} (hw : f.worker w.holder = some w) :
      Happens cfg f (.drain w.holder)
        { f with workers := Roster.put { w with draining := true } f.workers }
  | ended {now : Time} {w : Worker} {summary : Totals} {logTail : List String}
      (hw : f.worker w.holder = some w) :
      Happens cfg f (.final now w.holder summary logTail)
        { sys := f.sys.commit (recordFinal now ⟨w.slot, some w.leaseId, summary, logTail⟩ f.sys.db)
          workers := f.workers.filter (·.holder ≠ w.holder) }

lemma happens_claim (cfg : Settings) (now : Time) (holder : String) (hint : Option ℕ) (f : Fleet) :
    Happens cfg f (.claim now holder hint) (f.claim now holder hint) := by
  unfold claim
  cases hc : claimLease now holder hint f.sys.db with
  | error e => exact .idle
  | ok r =>
    cases hl : r.1.findLease r.2 with
    | none => simpa only [hl] using Happens.idle
    | some lease =>
      simp only [hl]
      cases hw : Worker.ofSlice now holder (buildSlice r.1.run lease) with
      | ok w => exact .claimed hc hl hw
      | error e => exact .unread hc hl

lemma happens_ready (cfg : Settings) (now : Time) (holder : String) (f : Fleet) :
    Happens cfg f (.ready now holder) (f.ready now holder) := by
  unfold ready
  cases hw : f.worker holder with
  | none => exact .idle
  | some w =>
    obtain ⟨_, rfl⟩ := worker_some hw
    dsimp only
    split_ifs with hp
    · exact .idle
    · rw [not_or, not_not] at hp
      cases hm : markReady now w.slot (some w.leaseId) f.sys.db with
      | error e => exact .idle
      | ok db => exact .readied hw hp.2 hm

/-- Every step is one of these. -/
theorem step_happens (cfg : Settings) (e : Event) (f : Fleet) : Happens cfg f e (step cfg e f) := by
  cases e with
  | server a =>
    simp only [step]
    split_ifs with ha
    · exact .idle
    · exact .served (by simpa using ha)
  | claim now holder hint => exact happens_claim cfg now holder hint f
  | ready now holder => exact happens_ready cfg now holder f
  | heartbeat now holder payload =>
    simp only [step, heartbeat]
    cases hw : f.worker holder with
    | none => exact .idle
    | some w =>
      obtain ⟨_, rfl⟩ := worker_some hw
      dsimp only
      split_ifs with hb
      · exact .idle
      · exact .answered hw (by simpa using hb)
  | drain holder =>
    simp only [step, drain]
    cases hw : f.worker holder with
    | none => exact .idle
    | some w =>
      obtain ⟨_, rfl⟩ := worker_some hw
      exact .drained hw
  | final now holder summary logTail =>
    simp only [step, final]
    cases hw : f.worker holder with
    | none => exact .idle
    | some w =>
      obtain ⟨_, rfl⟩ := worker_some hw
      dsimp only
      split_ifs
      · exact .idle
      · exact .ended hw

lemma step_claim_db (cfg : Settings) {now : Time} {holder : String} {hint : Option ℕ} {f : Fleet}
    {db : Db} {slot : ℕ} {lease : Lease} (hc : claimLease now holder hint f.sys.db = .ok (db, slot))
    (hfind : db.findLease slot = some lease) :
    (step cfg (.claim now holder hint) f).sys.db = db := by
  simp only [step, claim, hc, hfind, Sys.claim_ok hc hfind]

lemma step_sys (cfg : Settings) (e : Event) (f : Fleet) :
    (step cfg e f).sys = f.sys ∨ ∃ a, (step cfg e f).sys = Sys.step cfg a f.sys ∧
      (e = .server a ∨ a.byWorker = true) ∧
      ∀ now hb, a = .heartbeat now hb → ∃ w payload, f.worker w.holder = some w ∧
        e = .heartbeat now w.holder payload ∧ hb = w.heartbeat payload := by
  have hstep := step_happens cfg e f
  generalize step cfg e f = f' at hstep ⊢
  cases hstep with
  | idle | drained => exact .inl rfl
  | @served a ha =>
    refine .inr ⟨a, rfl, .inl rfl, ?_⟩
    rintro now hb rfl
    cases ha
  | @claimed now holder hint | @unread now holder hint =>
    exact .inr ⟨.claim now holder hint, rfl, .inr rfl, fun _ _ h => by cases h⟩
  | readied => exact .inr ⟨.ready _ _ _, rfl, .inr rfl, fun _ _ h => by cases h⟩
  | @answered now payload w hw =>
    refine .inr ⟨.heartbeat now (w.heartbeat payload), rfl, .inr rfl, fun now' hb h => ?_⟩
    cases h
    exact ⟨w, payload, hw, rfl, rfl⟩
  | ended => exact .inr ⟨.final _ _, rfl, .inr rfl, fun _ _ h => by cases h⟩

/-! ### Workers and the leases they hold -/

/-- The lease is the one the worker was given, under the same id. -/
def Holds (w : Worker) (l : Lease) : Prop := l.slot = w.slot ∧ l.leaseId = w.leaseId

/-- Every worker's lease id was handed to it. -/
def Issued (f : Fleet) : Prop := ∀ w ∈ f.workers, (w.holder, w.leaseId) ∈ f.sys.issued

/-- The ids in use are sound, and every worker has the one it was handed. -/
structure Sound (f : Fleet) : Prop where
  registry : f.sys.registry.Sound
  issued : f.Issued

variable {l : Lease} {w' v : Worker} {e : Event}

lemma Holds.congr (h : Holds w l) (hv : v.ident = w.ident) : Holds v l := by
  have hs : v.slot = w.slot := congrArg (·.2.1) hv
  have hi : v.leaseId = w.leaseId := congrArg (·.2.2.1) hv
  exact ⟨h.1.trans hs.symm, h.2.trans hi.symm⟩

namespace Sound

variable {f : Fleet}

lemma holder (hf : f.Sound) (hw : w ∈ f.workers)
    (hl : l ∈ f.sys.db.leases) (hid : l.leaseId = w.leaseId) : l.holder = some w.holder :=
  hf.registry.current _ (mem_map_of_mem hl) _ (hf.issued w hw) hid.symm

lemma unique (hf : f.Sound) {v : Worker} (hw : w ∈ f.workers) (hv : v ∈ f.workers)
    (hl : l ∈ f.sys.db.leases) (hwl : Holds w l) (hvl : Holds v l) : w.holder = v.holder :=
  Option.some.inj ((hf.holder hw hl hwl.2).symm.trans (hf.holder hv hl hvl.2))

lemma leaseId_lt (hf : f.Sound) (hw : w ∈ f.workers) : w.leaseId < f.sys.db.nextId :=
  hf.registry.issuedGenerated _ (hf.issued w hw)

lemma nodup_slots (hf : f.Sound) : (f.sys.db.leases.map (·.slot)).Nodup :=
  Sys.nodup_slots hf.registry

lemma findLease (hf : f.Sound) (hl : l ∈ f.sys.db.leases)
    (hwl : Holds w l) : f.sys.db.findLease w.slot = some l := by
  cases h : f.sys.db.findLease w.slot with
  | none =>
    have hno := find?_eq_none.1 h l hl
    simp [hwl.1] at hno
  | some k => rw [findLease_unique hf.nodup_slots h hl hwl.1]

end Sound

/-- How a worker and a lease it holds come out of a step. -/
inductive Moved (cfg : Settings) (f : Fleet) : Event → Worker → Lease → Prop where
  /-- The worker has not moved, except that it may have begun to drain; the lease has aged. -/
  | aged {e : Event} {w w' : Worker} {l l' : Lease} (hw : w ∈ f.workers)
      (hw' : w' = w ∨ w' = { w with draining := true }) (hl : l ∈ f.sys.db.leases)
      (hh : Holds w l) (ha : l.Ages (step cfg e f).sys.db.hist.silent l') : Moved cfg f e w' l'
  /-- The worker has just claimed the lease. -/
  | claimed {now : Time} {hint : Option ℕ} {db : Db} {w' : Worker} {l' : Lease}
      (hc : claimLease now w'.holder hint f.sys.db = .ok (db, l'.slot))
      (hl : db.findLease l'.slot = some l')
      (hw : Worker.ofSlice now w'.holder (buildSlice db.run l') = .ok w') :
      Moved cfg f (.claim now w'.holder hint) w' l'
  /-- Its ready post was accepted. -/
  | readied {now : Time} {w : Worker} {l : Lease} (hw : w ∈ f.workers)
      (hp : w.phase = .preparing) (hl : l ∈ f.sys.db.leases) (hh : Holds w l) :
      Moved cfg f (.ready now w.holder) (w.readied now) (readyLease now l)
  /-- Its heartbeat was answered. -/
  | answered {now : Time} {payload : Heartbeat} {w : Worker} {l : Lease} {reply : Reply}
      (hw : f.worker w.holder = some w) (hb : w.beats now = true) (hl : l ∈ f.sys.db.leases)
      (hh : Holds w l)
      (hr : reply = (recordHeartbeat now (w.heartbeat payload) f.sys.db).2)
      (hc : reply.command = (heartbeatCommand now f.sys.db.run 1
        (renewLease now (w.heartbeat payload) l)).command) :
      Moved cfg f (.heartbeat now w.holder payload) (w.handle now reply)
        (heartbeatCommand now f.sys.db.run 1 (renewLease now (w.heartbeat payload) l)).lease

namespace Moved

variable {cfg : Settings} {f : Fleet} {e : Event} {w' : Worker} {l' : Lease}

lemma of_kept (hw : w' ∈ f.workers) (hl : l' ∈ f.sys.db.leases) (hh : Holds w' l') :
    Moved cfg f e w' l' :=
  aged hw (.inl rfl) hl hh (Lease.Ages.refl _ l')

lemma server {a : Action} (hf : f.Sound) (ha : a.byWorker = false) (hw : w' ∈ f.workers)
    (hl : l' ∈ (Sys.step cfg a f.sys).db.leases) (hh : Holds w' l') :
    Moved cfg f (.server a) w' l' := by
  have hstep : step cfg (.server a) f = { f with sys := Sys.step cfg a f.sys } := by
    simp [step, ha]
  rcases (Ages.step cfg hf.registry ha).leases l' hl with ⟨hid, _⟩ | ⟨l, hlm, hage⟩
  · exact absurd (hf.leaseId_lt hw) (not_lt.2 (by rw [← hh.2]; exact hid))
  · refine aged hw (.inl rfl) hlm ?_ (by rw [hstep]; exact hage)
    exact ⟨(congrArg Prod.fst hage.ident).symm.trans hh.1, hage.leaseId.symm.trans hh.2⟩

lemma takeoverShare_ages (silent : List LeaseId) {slot : ℕ} (share : PublicShare)
    (hs : l.slot ≠ slot) : l.Ages silent (takeoverShare slot share l) := by
  unfold takeoverShare
  split_ifs
  · exact Lease.Ages.refl _ l
  · exact ⟨rfl, .inl rfl, .inr (.inl rfl)⟩

/-- A claim of another holder leaves a held lease alone, or marks a new share on it. -/
lemma claim_other {now : Time} {holder : String} {hint : Option ℕ} {db : Db} {slot : ℕ}
    (hf : f.Sound) (hc : claimLease now holder hint f.sys.db = .ok (db, slot))
    (hw : w' ∈ f.workers) (hl : l' ∈ db.leases) (hh : Holds w' l') :
    ∃ l ∈ f.sys.db.leases, Holds w' l ∧ l.Ages db.hist.silent l' := by
  rcases (claimLease_ok hc).2 with ⟨_, _, _, _, _, rfl⟩ | ⟨_, _, _, _, rfl⟩
  · obtain ⟨l, hlm, rfl⟩ := mem_updateLease.1 hl
    refine ⟨l, hlm, ?_⟩
    split_ifs at hh ⊢ with hs
    · exact ⟨hh, rfl, .inl rfl, .inl ⟨rfl, rfl⟩⟩
    · exact ⟨hh, Lease.Ages.refl _ l⟩
  · -- the row issued has a fresh id, which no worker has yet
    have hissued : ∀ k ∈ (issuedDb now holder slot f.sys.db).leases, k.leaseId = w'.leaseId →
        k ∈ f.sys.db.leases ∧ k.slot ≠ slot := by
      intro k hk hkid
      obtain ⟨j, hj, heq⟩ := mem_updateLease.1 hk
      by_cases hs : j.slot = slot
      · rw [if_pos hs] at heq
        subst heq
        exact absurd hkid (hf.leaseId_lt hw).ne'
      · rw [if_neg hs] at heq
        subst heq
        exact ⟨hj, hs⟩
    rw [Db.appendEvent_leases] at hl
    rw [Db.appendEvent_hist]
    split_ifs at hl ⊢ with htake
    · rcases reapportionOnTakeover_eq now slot (issuedDb now holder slot f.sys.db) with
        he | ⟨_, shares, _, _, _, he⟩ <;> rw [he] at hl ⊢
      · exact ⟨l', (hissued l' hl hh.2).1, hh, Lease.Ages.refl _ l'⟩
      · obtain ⟨k, hk, rfl | ⟨share, _, rfl⟩⟩ := mem_assignShares hl
        · exact ⟨l', (hissued l' hk hh.2).1, hh, Lease.Ages.refl _ l'⟩
        · have hkid : Lease.ident k = (takeoverShare slot share k).ident :=
            (takeoverShare_ident slot share k).symm
          have hkh : Holds w' k :=
            ⟨(congrArg Prod.fst hkid).trans hh.1, (congrArg (·.2.1) hkid).trans hh.2⟩
          obtain ⟨hmem, hs⟩ := hissued k hk hkh.2
          exact ⟨k, hmem, hkh, takeoverShare_ages _ share hs⟩
    · exact ⟨l', (hissued l' hl hh.2).1, hh, Lease.Ages.refl _ l'⟩

section Claims

variable {now : Time} {holder : String} {hint : Option ℕ} {db : Db} {slot : ℕ} {lease : Lease}

lemma claim_kept (hf : f.Sound) (hc : claimLease now holder hint f.sys.db = .ok (db, slot))
    (hfind : db.findLease slot = some lease) (hw : w' ∈ f.workers) (hl : l' ∈ db.leases)
    (hh : Holds w' l') : Moved cfg f (.claim now holder hint) w' l' := by
  obtain ⟨l, hlm, hhl, hage⟩ := claim_other hf hc hw hl hh
  refine aged hw (.inl rfl) hlm hhl ?_
  rw [step_claim_db cfg hc hfind]
  exact hage

lemma claim_own (hf : f.Sound) (hc : claimLease now holder hint f.sys.db = .ok (db, slot))
    (hfind : db.findLease slot = some lease)
    (hslice : Worker.ofSlice now holder (buildSlice db.run lease) = .ok w') (hl : l' ∈ db.leases)
    (hh : Holds w' l') : Moved cfg f (.claim now holder hint) w' l' := by
  have hident := (Worker.ofSlice_ok hslice).2.1
  have hholder : w'.holder = holder := congrArg Prod.fst hident
  have hslot : w'.slot = lease.slot := congrArg (·.2.1) hident
  have hnd : (db.leases.map (·.slot)).Nodup := by
    have := Registry.nodup_slots (hf.registry.move (claim_move hf.registry hc hfind))
    rwa [map_map] at this
  have hls := (findLease_some hfind).2
  have heq : l' = lease := findLease_unique hnd hfind hl ((hh.1.trans hslot).trans hls)
  subst heq
  subst hls
  subst hholder
  exact claimed hc hfind hslice

end Claims

/-- A row of the slot that a worker's request rewrote is held by that worker alone. -/
lemma other_row (hf : f.Sound) {v : Worker} (hw : w ∈ f.workers)
    (hv : v ∈ f.workers) (hne : v.holder ≠ w.holder) (hl : l ∈ f.sys.db.leases) (hwl : Holds w l)
    {g : Lease → Lease} (hg : (g l).ident = l.ident)
    (hl' : l' ∈ (f.sys.db.updateLease w.slot g).leases) (hh : Holds v l') :
    l' ∈ f.sys.db.leases := by
  obtain ⟨k, hk, rfl⟩ := mem_updateLease.1 hl'
  by_cases hs : k.slot = w.slot
  · rw [if_pos hs] at hh
    have hkl : k = l := findLease_unique hf.nodup_slots (hf.findLease hl hwl) hk hs
    subst hkl
    have hvk : Holds v k := ⟨(congrArg Prod.fst hg).symm.trans hh.1,
      (congrArg (·.2.1) hg).symm.trans hh.2⟩
    exact absurd (hf.unique hv hw hk hvk hwl) hne
  · rw [if_neg hs]
    exact hk

lemma ready {now : Time} {db : Db} (hf : f.Sound) (hworker : f.worker w.holder = some w)
    (hp : w.phase = .preparing) (hm : markReady now w.slot (some w.leaseId) f.sys.db = .ok db)
    (hw : w' ∈ Roster.put (w.readied now) f.workers) (hl : l' ∈ db.leases) (hh : Holds w' l') :
    Moved cfg f (.ready now w.holder) w' l' := by
  have hmem := (worker_some hworker).1
  obtain ⟨lease, hfind, hid, hls, _⟩ := markReady_ok hm
  have hlease : Holds w lease := ⟨(findLease_some hfind).2, (Option.some.inj hid).symm⟩
  have hmeml := (findLease_some hfind).1
  rw [hls] at hl
  rcases Roster.mem_put hw with rfl | ⟨hmem', hne⟩
  · obtain ⟨k, hk, rfl⟩ := mem_updateLease.1 hl
    by_cases hs : k.slot = w.slot
    · rw [if_pos hs, findLease_unique hf.nodup_slots hfind hk hs]
      exact readied hmem hp hmeml hlease
    · rw [if_neg hs] at hh
      exact absurd hh.1 hs
  · exact of_kept hmem' (other_row hf hmem hmem' hne hmeml hlease rfl hl hh) hh

lemma heartbeat {now : Time} {payload : Heartbeat} (hf : f.Sound)
    (hworker : f.worker w.holder = some w) (hb : w.beats now = true)
    (hw : w' ∈ Roster.put (w.handle now (recordHeartbeat now (w.heartbeat payload) f.sys.db).2)
      f.workers)
    (hl : l' ∈ (recordHeartbeat now (w.heartbeat payload) f.sys.db).1.leases) (hh : Holds w' l') :
    Moved cfg f (.heartbeat now w.holder payload) w' l' := by
  have hmem := (worker_some hworker).1
  have hident := Worker.handle_ident now (recordHeartbeat now (w.heartbeat payload) f.sys.db).2 w
  have hholder : (w.handle now (recordHeartbeat now (w.heartbeat payload) f.sys.db).2).holder =
      w.holder := congrArg Prod.fst hident
  rcases recordHeartbeat_cases now (w.heartbeat payload) f.sys.db with
    ⟨hsup, hno⟩ | ⟨lease, hfind, hid, d, hd, hc, hls, _⟩
  · -- superseded: the rows are as they were, and the worker holds none of them
    rw [hsup] at hl
    rcases Roster.mem_put hw with rfl | ⟨hmem', _⟩
    · have hwl : Holds w l' := hh.congr hident.symm
      refine absurd ?_ (hno l' (hf.findLease hl hwl))
      exact congrArg some hwl.2.symm
    · exact of_kept hmem' hl hh
  · rw [hls] at hl
    have hlease : Holds w lease := ⟨(findLease_some hfind).2, (Option.some.inj hid).symm⟩
    have hmeml := (findLease_some hfind).1
    rcases Roster.mem_put hw with rfl | ⟨hmem', hne⟩
    · have hwl : Holds w l' := hh.congr hident.symm
      obtain ⟨k, hk, heq⟩ := mem_updateLease.1 hl
      by_cases hs : k.slot = (w.heartbeat payload).slot
      · rw [if_pos hs, hd] at heq
        subst heq
        exact answered hworker hb hmeml hlease rfl (hc.trans (congrArg Decision.command hd))
      · rw [if_neg hs] at heq
        subst heq
        exact absurd hwl.1 hs
    · have hgd : d.lease.ident = lease.ident := by
        rw [hd, answered_ident]
      rw [hholder] at hne
      exact of_kept hmem' (other_row hf hmem hmem' hne hmeml hlease hgd hl hh) hh

/-- A final report leaves the rows of the other workers as they are, or lets them fade. -/
lemma final {now : Time} {report : Final}
    (hw : w' ∈ f.workers) (hl : l' ∈ (f.sys.commit (recordFinal now report f.sys.db)).db.leases)
    (hh : Holds w' l') : Moved cfg f e w' l' := by
  cases hr : recordFinal now report f.sys.db with
  | error e =>
    rw [hr] at hl
    exact of_kept hw hl hh
  | ok db =>
    rw [hr] at hl
    obtain ⟨l, hlm, hfade⟩ := (Quiet.final hr).leases.exists_of_mem hl
    refine aged hw (.inl rfl) hlm ?_ (Lease.Ages.of_fades _ hfade)
    exact ⟨hfade.slot.symm.trans hh.1, hfade.leaseId.symm.trans hh.2⟩

end Moved

/-- Whatever happens, a worker and a lease it holds afterwards were moved in one of these ways. -/
theorem step_moved (cfg : Settings) {f : Fleet} (hf : f.Sound) {l' : Lease}
    (hw : w' ∈ (step cfg e f).workers) (hl : l' ∈ (step cfg e f).sys.db.leases) (hh : Holds w' l') :
    Moved cfg f e w' l' := by
  have hstep := step_happens cfg e f
  generalize step cfg e f = f' at hstep hw hl
  cases hstep with
  | idle => exact Moved.of_kept hw hl hh
  | served ha => exact Moved.server hf ha hw hl hh
  | claimed hc hfind hslice =>
    rw [Sys.claim_ok hc hfind] at hl
    rcases Roster.mem_put hw with rfl | ⟨hmem, _⟩
    · exact Moved.claim_own hf hc hfind hslice hl hh
    · exact Moved.claim_kept hf hc hfind hmem hl hh
  | unread hc hfind =>
    rw [Sys.claim_ok hc hfind] at hl
    exact Moved.claim_kept hf hc hfind (mem_filter.1 hw).1 hl hh
  | readied hworker hp hm =>
    rw [Sys.ready_db hm] at hl
    exact Moved.ready hf hworker hp hm hw hl hh
  | answered hworker hb => exact Moved.heartbeat hf hworker hb hw hl hh
  | drained hworker =>
    rcases Roster.mem_put hw with rfl | ⟨hmem, _⟩
    · exact Moved.aged (worker_some hworker).1 (.inr rfl) hl hh (Lease.Ages.refl _ l')
    · exact Moved.of_kept hmem hl hh
  | ended => exact Moved.final (mem_filter.1 hw).1 hl hh

/-! ### Whole runs -/

lemma put_workers {f : Fleet} {holder : String} (hv : f.worker holder = some v)
    (hw : w' ∈ Roster.put w f.workers) (hi : w.ident = v.ident) :
    ∃ u ∈ f.workers, w'.ident = u.ident := by
  rcases Roster.mem_put hw with rfl | ⟨hmem, _⟩
  · exact ⟨v, (worker_some hv).1, hi⟩
  · exact ⟨w', hmem, rfl⟩

/-- A worker after a step was one before it, or has just been handed its lease. -/
lemma step_workers (cfg : Settings) {f : Fleet} (hw : w' ∈ (step cfg e f).workers) :
    (∃ w ∈ f.workers, w'.ident = w.ident) ∨
      (w'.holder, w'.leaseId) ∈ (step cfg e f).sys.issued := by
  have hstep := step_happens cfg e f
  generalize step cfg e f = f' at hstep hw ⊢
  cases hstep with
  | idle | served => exact .inl ⟨w', hw, rfl⟩
  | @claimed now holder hint db slot lease w hc hfind hslice =>
    rcases Roster.mem_put hw with rfl | ⟨hmem, _⟩
    · refine .inr ?_
      have hident := (Worker.ofSlice_ok hslice).2.1
      have hholder : w'.holder = holder := congrArg Prod.fst hident
      have hid : w'.leaseId = lease.leaseId := congrArg (·.2.2.1) hident
      rw [hholder, hid, Sys.claim_ok hc hfind]
      simp [Sys.issued, buildSlice]
    · exact .inl ⟨w', hmem, rfl⟩
  | unread | ended => exact .inl ⟨w', (mem_filter.1 hw).1, rfl⟩
  | readied hworker | drained hworker => exact .inl (put_workers hworker hw rfl)
  | answered hworker => exact .inl (put_workers hworker hw (Worker.handle_ident _ _ _))

theorem Sound.step (cfg : Settings) (e : Event) {f : Fleet} (hf : f.Sound) :
    (step cfg e f).Sound := by
  have hmove : Registry.Move f.sys.registry (Fleet.step cfg e f).sys.registry := by
    rcases step_sys cfg e f with h | ⟨a, h, _⟩ <;> rw [h]
    · exact Registry.Move.stay _
    · exact step_move cfg a f.sys hf.registry
  refine ⟨hf.registry.move hmove, fun w' hw => ?_⟩
  rcases step_workers cfg hw with ⟨w, hmem, hident⟩ | h
  · have hp : (w'.holder, w'.leaseId) = (w.holder, w.leaseId) :=
      congrArg (fun p => (p.1, p.2.2.1)) hident
    rw [hp]
    exact hmove.issued_mono _ (hf.issued w hmem)
  · exact h

lemma start_sound {now : Time} {spec : Snapshot} {db : Db} (h : provisionRun now spec = .ok db) :
    (start db).Sound :=
  ⟨Stoker.start_sound h, fun w hw => by cases hw⟩

end Fleet

end Stoker
