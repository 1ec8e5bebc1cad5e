import Stoker.Server.Claim

/-!
# Ready, heartbeat and final

The other requests of a worker. Each names a slot and a lease id, and is fenced: a caller whose id
is not the slot's current one is refused or told that it is superseded.
-/

namespace Stoker

/-! ### mark_ready -/

/-- The lease a ready post leaves: renewed, and ready unless it is past that. -/
def readyLease (now : Time) (l : Lease) : Lease :=
  { l with
    lastHeartbeatAt := some now
    state := if l.state = .claimed ∨ l.state = .ready then .ready else l.state }

/-- `mark_ready` up to its commit. What follows, `evaluate_release`, runs in a new transaction on
the run row loaded before. -/
def markReady (now : Time) (slot : ℕ) (leaseId : Option LeaseId) (db : Db) : Except HttpError Db :=
  match db.findLease slot with
  | none => .error ⟨409, "unknown slot"⟩
  | some lease =>
    if isLeaseHolder (some lease) leaseId = false then .error ⟨409, "lease is not the slot holder"⟩
    else
      let marked := db.updateLease slot (readyLease now)
      if lease.state = .claimed ∨ lease.state = .ready then
        .ok (marked.appendEvent now (.ready slot))
      else .ok marked

/-! ### record_heartbeat -/

inductive Command where
  | superseded
  | drain
  | release (t0 : Time)
  | pause
  | retarget (share : PublicShare)
  | continue_
  deriving DecidableEq

/-- The answer to a heartbeat: the command, and how long the run has been paused. -/
structure Reply where
  command : Command
  pausedS : Option Time := none
  deriving DecidableEq

structure Heartbeat where
  slot : ℕ
  leaseId : Option LeaseId
  protocolVersion : ℤ := 1
  counters : Counters := {}
  authFailed : Bool := false
  assignedWork : Option ℤ := none
  assignedReason : Option String := none
  engineImpl : Option String := none
  envelope : Option String := none
  deriving DecidableEq

def supportedProtocolVersions : List ℤ := [1]

/-- What `_heartbeat_command` decides: the lease as it leaves it, whether the lease has just crossed
T0, and the command. -/
structure Decision where
  lease : Lease
  crossed : Bool
  command : Command

/-- A lost lease whose holder is heard from is restored. -/
def recoverLease (t0 : Option Time) (l : Lease) : Lease :=
  if l.state = .lost then { l with state := if t0.isSome then .running else .ready } else l

/-- A ready lease of a released run is generating. -/
def promoteReady (t0 : Option Time) (l : Lease) : Lease :=
  if l.state = .ready ∧ t0.isSome = true then { l with state := .running } else l

/-- The steady-state part of `_heartbeat_command`: pause, then retarget, then continue. -/
def steadyCommand (run : Run) (l : Lease) : Decision :=
  if run.state = .paused then ⟨promoteReady run.t0 l, false, .pause⟩
  else if l.share.retarget then
    let cleared := clearRetarget l
    let state := if (l.state = .claimed ∨ l.state = .ready) ∧ run.t0.isSome = true then .running
      else l.state
    ⟨{ cleared with state := state }, false, .retarget (publicShare l.share)⟩
  else ⟨promoteReady run.t0 l, false, .continue_⟩

def heartbeatCommand (now : Time) (run : Run) (protocolVersion : ℤ) (lease : Lease) : Decision :=
  if run.state = .draining ∨ run.state.terminal = true then ⟨lease, false, .drain⟩
  else if protocolVersion ∉ supportedProtocolVersions then ⟨lease, false, .drain⟩
  else
    let l := recoverLease run.t0 lease
    match run.t0 with
    | some t0 =>
      if l.state = .claimed ∨ l.state = .ready then
        if t0 ≤ now then ⟨{ l with state := .running }, true, .release t0⟩
        else ⟨l, false, .release t0⟩
      else steadyCommand run l
    | none => steadyCommand run l

/-- The run is under way and the worker speaks a supported protocol: the worker is not drained. -/
def Served (run : Run) (protocolVersion : ℤ) : Prop :=
  run.state ≠ .draining ∧ run.state.terminal = false ∧
    protocolVersion ∈ supportedProtocolVersions

instance (run : Run) (version : ℤ) : Decidable (Served run version) :=
  inferInstanceAs (Decidable (_ ∧ _))

/-- The state in which a heartbeat leaves a lease that is not due for the release: a lost lease is
restored. -/
def heardState (run : Run) (l : Lease) : LeaseState :=
  if l.state = .lost then (if run.t0.isSome then .running else .ready) else l.state

/-- What a heartbeat is answered with, and the lease it leaves. A drain leaves the lease alone. The
release comes when T0 is set and the lease has not been promoted. Then comes a pause, a marked
share, which is sent once and its marker cleared, and otherwise the worker goes on. -/
inductive HeartbeatAnswer (now : Time) (run : Run) (version : ℤ) (l : Lease) (d : Decision) :
    Prop where
  | drain (served : ¬ Served run version) (eq : d = ⟨l, false, .drain⟩)
  | release (t0 : Time) (served : Served run version) (released : run.t0 = some t0)
      (due : l.state = .claimed ∨ l.state = .ready)
      (eq : d = ⟨if t0 ≤ now then { l with state := .running } else l, decide (t0 ≤ now),
        .release t0⟩)
  | pause (served : Served run version)
      (due : run.t0.isSome = true → ¬ (l.state = .claimed ∨ l.state = .ready))
      (paused : run.state = .paused)
        (eq : d = ⟨{ l with state := heardState run l }, false, .pause⟩)
  | retarget (served : Served run version)
      (due : run.t0.isSome = true → ¬ (l.state = .claimed ∨ l.state = .ready))
      (paused : run.state ≠ .paused) (marked : l.share.retarget = true)
      (eq : d = ⟨{ clearRetarget l with state := heardState run l }, false, .retarget l.share.pub⟩)
  | continue_ (served : Served run version)
      (due : run.t0.isSome = true → ¬ (l.state = .claimed ∨ l.state = .ready))
      (paused : run.state ≠ .paused) (marked : l.share.retarget = false)
      (eq : d = ⟨{ l with state := heardState run l }, false, .continue_⟩)

lemma recoverLease_eq (run : Run) (l : Lease) :
    recoverLease run.t0 l = { l with state := heardState run l } := by
  unfold recoverLease heardState
  split_ifs <;> rfl

lemma heardState_not_due {run : Run} {l : Lease} (ht : run.t0.isSome = true)
    (hl : ¬ (l.state = .claimed ∨ l.state = .ready)) :
    ¬ (heardState run l = .claimed ∨ heardState run l = .ready) := by
  unfold heardState
  split_ifs
  · simp
  · exact hl

lemma steadyCommand_answer (now : Time) {run : Run} {version : ℤ} {l : Lease}
    (hs : Served run version)
    (hl : run.t0.isSome = true → ¬ (l.state = .claimed ∨ l.state = .ready)) :
    HeartbeatAnswer now run version l (steadyCommand run (recoverLease run.t0 l)) := by
  have hstay : ¬ ((heardState run l = .claimed ∨ heardState run l = .ready) ∧
      run.t0.isSome = true) :=
    fun h => heardState_not_due h.2 (hl h.2) h.1
  have hpromote : promoteReady run.t0 { l with state := heardState run l } =
      { l with state := heardState run l } := if_neg fun h => hstay ⟨.inr h.1, h.2⟩
  rw [recoverLease_eq]
  unfold steadyCommand
  rw [hpromote]
  split_ifs with hp hm
  · exact .pause hs hl hp rfl
  · exact .retarget hs hl hp hm rfl
  · exact .continue_ hs hl hp (by simpa using hm) rfl

lemma heartbeatCommand_answer (now : Time) (run : Run) (version : ℤ) (l : Lease) :
    HeartbeatAnswer now run version l (heartbeatCommand now run version l) := by
  unfold heartbeatCommand
  by_cases hd : run.state = .draining ∨ run.state.terminal = true
  · rw [if_pos hd]
    refine .drain ?_ rfl
    rintro ⟨h₁, h₂, _⟩
    simp [h₁, h₂] at hd
  rw [if_neg hd]
  rw [not_or] at hd
  by_cases hv : version ∉ supportedProtocolVersions
  · rw [if_pos hv]
    exact .drain (fun h => hv h.2.2) rfl
  rw [if_neg hv]
  have hs : Served run version := ⟨hd.1, by simpa using hd.2, not_not.1 hv⟩
  cases ht : run.t0 with
  | none =>
    have hsteady := steadyCommand_answer now (l := l) hs (by simp [ht])
    rwa [ht] at hsteady
  | some t0 =>
    dsimp only
    by_cases hl : l.state = .claimed ∨ l.state = .ready
    · have hkeep : recoverLease (some t0) l = l := if_neg (by rcases hl with hl | hl <;> simp [hl])
      rw [hkeep, if_pos hl]
      refine .release t0 hs ht hl ?_
      by_cases hn : t0 ≤ now <;> simp [hn]
    · rw [← ht, recoverLease_eq, if_neg (heardState_not_due (by simp [ht]) hl), ← recoverLease_eq]
      exact steadyCommand_answer now hs fun _ => hl

section

variable {now : Time} {run : Run} {version : ℤ} {l : Lease}

/-- A lease that is due for the release is answered with it, and the lease is promoted once T0 has
passed. -/
lemma heartbeatCommand_due {t0 : Time} (hs : Served run version) (ht : run.t0 = some t0)
    (hl : l.state = .claimed ∨ l.state = .ready) :
    heartbeatCommand now run version l =
      ⟨if t0 ≤ now then { l with state := .running } else l, decide (t0 ≤ now), .release t0⟩ := by
  cases heartbeatCommand_answer now run version l with
  | drain hno => exact absurd hs hno
  | release x _ hx _ h =>
    cases ht.symm.trans hx
    exact h
  | pause _ hno | retarget _ hno | continue_ _ hno => exact absurd hl (hno (by simp [ht]))

lemma heartbeatCommand_release {x : Time}
    (h : (heartbeatCommand now run version l).command = .release x) :
    Served run version ∧ run.t0 = some x ∧ (l.state = .claimed ∨ l.state = .ready) := by
  cases heartbeatCommand_answer now run version l with
  | release t0 hs ht hl heq =>
    rw [heq] at h
    cases h
    exact ⟨hs, ht, hl⟩
  | drain _ heq | pause _ _ _ heq | retarget _ _ _ _ heq | continue_ _ _ _ _ heq =>
    rw [heq] at h
    cases h

lemma heartbeatCommand_continue (hs : Served run version)
    (hl : run.t0.isSome = true → ¬ (l.state = .claimed ∨ l.state = .ready))
    (hp : run.state ≠ .paused)
    (hm : l.share.retarget = false) :
    (heartbeatCommand now run version l).command = .continue_ := by
  cases heartbeatCommand_answer now run version l with
  | drain hno => exact absurd hs hno
  | release t0 _ ht hdue => exact absurd hdue (hl (by simp [ht]))
  | pause _ _ hno => exact absurd hno hp
  | retarget _ _ _ hno =>
    rw [hm] at hno
    cases hno
  | continue_ _ _ _ _ h => rw [h]

/-- No answer changes whose lease it is, when it was last heard from or its public share. -/
lemma heartbeatCommand_frame (now : Time) (run : Run) (version : ℤ) (l : Lease) :
    (heartbeatCommand now run version l).lease.ident = l.ident ∧
      (heartbeatCommand now run version l).lease.share.pub = l.share.pub ∧
      (heartbeatCommand now run version l).lease.id = l.id ∧
      (heartbeatCommand now run version l).lease.lastHeartbeatAt = l.lastHeartbeatAt := by
  cases heartbeatCommand_answer now run version l with
  | release t0 _ _ _ h =>
    rw [h]
    split_ifs <;> exact ⟨rfl, rfl, rfl, rfl⟩
  | drain _ h | pause _ _ _ h | retarget _ _ _ _ h | continue_ _ _ _ _ h =>
    rw [h]
    exact ⟨rfl, rfl, rfl, rfl⟩

/-- How an answer moves the lease: not at all, from lost back among the live, or, once T0 is set,
from claimed or ready to running. -/
lemma heartbeatCommand_state (now : Time) (run : Run) (version : ℤ) (l : Lease) :
    (heartbeatCommand now run version l).lease.state = l.state ∨
    (Served run version ∧ l.state = .lost ∧ (heartbeatCommand now run version l).lease.state =
      if run.t0.isSome then .running else .ready) ∨
    ((l.state = .claimed ∨ l.state = .ready) ∧ run.t0.isSome = true ∧
      (heartbeatCommand now run version l).lease.state = .running) := by
  cases heartbeatCommand_answer now run version l with
  | drain _ h => exact .inl (by rw [h])
  | release t0 _ ht hl h =>
    rw [h]
    by_cases hn : t0 ≤ now
    · exact .inr (.inr ⟨hl, by simp [ht], by simp [hn]⟩)
    · exact .inl (by simp [hn])
  | pause hs _ _ h | retarget hs _ _ _ h | continue_ hs _ _ _ h =>
    rw [h]
    dsimp only [heardState]
    by_cases hlost : l.state = .lost
    · exact .inr (.inl ⟨hs, hlost, if_pos hlost⟩)
    · exact .inl (if_neg hlost)

/-- A share is marked to be pushed, and nothing goes before it. -/
def PushReady (run : Run) (version : ℤ) (l : Lease) : Prop :=
  Served run version ∧ run.state ≠ .paused ∧
    (run.t0.isSome = true → ¬ (l.state = .claimed ∨ l.state = .ready)) ∧ l.share.retarget = true

/-- A retarget is the answer exactly when a push is ready, and it carries the stored share. -/
lemma heartbeatCommand_retarget (now : Time) (run : Run) (version : ℤ) (l : Lease)
    (share : PublicShare) :
    (heartbeatCommand now run version l).command = .retarget share ↔
      PushReady run version l ∧ share = l.share.pub := by
  cases heartbeatCommand_answer now run version l with
  | drain hno h => simp [h, PushReady, hno]
  | release t0 _ ht hl h => simp [h, PushReady, ht, hl]
  | pause _ _ hp h => simp [h, PushReady, hp]
  | retarget hs hl hp hm h =>
    rw [h]
    refine ⟨?_, ?_⟩
    · rintro ⟨⟩
      exact ⟨⟨hs, hp, hl, hm⟩, rfl⟩
    · rintro ⟨-, rfl⟩
      rfl
  | continue_ _ _ _ hm h => simp [h, PushReady, hm]

/-- The marker of a share is cleared by the push and by nothing else. -/
lemma heartbeatCommand_marker (h : ∀ share,
    (heartbeatCommand now run version l).command ≠ .retarget share) :
    (heartbeatCommand now run version l).lease.share.retarget = l.share.retarget := by
  cases heartbeatCommand_answer now run version l with
  | release t0 _ _ _ heq =>
    rw [heq]
    split_ifs <;> rfl
  | retarget _ _ _ _ heq => exact absurd (congrArg Decision.command heq) (h _)
  | drain _ heq | pause _ _ _ heq | continue_ _ _ _ _ heq => rw [heq]

end

def maybeMarkRunning (now : Time) (db : Db) : Db :=
  if db.run.state = .releasing then transitionRun now .running none db else db

/-- The lease as a heartbeat leaves it before the command is decided: renewed, with the worker's
declarations stored. -/
def renewLease (now : Time) (hb : Heartbeat) (l : Lease) : Lease :=
  storeEngineReport hb.engineImpl hb.envelope
    (storeAssignedWork hb.assignedWork hb.assignedReason { l with lastHeartbeatAt := some now })

/-- Renewing a lease touches its heartbeat instant and the private keys of its share. -/
lemma renewLease_frame (now : Time) (hb : Heartbeat) (l : Lease) :
    (renewLease now hb l).ident = l.ident ∧ (renewLease now hb l).state = l.state ∧
      (renewLease now hb l).share.pub = l.share.pub ∧
      (renewLease now hb l).share.retarget = l.share.retarget := by
  obtain ⟨h₁, h₂, h₃, h₄⟩ := storeEngineReport_frame hb.engineImpl hb.envelope
    (storeAssignedWork hb.assignedWork hb.assignedReason { l with lastHeartbeatAt := some now })
  obtain ⟨g₁, g₂, g₃, g₄⟩ := storeAssignedWork_frame hb.assignedWork hb.assignedReason
    { l with lastHeartbeatAt := some now }
  exact ⟨h₁.trans g₁, h₂.trans g₂, h₃.trans g₃, h₄.trans g₄⟩

section

variable (now : Time) (run : Run) (version : ℤ) (hb : Heartbeat) (l : Lease)

lemma answered_ident :
    (heartbeatCommand now run version (renewLease now hb l)).lease.ident = l.ident :=
  (heartbeatCommand_frame now run version _).1.trans (renewLease_frame now hb l).1

/-- A lease that is heard from keeps its state, comes back or starts. -/
lemma answered_state :
    (heartbeatCommand now run version (renewLease now hb l)).lease.state = l.state ∨
    (Served run version ∧ l.state = .lost ∧
      (heartbeatCommand now run version (renewLease now hb l)).lease.state =
        if run.t0.isSome then .running else .ready) ∨
    ((l.state = .claimed ∨ l.state = .ready) ∧ run.t0.isSome = true ∧
      (heartbeatCommand now run version (renewLease now hb l)).lease.state = .running) := by
  have hstate := heartbeatCommand_state now run version (renewLease now hb l)
  rwa [(renewLease_frame now hb l).2.1] at hstate

end

/-- The `paused_s` of an answer, rounded to a millisecond. -/
def replyPausedS (paused : Time) (command : Command) : Option Time :=
  if 0 < paused ∧ command ≠ .superseded ∧
    command ≠ .drain then some (pyRound (paused * 1000) / 1000)
  else none

/-- What a heartbeat stores: the lease, the counters, and an HEC auth failure on the audit trail. -/
def storeHeartbeat (now : Time) (hb : Heartbeat) (lease : Lease) (db : Db) : Db :=
  let stored := { db.updateLease hb.slot (fun _ => lease) with
    samples := db.samples ++ [⟨hb.slot, now, hb.counters⟩] }
  if hb.authFailed then stored.appendEvent now (.hecAuthFailed hb.slot) else stored

def crossT0 (now : Time) (slot : ℕ) (db : Db) : Db :=
  maybeMarkRunning now (db.appendEvent now (.running slot))

def recordHeartbeat (now : Time) (hb : Heartbeat) (db : Db) : Db × Reply :=
  match db.findLease hb.slot with
  | none => (db, { command := .superseded })
  | some lease =>
    if isLeaseHolder (some lease) hb.leaseId = false then (db, { command := .superseded })
    else
      let decision := heartbeatCommand now db.run hb.protocolVersion (renewLease now hb lease)
      let stored := storeHeartbeat now hb decision.lease db
      (if decision.crossed then crossT0 now hb.slot stored else stored,
        { command := decision.command
          pausedS := replyPausedS (pausedSeconds now db.run) decision.command })

/-! ### record_final -/

/-- A worker's final report. -/
structure Final where
  slot : ℕ
  leaseId : Option LeaseId
  summary : Totals
  logTail : List String := []
  deriving DecidableEq

/-- `record_final`. The lease id is optional; when it is given, it fences. -/
def recordFinal (now : Time) (f : Final) (db : Db) : Except HttpError Db :=
  match db.findLease f.slot with
  | none => .error ⟨409, "unknown slot"⟩
  | some lease =>
    if f.leaseId.isSome = true ∧ isLeaseHolder (some lease) f.leaseId = false then .ok db
    else
      let logged := db.updateLease f.slot fun l => { l with finalLogTail := some f.logTail }
      if lease.state = .done then .ok (maybeCompleteRun now logged)
      else
        match foldTotals db.run.totals f.summary with
        | .error e => .error ⟨500, e⟩
        | .ok totals =>
          let folded := { logged with run := { logged.run with totals := totals } }
          .ok (maybeCompleteRun now
            ((folded.updateLease f.slot fun l => { l with state := .done }).appendEvent now
              (.final f.slot)))

end Stoker
