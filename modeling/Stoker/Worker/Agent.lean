import Stoker.Server.System

/-!
# The worker

The control side of the agent (`worker/stoker_agent/agent.py`, `control.py`, `slice.py`): it claims
a lease, warms up and posts ready, waits for the release, and then generates while its heartbeats
are answered with commands. The two loops treat an answer differently. While it waits
(`_await_release`) a worker looks for a release or a drain and for nothing else; while it generates
(`_apply_command`) it follows every command, and a release means nothing to it any more.
-/

namespace Stoker

/-- `FENCE_PAUSE_S`: a worker holds its output after this long without an acknowledgement. -/
def fencePauseS : Time := 30

/-- `_SHARE_KEYS`. -/
def ShareKey.mode : ShareKey → RateMode
  | .eps => .eps
  | .perDayGb => .perDayGb
  | .count => .countInterval

@[simp] lemma RateMode.key_mode (m : RateMode) : m.key.mode = m := by cases m <;> rfl

inductive Phase where
  | preparing
  | waiting
  | started (t0 : Time)
  deriving DecidableEq

structure Worker where
  holder : String
  slot : ℕ
  leaseId : LeaseId
  rateMode : RateMode
  rateValue : ℚ
  released : Bool
  effectiveT0 : Option Time
  phase : Phase := .preparing
  operatorPaused : Bool := false
  draining : Bool := false
  pausedS : Time := 0
  lastAck : Time
  deriving DecidableEq

/-- Why a claim's answer is refused. -/
inductive SliceError where
  | shareKeys
  | shareNotPositive (key : ShareKey)
  deriving DecidableEq

/-- The share of a slice, as `from_claim` reads it: one key, and a positive value unless the pace is
the pack's own. -/
def sliceRate : PublicShare → Except SliceError (RateMode × ℚ)
  | [(key, value)] =>
    if key.mode ≠ .countInterval ∧ value ≤ 0 then .error (.shareNotPositive key)
    else .ok (key.mode, value)
  | _ => .error .shareKeys

namespace Worker

/-- The worker that a claim's answer starts (`_claim`, `from_claim`). -/
def ofSlice (now : Time) (holder : String) (slice : Slice) : Except SliceError Worker := do
  let (mode, value) ← sliceRate slice.share
  return { holder := holder
           slot := slice.slot
           leaseId := slice.leaseId
           rateMode := mode
           rateValue := value
           released := slice.released
           effectiveT0 := slice.effectiveT0.filter (· ≠ 0)
           lastAck := now }

/-- The share the worker is working with, as it was sent. -/
def share (w : Worker) : PublicShare := [(w.rateMode.key, w.rateValue)]

/-- The ready post is acknowledged: a worker whose slice was released starts, any other one
waits. -/
def readied (now : Time) (w : Worker) : Worker :=
  { w with
    lastAck := now
    phase := if w.released then .started (w.effectiveT0.getD now) else .waiting }

/-- `_retarget`: a share that is not one positive value of the worker's own mode is ignored. -/
def retarget (share : PublicShare) (w : Worker) : Worker :=
  match share with
  | [(key, value)] =>
    if key.mode ≠ w.rateMode ∨ value ≤ 0 then w else { w with rateValue := value }
  | _ => w

def awaitRelease (command : Command) (w : Worker) : Worker :=
  match command with
  | .release t0 => { w with phase := .started t0 }
  | .drain => { w with draining := true }
  | _ => w

def applyCommand (reply : Reply) (w : Worker) : Worker :=
  let w := { w with pausedS := (reply.pausedS.filter (0 ≤ ·)).getD w.pausedS }
  match reply.command with
  | .pause => { w with operatorPaused := true }
  | .drain => { w with draining := true }
  | .retarget share => retarget share { w with operatorPaused := false }
  | _ => { w with operatorPaused := false }

/-- The answer to a heartbeat arrives (`ControlClient.heartbeat`, then the loop the worker is in).
An answer `superseded` is no acknowledgement; it ends the worker. -/
def handle (now : Time) (reply : Reply) (w : Worker) : Worker :=
  if w.draining then w
  else if reply.command = .superseded then { w with draining := true }
  else
    match w.phase with
    | .preparing => w
    | .waiting => awaitRelease reply.command { w with lastAck := now }
    | .started _ => applyCommand reply { w with lastAck := now }

/-- The worker sends heartbeats: while it waits for the release, and from T0 on. -/
def beats (now : Time) (w : Worker) : Bool :=
  !w.draining && match w.phase with
    | .preparing => false
    | .waiting => true
    | .started t0 => decide (t0 ≤ now)

/-- The heartbeat a worker sends, with the counters and declarations of `payload`. -/
def heartbeat (payload : Heartbeat) (w : Worker) : Heartbeat :=
  { payload with slot := w.slot, leaseId := some w.leaseId, protocolVersion := 1 }

def shouldPause (now : Time) (w : Worker) : Bool := decide (fencePauseS < now - w.lastAck)

/-- The bucket is open: the worker was released, and neither the operator, a drain nor the fence
holds it. -/
def isOpen (now : Time) (w : Worker) : Bool :=
  (match w.phase with
    | .started t0 => decide (t0 ≤ now)
    | _ => false) &&
  !w.operatorPaused && !w.draining && !w.shouldPause now

/-- A worker that sends heartbeats is past its preparation and not draining. -/
lemma running_of_beats {now : Time} {w : Worker} (h : w.beats now = true) :
    w.draining = false ∧ w.phase ≠ .preparing := by
  unfold beats at h
  rw [Bool.and_eq_true] at h
  refine ⟨by simpa using h.1, fun hp => ?_⟩
  rw [hp] at h
  cases h.2

/-! ### A worker starts -/

/-- What a worker keeps: whose it is, its lease, its mode and whether its slice was released. -/
def ident (w : Worker) : String × ℕ × LeaseId × RateMode × Bool :=
  (w.holder, w.slot, w.leaseId, w.rateMode, w.released)

lemma ofSlice_ok {now : Time} {holder : String} {slice : Slice} {w : Worker}
    (h : ofSlice now holder slice = .ok w) :
    sliceRate slice.share = .ok (w.rateMode, w.rateValue) ∧
      w.ident = (holder, slice.slot, slice.leaseId, w.rateMode, slice.released) ∧
      w.phase = .preparing ∧ w.draining = false ∧ w.lastAck = now := by
  unfold ofSlice at h
  cases hr : sliceRate slice.share with
  | error e =>
    rw [hr] at h
    cases h
  | ok r =>
    rw [hr] at h
    cases h
    exact ⟨rfl, rfl, rfl, rfl, rfl⟩

/-! ### What an answer changes -/

lemma retarget_ident (share : PublicShare) (w : Worker) : (w.retarget share).ident = w.ident := by
  unfold retarget
  split
  · split_ifs <;> rfl
  · rfl

lemma retarget_phase (share : PublicShare) (w : Worker) : (w.retarget share).phase = w.phase := by
  unfold retarget
  split
  · split_ifs <;> rfl
  · rfl

lemma retarget_lastAck (share : PublicShare) (w : Worker) :
    (w.retarget share).lastAck = w.lastAck := by
  unfold retarget
  split
  · split_ifs <;> rfl
  · rfl

lemma retarget_share {w : Worker} {value : ℚ} (h : 0 < value) :
    (w.retarget [(w.rateMode.key, value)]).share = [(w.rateMode.key, value)] := by
  simp [retarget, share, not_le.2 h]

lemma awaitRelease_ident (command : Command) (w : Worker) :
    (w.awaitRelease command).ident = w.ident := by
  cases command <;> rfl

lemma applyCommand_ident (reply : Reply) (w : Worker) : (w.applyCommand reply).ident = w.ident := by
  unfold applyCommand
  cases reply.command with
  | retarget share => exact retarget_ident share _
  | _ => rfl

lemma applyCommand_phase (reply : Reply) (w : Worker) : (w.applyCommand reply).phase = w.phase := by
  unfold applyCommand
  cases reply.command with
  | retarget share => exact retarget_phase share _
  | _ => rfl

section

variable (now : Time) (reply : Reply) (w : Worker)

/-- An answer is ignored, ends the worker, or is handed to the loop the worker is in. -/
lemma handle_cases :
    (w.handle now reply = w ∧ (w.draining = true ∨ w.phase = .preparing)) ∨
    w.handle now reply = { w with draining := true } ∨
    (w.phase = .waiting ∧
      w.handle now reply = awaitRelease reply.command { w with lastAck := now }) ∨
    ∃ t0, w.phase = .started t0 ∧ w.handle now reply =
      applyCommand reply { w with lastAck := now } := by
  unfold handle
  by_cases hd : w.draining = true
  · rw [if_pos hd]
    exact .inl ⟨rfl, .inl hd⟩
  rw [if_neg hd]
  by_cases hs : reply.command = .superseded
  · rw [if_pos hs]
    exact .inr (.inl rfl)
  rw [if_neg hs]
  cases hp : w.phase with
  | preparing => exact .inl ⟨rfl, .inr rfl⟩
  | waiting => exact .inr (.inr (.inl ⟨rfl, rfl⟩))
  | started t0 => exact .inr (.inr (.inr ⟨t0, rfl, rfl⟩))

lemma handle_ident : (w.handle now reply).ident = w.ident := by
  rcases handle_cases now reply w with ⟨h, _⟩ | h | ⟨_, h⟩ | ⟨t0, _, h⟩ <;> rw [h]
  · rfl
  · exact awaitRelease_ident reply.command _
  · exact applyCommand_ident reply _

end

section

variable {now : Time} {reply : Reply} {w : Worker}

/-- A worker that has started stays started, and one that still prepares is not moved. -/
lemma handle_phase (h : w.phase ≠ .waiting) : (w.handle now reply).phase = w.phase := by
  rcases handle_cases now reply w with ⟨hw, _⟩ | hw | ⟨hp, _⟩ | ⟨t0, _, hw⟩
  · rw [hw]
  · rw [hw]
  · exact absurd hp h
  · rw [hw]
    exact applyCommand_phase reply _

lemma handle_draining (h : w.draining = true) : w.handle now reply = w := by
  simp [handle, h]

/-- An answer renews the contact, if anything, at the time it arrives; `superseded` does not. -/
lemma handle_lastAck : (w.handle now reply).lastAck = w.lastAck ∨
    ((w.handle now reply).lastAck = now ∧ reply.command ≠ .superseded) := by
  unfold handle
  split_ifs with hd hs
  · exact .inl rfl
  · exact .inl rfl
  · split
    · exact .inl rfl
    · refine .inr ⟨?_, hs⟩
      cases reply.command <;> rfl
    · refine .inr ⟨?_, hs⟩
      unfold applyCommand
      cases reply.command with
      | retarget share => exact retarget_lastAck share _
      | _ => rfl

/-- Nothing but a release ends the wait. -/
lemma handle_waiting (h : w.phase = .waiting) (hr : ∀ t0, reply.command ≠ .release t0) :
    (w.handle now reply).phase = .waiting := by
  rcases handle_cases now reply w with ⟨hw, _⟩ | hw | ⟨_, hw⟩ | ⟨t0, hp, _⟩
  · rw [hw, h]
  · rw [hw]
    exact h
  · rw [hw]
    cases hc : reply.command with
    | release t0 => exact absurd hc (hr t0)
    | _ => exact h
  · cases h.symm.trans hp

variable {t0 : Time}

lemma handle_release (hd : w.draining = false) (h : w.phase = .waiting)
    (hr : reply.command = .release t0) : (w.handle now reply).phase = .started t0 := by
  simp [handle, hd, hr, h, awaitRelease]

/-- A worker that has not started ignores every retarget. -/
lemma handle_share_unstarted (h : ∀ t0, w.phase ≠ .started t0) :
    (w.handle now reply).share = w.share := by
  rcases handle_cases now reply w with ⟨hw, _⟩ | hw | ⟨_, hw⟩ | ⟨t0, hp, _⟩
  · rw [hw]
  · rw [hw]
    rfl
  · rw [hw]
    cases reply.command <;> rfl
  · exact absurd hp (h t0)

lemma handle_share (hr : ∀ share, reply.command ≠ .retarget share) :
    (w.handle now reply).share = w.share := by
  by_cases hp : ∀ t0, w.phase ≠ .started t0
  · exact handle_share_unstarted hp
  rcases handle_cases now reply w with ⟨hw, _⟩ | hw | ⟨h, _⟩ | ⟨t0, _, hw⟩
  · rw [hw]
  · rw [hw]
    rfl
  · exact absurd (fun t0 ht => by cases h.symm.trans ht) hp
  · rw [hw]
    unfold applyCommand
    cases hc : reply.command with
    | retarget share => exact absurd hc (hr share)
    | _ => rfl

lemma handle_retarget {share : PublicShare} (hd : w.draining = false) (h : w.phase = .started t0)
    (hr : reply.command = .retarget share) :
    (w.handle now reply).share = (w.retarget share).share := by
  have hw : w.handle now reply = applyCommand reply { w with lastAck := now } := by
    simp [handle, hd, hr, h]
  rw [hw]
  unfold applyCommand
  rw [hr]
  dsimp only
  unfold retarget
  split
  · dsimp only
    split_ifs <;> rfl
  · rfl

end

end Worker

end Stoker
