import Stoker.Worker.Agent
import Stoker.Worker.Pacing

/-!
# Holds on the output

What opens and closes an agent's bucket (`stoker_agent/agent.py`): the release, the fence for lost
contact and the operator's pause. The loop thread goes through its calls in order, a heartbeat's
answer, the look at the fence, the command; time passes between them, and the socket reader takes
events off the bucket meanwhile.

Both holds share the one flag of the bucket, and only the operator's resume sets a new anchor. It
skips that while the fence is up, and the fence, when it lifts, resumes the old anchor: then the
operator's pause is made up for. And a worker that was fenced while it waited for the release starts
with the fence still marked as up, so the next look finds nothing to pause.
-/

namespace Stoker

open Transition

/-! ### The agent -/

/-- How an agent turns a share into the rate of its bucket. -/
structure Pace where
  bytesPerEvent : ℚ := 256
  shape : Option (ℚ → Time → ℚ) := none

def Pace.gatingEps (pace : Pace) (mode : RateMode) (value : ℚ) : Option ℚ :=
  match mode with
  | .eps => some value
  | .perDayGb => some (value * 1000000000 / pace.bytesPerEvent / 86400)
  | .countInterval => none

/-- How far a worker is, and when it may start. -/
inductive Progress where
  | waiting
  | released (t0 : Time)
  | running
  deriving DecidableEq

/-- `_state`, as heartbeats report it. -/
inductive AgentState where
  | ready
  | generating
  | paused
  deriving DecidableEq

structure Agent where
  bucket : TokenBucket
  rateMode : RateMode
  rateValue : ℚ
  shapeShare : Option ℚ := none
  effectiveT0 : Option Time := none
  fencingPaused : Bool := false
  operatorPaused : Bool := false
  pausedS : Time := 0
  state : AgentState := .ready
  progress : Progress
  draining : Bool := false
  lastAck : Time
  /-- The answer the loop has in hand, and whether it has looked at the fence since. -/
  answer : Option (Reply × Bool) := none
  clock : Time
  deriving DecidableEq

inductive AgentEvent where
  | heard (now : Time) (reply : Reply)
  | missed (now : Time)
  | check (now : Time)
  | apply (now : Time)
  | shape (now : Time)
  | begin (now : Time)
  | take (now : Time)
  | takeMany (now : Time) (n : ℕ)
  | lag (now : Time)
  | drain (now : Time)
  | close (now : Time)
  deriving DecidableEq

def AgentEvent.time : AgentEvent → Time
  | .heard now _ | .missed now | .check now | .apply now | .shape now | .begin now | .take now
  | .takeMany now _ | .lag now | .drain now | .close now => now

namespace Agent

def shouldPause (now : Time) (a : Agent) : Bool := decide (fencePauseS < now - a.lastAck)

def checkFencing (now : Time) (a : Agent) : Agent :=
  if a.shouldPause now then
    if a.fencingPaused then a
    else { a with bucket := a.bucket.pause, fencingPaused := true, state := .paused }
  else if a.fencingPaused then
    -- the operator's pause outlives the fence
    if a.operatorPaused then { a with fencingPaused := false }
    else { a with bucket := a.bucket.resume, fencingPaused := false, state := .generating }
  else a

def operatorPause (a : Agent) : Agent :=
  if a.operatorPaused then a
  else { a with bucket := a.bucket.pause, operatorPaused := true, state := .paused }

def operatorResume (now : Time) (a : Agent) : Agent :=
  if a.operatorPaused then
    if a.fencingPaused then { a with operatorPaused := false }
    else
      { a with
        bucket := (a.bucket.anchorAt now).resume
        operatorPaused := false
        state := .generating }
  else a

/-- `_retarget`: a share that is not one positive value of the agent's own mode is ignored, and the
bucket of a run with the pack's own pace is left alone. -/
def retarget (pace : Pace) (now : Time) (share : PublicShare) (a : Agent) : Agent :=
  match share with
  | [(key, value)] =>
    if key.mode ≠ a.rateMode ∨ value ≤ 0 then a
    else
      match pace.gatingEps a.rateMode value with
      | none => { a with rateValue := value }
      | some eps =>
        match pace.shape with
        | none => { a with rateValue := value, bucket := a.bucket.retarget now eps }
        | some curve =>
          { a with
            rateValue := value
            shapeShare := some eps
            bucket := a.bucket.retarget now (curve eps now) }
  | _ => a

def applyCommand (pace : Pace) (now : Time) (reply : Reply) (a : Agent) : Agent :=
  let a := { a with pausedS := (reply.pausedS.filter (0 ≤ ·)).getD a.pausedS }
  match reply.command with
  | .pause => a.operatorPause
  | .drain => { a with draining := true }
  | .retarget share => (a.operatorResume now).retarget pace now share
  | .continue_ | .release _ | .superseded => a.operatorResume now

/-- `_apply_shape`: the bucket follows the curve, small changes apart. -/
def applyShape (pace : Pace) (now : Time) (a : Agent) : Agent :=
  match pace.shape, a.shapeShare with
  | some curve, some share =>
    let want := curve share now
    if |want - a.bucket.rate| > 5 / 1000 * max a.bucket.rate (1 / 1000000000) then
      { a with bucket := a.bucket.retarget now want }
    else a
  | _, _ => a

/-- A heartbeat is answered: `heartbeat`, then the loop that sent it. The waiting loop reads the
answer at once, the running one looks at the fence first. -/
def hear (now : Time) (reply : Reply) (a : Agent) : Agent :=
  if reply.command = .superseded then { a with draining := true }
  else
    match a.progress with
    | .waiting =>
      let a := { a with lastAck := now }
      match reply.command with
      | .release t0 => { a with progress := .released t0 }
      | .drain => { a with draining := true }
      | .pause | .retarget _ | .continue_ | .superseded => a
    | .running => if a.answer = none
        then { a with lastAck := now, answer := some (reply, false) } else a
    | .released _ => a

/-- T0 has come: the bucket is anchored and opened. -/
def begin (now : Time) (a : Agent) : Agent :=
  match a.progress with
  | .released t0 =>
    if t0 ≤ now ∧ a.draining = false then
      { a with
        bucket := (a.bucket.anchorAt ((a.effectiveT0.filter (· ≠ 0)).getD t0)).resume
        state := .generating
        progress := .running }
    else a
  | .waiting | .running => a

/-- The fence is looked at in both loops, and once for each answer. -/
def check (now : Time) (a : Agent) : Agent :=
  match a.progress with
  | .waiting => a.checkFencing now
  | .running =>
    { a.checkFencing now with answer := a.answer.map fun p => (p.1, true) }
  | .released _ => a

/-- The command of the answer in hand. -/
def apply (pace : Pace) (now : Time) (a : Agent) : Agent :=
  match a.progress, a.answer with
  | .running, some (reply, true) => { a with answer := none }.applyCommand pace now reply
  | _, _ => a

/-- How many events leave the bucket at an event. -/
def outcome (e : AgentEvent) (a : Agent) : ℕ :=
  match e with
  | .take now => (a.bucket.tryTake now).2
  | .takeMany now n => (a.bucket.acquireMany now n).2
  | _ => 0

def act (pace : Pace) (e : AgentEvent) (a : Agent) : Agent :=
  match e with
  | .heard now reply => a.hear now reply
  | .missed _ => a
  | .check now => a.check now
  | .apply now => a.apply pace now
  | .shape now => if a.progress = .running then a.applyShape pace now else a
  | .begin now => a.begin now
  | .take now => { a with bucket := (a.bucket.tryTake now).1 }
  | .takeMany now n => { a with bucket := (a.bucket.acquireMany now n).1 }
  | .lag now => { a with bucket := (a.bucket.lagS now).1 }
  -- a drain ends the loop with the round it is in; letting it go on only adds runs
  | .drain _ => { a with draining := true }
  | .close _ => { a with bucket := a.bucket.close }

/-- Time does not go back: an event that comes too late does not happen. -/
def step (pace : Pace) (e : AgentEvent) (a : Agent) : Agent :=
  if a.clock ≤ e.time then act pace e { a with clock := e.time } else a

end Agent

/-! ### The quota outside the operator's pauses -/

/-- What an observer knows since the worker started or the operator's last pause ended: the quota
for the time outside that pause, at the rates the bucket had, and the events released. -/
structure PauseBooks where
  earned : ℚ := 0
  taken : ℕ := 0
  deriving DecidableEq

namespace PauseBooks

def pass (now : Time) (a : Agent) (w : PauseBooks) : PauseBooks :=
  { w with earned := w.earned + if a.operatorPaused then 0 else a.bucket.rate * (now - a.clock) }

/-- Something happens. The books start over when the worker starts, with the quota since its anchor,
and when the operator's pause ends, with none. -/
def note (e : AgentEvent) (a a' : Agent) (w : PauseBooks) : PauseBooks :=
  if a'.progress = .running ∧ a.progress ≠ .running then ⟨a'.bucket.owed a'.clock, 0⟩
  else if a.operatorPaused = true ∧ a'.operatorPaused = false then ⟨0, 0⟩
  else { w with taken := w.taken + a.outcome e }

def see (e : AgentEvent) (a a' : Agent) (w : PauseBooks) : PauseBooks :=
  if a.clock ≤ e.time then (w.pass e.time a).note e a a' else w

end PauseBooks

/-- The holds compose and no pause is made up for: once the worker runs, its bucket is paused
exactly when the fence or the operator holds it, what it owes is within the quota outside the
operator's pauses, and so is what it has released, up to the event under way. -/
structure Kept (a : Agent) (w : PauseBooks) : Prop where
  idle : a.progress ≠ .running → a.operatorPaused = false
  paused : a.progress = .running → a.bucket.paused = (a.fencingPaused || a.operatorPaused)
  released : a.progress = .running → a.bucket.released = w.taken
  owed : a.progress = .running → a.operatorPaused = false → a.bucket.owed a.clock ≤ w.earned
  bound : a.progress = .running → (w.taken : ℚ) < max w.earned 0 + 1

/-- The clock, the holds and what the bucket has released are the same, and it owes no more. -/
structure Agent.Alike (a a' : Agent) : Prop where
  clock : a'.clock = a.clock
  running : a'.progress = .running ↔ a.progress = .running
  operator : a'.operatorPaused = a.operatorPaused
  fence : a'.fencingPaused = a.fencingPaused
  paused : a'.bucket.paused = a.bucket.paused
  released : a'.bucket.released = a.bucket.released
  owed : a'.bucket.owed a.clock ≤ a.bucket.owed a.clock

lemma Agent.Alike.refl (a : Agent) : a.Alike a := ⟨rfl, Iff.rfl, rfl, rfl, rfl, rfl, le_rfl⟩

namespace Kept

variable {a a' : Agent} {w : PauseBooks}

lemma pass (h : Kept a w) {now : Time} (hle : a.clock ≤ now) :
    Kept { a with clock := now } (w.pass now a) where
  idle := h.idle
  paused := h.paused
  released := h.released
  owed hrun hop := by
    have hlater := a.bucket.owed_later a.clock now
    have howed := h.owed hrun hop
    simp only [PauseBooks.pass, show a.operatorPaused = false from hop, Bool.false_eq_true,
      if_false]
    linarith
  bound hrun := by
    have hmore : 0 ≤ a.bucket.rate * (now - a.clock) :=
      mul_nonneg a.bucket.rate_pos.le (sub_nonneg.mpr hle)
    have hearned : w.earned ≤ (w.pass now a).earned := by
      simp only [PauseBooks.pass]
      split
      · simp
      · linarith
    exact lt_of_lt_of_le (h.bound hrun) (by simpa using max_le_max_right 0 hearned)

/-- The bucket lets go of some events, or of none, and the operator does not resume. -/
lemma moves (h : Kept a w) {k : ℕ} (hclock : a'.clock = a.clock)
    (hrun : a'.progress = .running ↔ a.progress = .running)
    (hop : a'.operatorPaused = false → a.operatorPaused = false)
    (hidle : a.progress ≠ .running → a'.operatorPaused = a.operatorPaused)
    (hpaused : a.progress = .running → a'.bucket.paused = (a'.fencingPaused || a'.operatorPaused))
    (hreleased : a'.bucket.released = a.bucket.released + k)
    (howed : a'.bucket.owed a.clock ≤ a.bucket.owed a.clock)
    (hwithin : k ≠ 0 → a.bucket.paused = false ∧
      (a'.bucket.released : ℚ) < a.bucket.owed a.clock + 1) :
    Kept a' { w with taken := w.taken + k } where
  idle hnr := by
    have hidle' : a.progress ≠ .running := fun hr => hnr (hrun.mpr hr)
    rw [hidle hidle', h.idle hidle']
  paused hr := hpaused (hrun.mp hr)
  released hr := by rw [hreleased, h.released (hrun.mp hr)]
  owed hr ho := by
    rw [hclock]
    exact howed.trans (h.owed (hrun.mp hr) (hop ho))
  bound hr := by
    rw [hrun] at hr
    by_cases hk : k = 0
    · simpa [hk] using h.bound hr
    · obtain ⟨hopen, hlt⟩ := hwithin hk
      have hflags := h.paused hr
      rw [hopen, eq_comm, Bool.or_eq_false_iff] at hflags
      have hearned := h.owed hr hflags.2
      rw [hreleased, h.released hr] at hlt
      calc ((w.taken + k : ℕ) : ℚ) < a.bucket.owed a.clock + 1 := hlt
        _ ≤ w.earned + 1 := by linarith
        _ ≤ max w.earned 0 + 1 := by gcongr; exact le_max_left _ _

/-- Nothing that the books or the holds are about changes. -/
lemma same (h : Kept a w) (hs : a.Alike a') : Kept a' w :=
  h.moves (k := 0) hs.clock hs.running (by rw [hs.operator]; exact id) (fun _ => hs.operator)
    (fun hr => by rw [hs.paused, hs.fence, hs.operator, h.paused hr]) hs.released hs.owed
    (fun hk => absurd rfl hk)

end Kept

/-! ### One event -/

namespace Agent

variable {pace : Pace} {now : Time} {a : Agent}

/-- No hold is up where it must not be: the worker was not fenced when it starts, and no fence is up
when a command ends the operator's pause. -/
def Clear (e : AgentEvent) (a : Agent) : Prop :=
  match e with
  | .begin _ => a.fencingPaused = false
  | .apply _ =>
    ∀ p ∈ a.answer, a.operatorPaused = true → a.fencingPaused = true →
      p.1.command = .pause ∨ p.1.command = .drain
  | _ => True

instance (e : AgentEvent) (a : Agent) : Decidable (Clear e a) :=
  match e with
  | .begin _ => inferInstanceAs (Decidable (a.fencingPaused = false))
  | .apply _ => inferInstanceAs (Decidable (∀ p ∈ a.answer, _))
  | .heard .. | .missed _ | .check _ | .shape _ | .take _ | .takeMany .. | .lag _ | .drain _
  | .close _ => isTrue trivial

/-! #### What each call leaves alone -/

lemma checkFencing_frame (now : Time) (a : Agent) :
    (a.checkFencing now).clock = a.clock ∧ (a.checkFencing now).progress = a.progress ∧
      (a.checkFencing now).operatorPaused = a.operatorPaused ∧
      (a.checkFencing now).bucket.released = a.bucket.released ∧
      (a.checkFencing now).bucket.owed a.clock = a.bucket.owed a.clock := by
  unfold checkFencing
  split_ifs <;> exact ⟨rfl, rfl, rfl, rfl, rfl⟩

/-- A bucket that is paused for the two holds stays so. -/
lemma checkFencing_paused (h : a.bucket.paused = (a.fencingPaused || a.operatorPaused)) :
    (a.checkFencing now).bucket.paused =
      ((a.checkFencing now).fencingPaused || (a.checkFencing now).operatorPaused) := by
  unfold checkFencing
  split_ifs <;> simp_all [TokenBucket.pause, TokenBucket.resume]

/-- A new rate for the bucket, in the moment it is set. -/
lemma Alike.retarget (a : Agent) (rate : ℚ) :
    a.Alike { a with bucket := a.bucket.retarget a.clock rate } := by
  have hframe : (a.bucket.retarget a.clock rate).paused = a.bucket.paused ∧
      (a.bucket.retarget a.clock rate).released = a.bucket.released := by
    unfold TokenBucket.retarget
    split <;> exact ⟨rfl, rfl⟩
  exact ⟨rfl, Iff.rfl, rfl, rfl, hframe.1, hframe.2, (TokenBucket.owed_retarget ..).le⟩

lemma retarget_alike (pace : Pace) (share : PublicShare) (a : Agent) :
    a.Alike (a.retarget pace a.clock share) := by
  unfold retarget
  split
  · split_ifs
    · exact .refl a
    · split
      · exact ⟨rfl, Iff.rfl, rfl, rfl, rfl, rfl, le_rfl⟩
      · split
        all_goals
          have hrate := Alike.retarget a
          exact ⟨rfl, Iff.rfl, rfl, rfl, (hrate _).paused, (hrate _).released, (hrate _).owed⟩
  · exact .refl a

lemma applyShape_alike (pace : Pace) (a : Agent) : a.Alike (a.applyShape pace a.clock) := by
  unfold applyShape
  split
  · dsimp only
    split_ifs
    · exact .retarget a _
    · exact .refl a
  · exact .refl a

lemma hear_alike (now : Time) (reply : Reply) (a : Agent) : a.Alike (a.hear now reply) := by
  unfold hear
  split
  · exact ⟨rfl, Iff.rfl, rfl, rfl, rfl, rfl, le_rfl⟩
  · cases hp : a.progress with
    | waiting =>
      cases reply.command <;> exact ⟨rfl, by simp [hp], rfl, rfl, rfl, rfl, le_rfl⟩
    | running =>
      dsimp only
      split
      · exact ⟨rfl, by simp [hp], rfl, rfl, rfl, rfl, le_rfl⟩
      · exact .refl a
    | released t0 => exact .refl a

end Agent

variable {e : AgentEvent}

namespace Kept

variable {pace : Pace} {now : Time} {a : Agent} {w : PauseBooks} {a' : Agent}

/-- What the books make of an event that is neither the start nor the end of a pause. -/
lemma note_eq (hrun : a'.progress = .running → a.progress = .running)
    (hop : a'.operatorPaused = false → a.operatorPaused = false) :
    w.note e a a' = { w with taken := w.taken + a.outcome e } := by
  unfold PauseBooks.note
  rw [if_neg, if_neg]
  · rintro ⟨h1, h2⟩
    rw [hop h2] at h1
    cases h1
  · rintro ⟨h1, h2⟩
    exact h2 (hrun h1)

lemma granted (h : Kept a w) {b : TokenBucket}
    (hg : TokenBucket.Granted a.clock a.bucket b (a.outcome e)) :
    Kept { a with bucket := b } (w.note e a { a with bucket := b }) := by
  have hnote : w.note e a { a with bucket := b } = { w with taken := w.taken + a.outcome e } :=
    note_eq id id
  rw [hnote]
  refine h.moves rfl Iff.rfl id (fun _ => rfl) ?_ hg.released (hg.owed _) hg.within
  intro hr
  exact hg.paused.trans (h.paused hr)

/-- A call that lets no event go, and does not end the operator's pause. -/
lemma quiet (h : Kept a' w) (hout : a.outcome e = 0)
    (hrun : a'.progress = .running → a.progress = .running)
    (hop : a'.operatorPaused = false → a.operatorPaused = false) : Kept a' (w.note e a a') := by
  rw [note_eq hrun hop, hout]
  exact h

/-- A call that changes nothing the books or the holds are about. -/
lemma settles (h : Kept a w) (hs : a.Alike a') (hout : a.outcome e = 0) :
    Kept a' (w.note e a a') :=
  (h.same hs).quiet hout hs.running.1 fun ho => hs.operator ▸ ho

lemma checkFencing (h : Kept a w) : Kept (a.checkFencing now) w := by
  obtain ⟨hclock, hrun, hop, hreleased, howed⟩ := Agent.checkFencing_frame now a
  refine h.moves (k := 0) hclock (by rw [hrun]) (by rw [hop]; exact id) (fun _ => hop) ?_ hreleased
    howed.le (fun hk => absurd rfl hk)
  intro hr
  exact Agent.checkFencing_paused (h.paused hr)

lemma operatorPause (h : Kept a w) (hr : a.progress = .running) : Kept a.operatorPause w := by
  unfold Agent.operatorPause
  split
  · exact h
  · exact h.moves (k := 0) rfl Iff.rfl (fun hop => by cases hop) (fun hnr => absurd hr hnr)
      (fun _ => by simp [TokenBucket.pause]) rfl le_rfl (fun hk => absurd rfl hk)

/-- The operator's pause ends with no fence up: the books and the bucket start over. -/
lemma of_operatorResume (hr : a.progress = .running) (hop : a.operatorPaused = true)
    (hfence : a.fencingPaused = false) : Kept (a.operatorResume a.clock) ⟨0, 0⟩ := by
  have hresume : a.operatorResume a.clock =
      { a with
        bucket := (a.bucket.anchorAt a.clock).resume
        operatorPaused := false
        state := .generating } := by
    simp [Agent.operatorResume, hop, hfence]
  rw [hresume]
  refine ⟨fun hnr => absurd hr hnr, fun _ => ?_, fun _ => rfl, fun _ _ => ?_, fun _ => by simp⟩
  · simp [TokenBucket.resume, hfence]
  · simp

/-- What the books make of the end of the operator's pause. -/
lemma note_resumed (hr : a.progress = .running) (hop : a.operatorPaused = true)
    (hop' : a'.operatorPaused = false) : w.note e a a' = ⟨0, 0⟩ := by
  unfold PauseBooks.note
  rw [if_neg (fun hp => hp.2 hr), if_pos ⟨hop, hop'⟩]

end Kept

namespace Agent

lemma operatorResume_frame (now : Time) (a : Agent) :
    (a.operatorResume now).clock = a.clock ∧ (a.operatorResume now).operatorPaused = false := by
  unfold operatorResume
  split_ifs with hop
  · exact ⟨rfl, rfl⟩
  · exact ⟨rfl, rfl⟩
  · exact ⟨rfl, by simpa using hop⟩

end Agent

namespace Kept

variable {pace : Pace} {a : Agent} {w : PauseBooks}

/-- A command that ends the operator's pause, if there is one. -/
lemma resumes (h : Kept a w) (hr : a.progress = .running) (hout : a.outcome e = 0)
    (hclear : a.operatorPaused = true → a.fencingPaused = false) :
    Kept (a.operatorResume a.clock) (w.note e a (a.operatorResume a.clock)) := by
  by_cases hop : a.operatorPaused = true
  · rw [note_resumed hr hop (Agent.operatorResume_frame a.clock a).2]
    exact of_operatorResume hr hop (hclear hop)
  · have hstay : a.operatorResume a.clock = a := by simp [Agent.operatorResume, hop]
    rw [hstay]
    exact h.settles (.refl a) hout

lemma applyCommand (h : Kept a w) {reply : Reply} (hr : a.progress = .running)
    (hout : a.outcome e = 0) (hclear : a.operatorPaused = true → a.fencingPaused = true →
      reply.command = .pause ∨ reply.command = .drain) :
    Kept (a.applyCommand pace a.clock reply) (w.note e a (a.applyCommand pace a.clock reply)) := by
  have htold : Kept { a with pausedS := (reply.pausedS.filter (0 ≤ ·)).getD a.pausedS } w :=
    h.same ⟨rfl, Iff.rfl, rfl, rfl, rfl, rfl, le_rfl⟩
  have hresumes : reply.command ≠ .pause → reply.command ≠ .drain →
      a.operatorPaused = true → a.fencingPaused = false := by
    intro hp hd hop
    by_contra hf
    rcases hclear hop (by simpa using hf) with hc | hc
    · exact hp hc
    · exact hd hc
  unfold Agent.applyCommand
  cases hc : reply.command with
  | pause =>
    refine (htold.operatorPause hr).quiet hout (fun _ => hr) ?_
    intro hop
    simp only [Agent.operatorPause] at hop
    split at hop
    · exact hop
    · cases hop
  | drain => exact h.settles ⟨rfl, Iff.rfl, rfl, rfl, rfl, rfl, le_rfl⟩ hout
  | continue_ | release t0 | superseded =>
    exact htold.resumes hr hout (hresumes (by simp [hc]) (by simp [hc]))
  | retarget share =>
    set a₁ : Agent := { a with pausedS := (reply.pausedS.filter (0 ≤ ·)).getD a.pausedS }
    have hk : Kept (a₁.operatorResume a.clock) (w.note e a (a₁.operatorResume a.clock)) :=
      htold.resumes hr hout (hresumes (by simp [hc]) (by simp [hc]))
    have halike := Agent.retarget_alike pace share (a₁.operatorResume a.clock)
    rw [(Agent.operatorResume_frame a.clock a₁).1, show a₁.clock = a.clock from rfl] at halike
    have hsame : w.note e a (a₁.operatorResume a.clock) =
        w.note e a ((a₁.operatorResume a.clock).retarget pace a.clock share) := by
      simp only [PauseBooks.note, halike.operator, hr, ne_eq, not_true_eq_false, and_false,
        if_false]
    exact hsame ▸ hk.same halike

lemma begin (h : Kept a w) (hfence : a.fencingPaused = false) :
    Kept (a.begin a.clock) (w.note (.begin a.clock) a (a.begin a.clock)) := by
  cases hp : a.progress with
  | waiting | running =>
    have hstay : a.begin a.clock = a := by simp [Agent.begin, hp]
    rw [hstay]
    exact h.settles (.refl a) rfl
  | released t0 =>
    have hidle : a.progress ≠ .running := by simp [hp]
    by_cases hgo : t0 ≤ a.clock ∧ a.draining = false
    · have hstart : a.begin a.clock =
          { a with
            bucket := (a.bucket.anchorAt ((a.effectiveT0.filter (· ≠ 0)).getD t0)).resume
            state := .generating
            progress := .running } := by
        simp only [Agent.begin, hp, if_pos hgo]
      rw [hstart, PauseBooks.note, if_pos ⟨rfl, hidle⟩]
      refine ⟨fun hnr => absurd rfl hnr, fun _ => ?_, fun _ => rfl, fun _ _ => le_rfl, fun _ => ?_⟩
      · simp [TokenBucket.resume, hfence, h.idle hidle]
      · have hmax := le_max_right ((TokenBucket.resume (a.bucket.anchorAt
          ((a.effectiveT0.filter (· ≠ 0)).getD t0))).owed a.clock) 0
        rw [Nat.cast_zero]
        linarith
    · have hstay : a.begin a.clock = a := by simp only [Agent.begin, hp, if_neg hgo]
      rw [hstay]
      exact h.settles (.refl a) rfl

/-- The tick that looks at the fence, whatever the agent is doing. -/
lemma check (h : Kept a w) (now : Time) :
    Kept (Agent.act pace (.check now) a)
      (w.note (.check now) a (Agent.act pace (.check now) a)) := by
  cases hp : a.progress with
  | waiting =>
    have hcheck : Agent.act pace (.check now) a = a.checkFencing now := by
      simp [Agent.act, Agent.check, hp]
    obtain ⟨-, hrun, hop, -, -⟩ := Agent.checkFencing_frame now a
    rw [hcheck]
    exact h.checkFencing.quiet rfl (fun hr => hrun ▸ hr) (fun ho => hop ▸ ho)
  | released t0 =>
    have hstay : Agent.act pace (.check now) a = a := by simp [Agent.act, Agent.check, hp]
    rw [hstay]
    exact h.settles (.refl a) rfl
  | running =>
    have hcheck : Agent.act pace (.check now) a =
        { a.checkFencing now with answer := a.answer.map fun p => (p.1, true) } := by
      simp [Agent.act, Agent.check, hp]
    obtain ⟨-, -, hop, -, -⟩ := Agent.checkFencing_frame now a
    rw [hcheck]
    have hchecked : Kept
        { a.checkFencing now with answer := a.answer.map fun p => (p.1, true) } w :=
      h.checkFencing.same ⟨rfl, Iff.rfl, rfl, rfl, rfl, rfl, le_rfl⟩
    exact hchecked.quiet rfl (fun _ => hp) (fun ho => hop ▸ ho)

/-- The tick that carries out an answer. -/
lemma apply (h : Kept a w) (hclear : Agent.Clear (.apply a.clock) a) :
    Kept (Agent.act pace (.apply a.clock) a)
      (w.note (.apply a.clock) a (Agent.act pace (.apply a.clock) a)) := by
  by_cases hready : ∃ reply, a.progress = .running ∧ a.answer = some (reply, true)
  · obtain ⟨reply, hr, hans⟩ := hready
    have happly : Agent.act pace (.apply a.clock) a =
        { a with answer := none }.applyCommand pace a.clock reply := by
      simp [Agent.act, Agent.apply, hr, hans]
    rw [happly]
    have hdone : Kept { a with answer := none } w :=
      h.same ⟨rfl, Iff.rfl, rfl, rfl, rfl, rfl, le_rfl⟩
    have hout : Agent.outcome (.apply a.clock) { a with answer := none } = 0 := rfl
    exact hdone.applyCommand hr hout (hclear (reply, true) hans)
  · have hstay : Agent.act pace (.apply a.clock) a = a := by
      simp only [Agent.act, Agent.apply]
      split
      · next reply hr hans => exact absurd ⟨reply, hr, hans⟩ hready
      · rfl
    rw [hstay]
    exact h.settles (.refl a) rfl

/-- Whatever happens at a time keeps the holds and the books. -/
lemma act (h : Kept a w) (hclear : Agent.Clear e a) (htime : e.time = a.clock) :
    Kept (Agent.act pace e a) (w.note e a (Agent.act pace e a)) := by
  cases e <;> obtain rfl : _ = a.clock := htime
  case heard reply => exact h.settles (Agent.hear_alike a.clock reply a) rfl
  case missed => exact h.settles (.refl a) rfl
  case check => exact h.check a.clock
  case apply => exact h.apply hclear
  case shape =>
    simp only [Agent.act]
    split
    · exact h.settles (Agent.applyShape_alike pace a) rfl
    · exact h.settles (.refl a) rfl
  case begin => exact h.begin hclear
  case take => exact h.granted (a.bucket.granted_tryTake a.clock)
  case takeMany n => exact h.granted (a.bucket.granted_acquireMany a.clock n)
  case lag => exact h.granted (a.bucket.granted_capBacklog a.clock)
  case drain => exact h.settles ⟨rfl, Iff.rfl, rfl, rfl, rfl, rfl, le_rfl⟩ rfl
  case close => exact h.settles ⟨rfl, Iff.rfl, rfl, rfl, rfl, rfl, le_rfl⟩ rfl

lemma step (h : Kept a w) (hclear : Agent.Clear e a) :
    Kept (Agent.step pace e a) (w.see e a (Agent.step pace e a)) := by
  unfold Agent.step PauseBooks.see
  split
  · next hle => exact (h.pass hle).act hclear rfl
  · exact h

end Kept

/-! ### Every run -/

/-- In every run in which no worker starts fenced and no operator's pause ends under a fence, a
running worker's bucket is paused exactly when the fence or the operator holds it, and the events
released since the operator's last pause are within the quota of the time since. -/
theorem holds_compose {pace : Pace} {a a' : Agent} {w w' : PauseBooks} {events : List AgentEvent}
    (hidle : a.progress ≠ .running) (hop : a.operatorPaused = false)
    (h : Runs (observe (Agent.step pace) PauseBooks.see) (fun e x => Agent.Clear e x.1)
      (a, w) events
      (a', w')) (hrun : a'.progress = .running) :
    a'.bucket.paused = (a'.fencingPaused || a'.operatorPaused) ∧
      (w'.taken : ℚ) < max w'.earned 0 + 1 := by
  have hstart : Kept a w :=
    ⟨fun _ => hop, fun hr => absurd hr hidle, fun hr => absurd hr hidle,
      fun hr => absurd hr hidle, fun hr => absurd hr hidle⟩
  have hkept := h.invariant (I := fun x : Agent × PauseBooks => Kept x.1 x.2)
      (fun _ _ hg hx => hx.step hg) hstart
  exact ⟨hkept.paused hrun, hkept.bound hrun⟩

/-! ### A pause that is made up for, and a fence that does not close -/

/-- A worker of a hundred events a second that may catch up five seconds, ready at zero. -/
def readyAgent (progress : Progress) : Agent where
  bucket :=
    { rate := 100, rate_pos := by norm_num, catchupS := 5, anchor := 1000000000, paused := true }
  rateMode := .eps
  rateValue := 100
  progress := progress
  lastAck := 0
  clock := 0

def afterEvents (progress : Progress) (events : List AgentEvent) : Agent × PauseBooks :=
  exec (observe (Agent.step {}) PauseBooks.see) (readyAgent progress, {}) events

/-- A pause of a minute, in which contact is lost and found again, is not made up for. -/
theorem holds_compose_minute :
    let x := afterEvents (.released 0) [.begin 0, .takeMany 5 500, .heard 5 ⟨.pause, some 0⟩,
      .check 5, .apply 5, .check 40, .heard 65 ⟨.continue_, some 60⟩, .check 65, .apply 65,
      .takeMany 66 1000]
    x.1.bucket.paused = (x.1.fencingPaused || x.1.operatorPaused) ∧
      (x.2.taken : ℚ) < max x.2.earned 0 + 1 :=
  holds_compose (a := readyAgent (.released 0)) (by decide) rfl
    (Runs.of_check (by decide +kernel)) (by decide +kernel)

/-- The operator resumes a worker whose fence is up, because half a minute went by between the
answer and the look at the fence: when the fence lifts a second later, five seconds of quota are
released, four of them of the operator's pause. And a worker that was fenced while it waited for its
release starts with the fence marked as up, so that it stays open when contact is lost again. -/
theorem paused_quota_released :
    let x := afterEvents (.released 0) [.begin 0, .heard 1 ⟨.pause, some 0⟩, .check 1, .apply 1,
      .check 40, .heard 100 ⟨.continue_, some 99⟩, .check 131, .apply 131,
      .heard 132 ⟨.continue_, some 99⟩, .check 132, .takeMany 132 1000]
    let y := afterEvents .waiting [.check 31, .heard 40 ⟨.release 40, none⟩, .begin 40, .check 71]
    (x.1.fencingPaused = false ∧ x.1.operatorPaused = false ∧ x.2.taken = 500 ∧ x.2.earned = 100) ∧
      y.1.progress = .running ∧ y.1.shouldPause 71 = true ∧ y.1.fencingPaused = true ∧
        y.1.bucket.paused = false := by
  decide +kernel

end Stoker
