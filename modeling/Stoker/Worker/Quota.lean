import Stoker.Transition.Runs
import Stoker.Worker.Pacing

/-!
# The quota of a token bucket

What a bucket owes is the quota that has accrued since it was anchored, less what was discarded with
a backlog beyond the bound. A retarget and a capped backlog both move the anchor, so the account of
the quota is kept beside the bucket: every stretch of time accrues the rate in force, and every
second that the bucket counts as discarded costs the rate at which it was discarded. A bucket is
never more than part of an event ahead of that account.
-/

namespace Stoker

open Transition

namespace TokenBucket

/-! ### Calls -/

/-- What is called on a bucket. A blocking call is one `take` or `takeMany` each time it wakes
up. -/
inductive Call where
  | take
  | takeMany (n : ℕ)
  | lag
  | retarget (rate : ℚ)
  | pause
  | resume
  | close
  deriving DecidableEq

def call (now : Time) (c : Call) (b : TokenBucket) : TokenBucket :=
  match c with
  | .take => (b.tryTake now).1
  | .takeMany n => (b.acquireMany now n).1
  | .lag => (b.lagS now).1
  | .retarget rate => b.retarget now rate
  | .pause => b.pause
  | .resume => b.resume
  | .close => b.close

/-! ### What a capped backlog costs -/

section

variable (b : TokenBucket) (now : Time)

@[simp] lemma capBacklog_catchupS : (b.capBacklog now).catchupS = b.catchupS := by
  simp only [capBacklog]
  split <;> rfl

/-- What is owed falls by the quota of the seconds that are discarded. -/
lemma owed_capBacklog (t : Time) :
    (b.capBacklog now).owed t =
      b.owed t - b.rate * ((b.capBacklog now).discardedS - b.discardedS) := by
  have hne : b.rate ≠ 0 := b.rate_pos.ne'
  simp only [capBacklog]
  split
  · simp only [owed]
    field_simp
    ring
  · simp

/-- After a backlog is capped it is within the bound. -/
lemma backlog_capBacklog_le :
    (b.capBacklog now).owed now - b.released ≤ b.rate * b.catchupS := by
  have hne : b.rate ≠ 0 := b.rate_pos.ne'
  simp only [capBacklog]
  split
  · simp only [owed]
    field_simp
    linarith
  · next hle => exact not_lt.1 hle

lemma released_le_owed_capBacklog (hc : 0 ≤ b.catchupS) (h : (b.released : ℚ) < b.owed now + 1) :
    (b.released : ℚ) < (b.capBacklog now).owed now + 1 := by
  have hne : b.rate ≠ 0 := b.rate_pos.ne'
  have hbound : 0 ≤ b.rate * b.catchupS := mul_nonneg b.rate_pos.le hc
  simp only [capBacklog]
  split
  · have hcapped : b.rate * (now - (now - (b.released + b.rate * b.catchupS) / b.rate)) =
        b.released + b.rate * b.catchupS := by
      field_simp
      ring
    simp only [owed]
    linarith
  · exact h

end

/-! ### What a call does to the quota -/

/-- What a call at a time does: what it discards is taken off what is owed, and it releases no event
of which nothing is owed. -/
structure Accounted (now : Time) (b b' : TokenBucket) : Prop where
  catchupS : b'.catchupS = b.catchupS
  owed : b'.owed now = b.owed now - b.rate * (b'.discardedS - b.discardedS)
  released : 0 ≤ b.catchupS → (b.released : ℚ) < b.owed now + 1 →
  (b'.released : ℚ) < b'.owed now + 1

section

variable {now : Time} {b : TokenBucket}

lemma Accounted.self : Accounted now b b := ⟨rfl, by simp, fun _ h => h⟩

lemma Accounted.cap : Accounted now b (b.capBacklog now) where
  catchupS := by simp
  owed := b.owed_capBacklog now now
  released := by
    intro hc h
    rw [capBacklog_released]
    exact b.released_le_owed_capBacklog now hc h

lemma Accounted.release {k : ℕ} (h : (b.released : ℚ) + k < (b.capBacklog now).owed now + 1) :
    Accounted now b { b.capBacklog now with released := (b.capBacklog now).released + k } where
  catchupS := b.capBacklog_catchupS now
  owed := b.owed_capBacklog now now
  released := by
    intro _ _
    rw [capBacklog_released, Nat.cast_add]
    exact h

lemma accounted_tryTake : Accounted now b (b.tryTake now).1 := by
  simp only [tryTake]
  split
  · exact .self
  · split
    · next hlt =>
      rw [capBacklog_released] at hlt
      exact .release (by rw [Nat.cast_one]; linarith)
    · exact .cap

lemma accounted_acquireMany (n : ℕ) : Accounted now b (b.acquireMany now n).1 := by
  simp only [acquireMany]
  split
  · exact .self
  · split
    · next hone =>
      have hfloor := Int.floor_le ((b.capBacklog now).owed now - (b.capBacklog now).released)
      set available := ⌊(b.capBacklog now).owed now - (b.capBacklog now).released⌋
      have hgranted : ((min n available.toNat : ℕ) : ℤ) ≤ available := by omega
      have hcast : ((min n available.toNat : ℕ) : ℚ) ≤ available := by exact_mod_cast hgranted
      rw [capBacklog_released] at hfloor
      exact .release (by linarith)
    · exact .cap

lemma accounted_retarget (rate : ℚ) : Accounted now b (b.retarget now rate) := by
  have howed := b.owed_retarget now rate
  unfold retarget at howed ⊢
  split_ifs at howed ⊢ with hpos
  · refine ⟨rfl, by rw [howed]; simp, fun _ h => ?_⟩
    rw [howed]
    exact h
  · exact .self

theorem accounted_call (c : Call) : Accounted now b (b.call now c) := by
  cases c with
  | take => exact accounted_tryTake
  | takeMany n => exact accounted_acquireMany n
  | lag => exact .cap
  | retarget rate => exact accounted_retarget rate
  | pause => exact ⟨rfl, by simp [call, pause, TokenBucket.owed], fun _ h => h⟩
  | resume => exact ⟨rfl, by simp [call, resume, TokenBucket.owed], fun _ h => h⟩
  | close => exact ⟨rfl, by simp [call, close, TokenBucket.owed], fun _ h => h⟩

end

end TokenBucket

/-! ### The account -/

/-- A bucket of the agent: `load_config` refuses a catch-up bound below zero. -/
structure AgentBucket extends TokenBucket where
  catchup_nonneg : 0 ≤ catchupS

/-- A bucket and the last time it was called at. -/
structure Clocked where
  bucket : TokenBucket
  now : Time

abbrev TimedCall := Time × TokenBucket.Call

namespace Clocked

def step (c : TimedCall) (s : Clocked) : Clocked := ⟨s.bucket.call c.1 c.2, c.1⟩

/-- Time does not run backwards. -/
def InOrder (c : TimedCall) (s : Clocked) : Prop := s.now ≤ c.1

instance (c : TimedCall) (s : Clocked) : Decidable (InOrder c s) :=
  inferInstanceAs (Decidable (_ ≤ _))

end Clocked

/-- The quota of a bucket: the integral of the rate in force, and what was discarded of it. -/
structure Account where
  accrued : ℚ := 0
  discarded : ℚ := 0

namespace Account

/-- A call ends a stretch of time at one rate, and what it adds to the discarded seconds is
discarded at that rate. -/
def see (_ : TimedCall) (s t : Clocked) (a : Account) : Account where
  accrued := a.accrued + s.bucket.rate * (t.now - s.now)
  discarded := a.discarded + s.bucket.rate * (t.bucket.discardedS - s.bucket.discardedS)

/-- The bucket owes what the account says, and is less than an event ahead of it. -/
structure Holds (x : Clocked × Account) : Prop where
  catchup : 0 ≤ x.1.bucket.catchupS
  owed : x.1.bucket.owed x.1.now = x.2.accrued - x.2.discarded
  ahead : (x.1.bucket.released : ℚ) < x.1.bucket.owed x.1.now + 1

lemma Holds.start (b : AgentBucket) (t0 : Time) :
    Holds (⟨b.toTokenBucket.anchorAt t0, t0⟩, {}) where
  catchup := b.catchup_nonneg
  owed := by simp
  ahead := by simp [TokenBucket.anchorAt, TokenBucket.owed]

theorem Holds.step {c : TimedCall} {x : Clocked × Account} (hc : Clocked.InOrder c x.1)
    (h : Holds x) : Holds (observe Clocked.step see c x) := by
  obtain ⟨t, c⟩ := c
  obtain ⟨⟨b, now⟩, a⟩ := x
  obtain ⟨hcatchup, howed, hahead⟩ := h
  have hcall : TokenBucket.Accounted t b (b.call t c) := TokenBucket.accounted_call c
  -- until the call what is owed grows at the rate in force
  have hlater := b.owed_later now t
  have hgrown : 0 ≤ b.rate * (t - now) := mul_nonneg b.rate_pos.le (sub_nonneg.2 hc)
  refine ⟨?_, ?_, ?_⟩
  · change 0 ≤ (b.call t c).catchupS
    rw [hcall.catchupS]
    exact hcatchup
  · change (b.call t c).owed t = a.accrued + b.rate * (t - now) -
      (a.discarded + b.rate * ((b.call t c).discardedS - b.discardedS))
    rw [hcall.owed, hlater, howed]
    ring
  · refine hcall.released hcatchup ?_
    linarith

end Account

/-- The quota law. However a bucket is called after it was anchored, it has released fewer events
than have accrued since then, less those discarded, plus one. A retarget changes neither what is
released nor what is owed at that moment, and a capped backlog is within the bound. -/
theorem quota_law (b : AgentBucket) (t0 : Time) {calls : List TimedCall} {s : Clocked} {a : Account}
    (h : Runs (observe Clocked.step Account.see) (fun c x => Clocked.InOrder c x.1)
      (⟨b.toTokenBucket.anchorAt t0, t0⟩, {}) calls (s, a)) :
    (s.bucket.released : ℚ) < a.accrued - a.discarded + 1 ∧
      (∀ now rate, (s.bucket.retarget now rate).released = s.bucket.released ∧
        (s.bucket.retarget now rate).owed now = s.bucket.owed now) ∧
      ∀ now, (s.bucket.capBacklog now).owed now - (s.bucket.capBacklog now).released ≤
        (s.bucket.capBacklog now).rate * (s.bucket.capBacklog now).catchupS := by
  have hheld : Account.Holds (s, a) :=
    h.invariant (I := Account.Holds) (fun _ _ hc hx => hx.step hc) (Account.Holds.start b t0)
  refine ⟨?_, ?_, ?_⟩
  · rw [← hheld.owed]
    exact hheld.ahead
  · intro now rate
    refine ⟨?_, s.bucket.owed_retarget now rate⟩
    unfold TokenBucket.retarget
    split <;> rfl
  · intro now
    rw [TokenBucket.capBacklog_released, TokenBucket.capBacklog_rate,
      TokenBucket.capBacklog_catchupS]
    exact s.bucket.backlog_capBacklog_le now

/-- A bucket at two events per second that is left alone for a while and then retargeted. -/
theorem quota_law_retargeted :
    ∃ hrate : (0 : ℚ) < 2,
      let x := exec (observe Clocked.step Account.see)
        (⟨⟨2, hrate, 5, 0, 0, false, false, 0⟩, 0⟩, {})
        [(1, .take), (20, .takeMany 100), (20, .retarget 3), (21, .take), (22, .lag)]
      x.1.bucket.released = 12 ∧ (12 : ℚ) < x.2.accrued - x.2.discarded + 1 := by
  refine ⟨by norm_num, ?_⟩
  intro x
  let b : AgentBucket := ⟨⟨2, by norm_num, 5, 0, 0, false, false, 0⟩, by norm_num⟩
  have hreleased : x.1.bucket.released = 12 := by decide +kernel
  have hrun : Runs (observe Clocked.step Account.see) (fun c y => Clocked.InOrder c y.1)
      (⟨b.toTokenBucket.anchorAt 0, 0⟩, {}) _ (x.1, x.2) := Runs.of_check (by decide +kernel)
  have hlaw := (quota_law b 0 hrun).1
  rw [hreleased] at hlaw
  exact ⟨hreleased, hlaw⟩

end Stoker
