import Stoker.Server.Rows

/-!
# The token bucket

`stoker_agent/pacing.py`: what is owed at a time is the rate times the time since the anchor, and an
event is released while fewer have been released than are owed. Catch-up is bounded, pausing only
holds events back: the anchor stays where it is, so a pause that ends without a new anchor is made
up for, as far as the bound allows.
-/

namespace Stoker

/-- A bucket has a positive rate. -/
structure TokenBucket where
  rate : ℚ
  rate_pos : 0 < rate
  catchupS : Time
  anchor : Time
  released : ℕ := 0
  paused : Bool := false
  closed : Bool := false
  discardedS : ℚ := 0
  deriving DecidableEq

namespace TokenBucket

def anchorAt (t0 : Time) (b : TokenBucket) : TokenBucket := { b with anchor := t0, released := 0 }

def pause (b : TokenBucket) : TokenBucket := { b with paused := true }

def resume (b : TokenBucket) : TokenBucket := { b with paused := false }

def close (b : TokenBucket) : TokenBucket := { b with closed := true }

def owed (now : Time) (b : TokenBucket) : ℚ := b.rate * (now - b.anchor)

/-- A new rate, with what is owed left as it is; a rate that is not positive is refused. -/
def retarget (now : Time) (rate : ℚ) (b : TokenBucket) : TokenBucket :=
  if h : 0 < rate then
    { b with rate := rate, rate_pos := h, anchor := now - b.owed now / rate }
  else b

/-- `_cap_backlog`: at most `catchupS` seconds of backlog are made up for. -/
def capBacklog (now : Time) (b : TokenBucket) : TokenBucket :=
  let maxBacklog := b.rate * b.catchupS
  let backlog := b.owed now - b.released
  if maxBacklog < backlog then
    { b with
      discardedS := b.discardedS + (backlog - maxBacklog) / b.rate
      anchor := now - (b.released + maxBacklog) / b.rate }
  else b

/-- `try_take`, and one round of `acquire`: how many events were released. -/
def tryTake (now : Time) (b : TokenBucket) : TokenBucket × ℕ :=
  if b.closed = true ∨ b.paused = true then (b, 0)
  else
    let b := b.capBacklog now
    if (b.released : ℚ) < b.owed now then ({ b with released := b.released + 1 }, 1) else (b, 0)

/-- One round of `acquire_many`: as many of `n` as are owed in full. -/
def acquireMany (now : Time) (n : ℕ) (b : TokenBucket) : TokenBucket × ℕ :=
  if n = 0 ∨ b.closed = true ∨ b.paused = true then (b, 0)
  else
    let b := b.capBacklog now
    let available := ⌊b.owed now - b.released⌋
    if 1 ≤ available then
      let granted := min n available.toNat
      ({ b with released := b.released + granted }, granted)
    else (b, 0)

/-- `lag_s`, which also bounds the backlog. -/
def lagS (now : Time) (b : TokenBucket) : TokenBucket × ℚ :=
  let b := b.capBacklog now
  (b, max 0 (b.owed now - b.released) / b.rate)

/-! ### What is owed -/

@[simp] lemma owed_pause (b : TokenBucket) (t : Time) : b.pause.owed t = b.owed t := rfl

@[simp] lemma owed_resume (b : TokenBucket) (t : Time) : b.resume.owed t = b.owed t := rfl

@[simp] lemma owed_anchorAt (b : TokenBucket) (t0 t : Time) :
    (b.anchorAt t0).owed t = b.rate * (t - t0) := rfl

lemma owed_later (b : TokenBucket) (t u : Time) : b.owed u = b.owed t + b.rate * (u - t) := by
  simp only [owed]
  ring

/-- A new rate leaves what is owed at that moment. -/
lemma owed_retarget (b : TokenBucket) (now : Time) (rate : ℚ) :
    (b.retarget now rate).owed now = b.owed now := by
  unfold retarget
  split
  · next h =>
    simp only [owed]
    field_simp
    ring
  · rfl

lemma owed_capBacklog_le (b : TokenBucket) (now t : Time) :
    (b.capBacklog now).owed t ≤ b.owed t := by
  simp only [capBacklog]
  split
  · next hlt =>
    have hne : b.rate ≠ 0 := ne_of_gt b.rate_pos
    have hcapped : b.rate * (t - (now - (b.released + b.rate * b.catchupS) / b.rate)) =
        b.rate * (t - now) + (b.released + b.rate * b.catchupS) := by
      field_simp
      ring
    have hgrown := b.owed_later now t
    simp only [owed] at hlt hgrown ⊢
    linarith
  · exact le_rfl

@[simp] lemma capBacklog_rate (b : TokenBucket) (now : Time) :
    (b.capBacklog now).rate = b.rate := by
  simp only [capBacklog]
  split <;> rfl

@[simp] lemma capBacklog_released (b : TokenBucket) (now : Time) :
    (b.capBacklog now).released = b.released := by
  simp only [capBacklog]
  split <;> rfl

@[simp] lemma capBacklog_paused (b : TokenBucket) (now : Time) :
    (b.capBacklog now).paused = b.paused := by
  simp only [capBacklog]
  split <;> rfl

/-! ### What is released -/

/-- What a look at the bucket at a time does: it releases `k` events, none if the bucket is paused
and otherwise none that is not owed in part, and makes no more owed. -/
structure Granted (now : Time) (b b' : TokenBucket) (k : ℕ) : Prop where
  rate : b'.rate = b.rate
  paused : b'.paused = b.paused
  released : b'.released = b.released + k
  owed : ∀ t, b'.owed t ≤ b.owed t
  within : k ≠ 0 → b.paused = false ∧ (b'.released : ℚ) < b.owed now + 1

lemma granted_capBacklog (now : Time) (b : TokenBucket) : Granted now b (b.capBacklog now) 0 where
  rate := by simp
  paused := by simp
  released := by simp
  owed := b.owed_capBacklog_le now
  within := fun h => absurd rfl h

lemma granted_self (now : Time) (b : TokenBucket) : Granted now b b 0 :=
  ⟨rfl, rfl, rfl, fun _ => le_rfl, fun h => absurd rfl h⟩

lemma granted_tryTake (now : Time) (b : TokenBucket) :
    Granted now b (b.tryTake now).1 (b.tryTake now).2 := by
  simp only [tryTake]
  split
  · exact granted_self now b
  · next hopen =>
    have hpaused : b.paused = false := by
      simp only [not_or, Bool.not_eq_true] at hopen
      exact hopen.2
    split
    · next hlt =>
      have hcap := b.owed_capBacklog_le now now
      simp only [capBacklog_released] at hlt
      refine ⟨by simp, by simp, by simp, b.owed_capBacklog_le now, fun _ => ⟨hpaused, ?_⟩⟩
      simp only [capBacklog_released, Nat.cast_add, Nat.cast_one]
      linarith
    · exact granted_capBacklog now b

lemma granted_acquireMany (now : Time) (n : ℕ) (b : TokenBucket) :
    Granted now b (b.acquireMany now n).1 (b.acquireMany now n).2 := by
  simp only [acquireMany]
  split
  · exact granted_self now b
  · next hopen =>
    have hpaused : b.paused = false := by
      simp only [not_or, Bool.not_eq_true] at hopen
      exact hopen.2.2
    split
    · next hone =>
      have hcap := b.owed_capBacklog_le now now
      refine ⟨by simp, by simp, by simp, b.owed_capBacklog_le now, fun _ => ⟨hpaused, ?_⟩⟩
      have hfloor := Int.floor_le ((b.capBacklog now).owed now - (b.capBacklog now).released)
      set available := ⌊(b.capBacklog now).owed now - (b.capBacklog now).released⌋
      have hgranted : ((min n available.toNat : ℕ) : ℤ) ≤ available := by omega
      have hgranted' : ((min n available.toNat : ℕ) : ℚ) ≤ available := by exact_mod_cast hgranted
      simp only [capBacklog_released] at hfloor
      rw [capBacklog_released, Nat.cast_add]
      linarith
    · exact granted_capBacklog now b

end TokenBucket

end Stoker
