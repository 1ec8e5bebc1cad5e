import Stoker.Worker.Quota

/-!
# Batches and single events

The fast path of the agent takes events in batches (`acquire_many`), the other one by one
(`try_take`). A batch takes what is owed in full, a single take any event of which a part is owed,
so as long as no backlog is capped the two differ by at most one. But a capped backlog starts again
from what a bucket has released, and a bucket that is drained in batches can have almost one event
more to catch up with than the other. So they agree at all instants that come at most some time
after each other exactly if the backlog bound leaves room for one event more than becomes due in
that time.
-/

open List

namespace Stoker

namespace TokenBucket

def fresh (rate : ℚ) (rate_pos : 0 < rate) (catchupS : ℚ) (now : Time) : TokenBucket :=
  { rate := rate, rate_pos := rate_pos, catchupS := catchupS, anchor := now }

/-- A bucket that is drained at an instant by one call of `acquire_many`. -/
def drainMany (n : ℕ) (b : TokenBucket) (now : Time) : TokenBucket := (b.acquireMany now n).1

/-- `try_take` until it says no, `fuel` times at most. -/
def takes (now : Time) : ℕ → TokenBucket → TokenBucket
  | 0, b => b
  | fuel + 1, b =>
    if (b.tryTake now).2 = 0 then (b.tryTake now).1 else takes now fuel (b.tryTake now).1

/-- A bucket that is drained at an instant by `try_take`: no more events can be taken than there are
begun ones, so this many calls end with one that says no (`drainTakes_eq`). -/
def drainTakes (b : TokenBucket) (now : Time) : TokenBucket :=
  takes now (⌈b.owed now - b.released⌉.toNat + 1) b

/-! ### What a drained bucket has released -/

/-- A bucket that can be taken from, with a bound on its backlog. -/
structure Open (b : TokenBucket) : Prop where
  running : b.closed = false
  unpaused : b.paused = false
  catchup : 0 ≤ b.catchupS

/-- The second of two instants follows the first, within a gap. -/
def Spaced (gap : ℚ) (t u : Time) : Prop := t ≤ u ∧ u - t ≤ gap

section

variable {now : Time} {b : TokenBucket}

lemma capBacklog_of_le (h : b.owed now - b.released ≤ b.rate * b.catchupS) :
    b.capBacklog now = b := by
  simp only [capBacklog]
  rw [if_neg (not_lt.2 h)]

lemma capBacklog_idem : (b.capBacklog now).capBacklog now = b.capBacklog now := by
  apply capBacklog_of_le
  rw [capBacklog_released, capBacklog_rate, capBacklog_catchupS]
  exact b.backlog_capBacklog_le now

@[simp] lemma capBacklog_closed : (b.capBacklog now).closed = b.closed := by
  simp only [capBacklog]
  split <;> rfl

lemma Open.cap (ho : b.Open) : (b.capBacklog now).Open :=
  ⟨by simpa using ho.running, by simpa using ho.unpaused, by simpa using ho.catchup⟩

lemma tryTake_of_open (ho : b.Open) :
    b.tryTake now =
      if ((b.capBacklog now).released : ℚ) < (b.capBacklog now).owed now then
        ({ b.capBacklog now with released := (b.capBacklog now).released + 1 }, 1)
      else (b.capBacklog now, 0) := by
  simp only [tryTake]
  rw [if_neg (by simp [ho.running, ho.unpaused])]

/-- The first take caps the backlog for those after it. -/
lemma tryTake_capBacklog (ho : b.Open) : (b.capBacklog now).tryTake now = b.tryTake now := by
  rw [tryTake_of_open ho.cap, tryTake_of_open ho, capBacklog_idem]

/-- Enough takes from a bucket within its bound leave no begun event. -/
lemma takes_of_le {fuel : ℕ} (ho : b.Open) (h : b.owed now - b.released ≤ b.rate * b.catchupS)
    (hfuel : ⌈b.owed now - b.released⌉.toNat < fuel) :
    ∃ r : ℕ, takes now fuel b = { b with released := r } ∧ b.owed now ≤ r ∧
      (r = b.released ∨ (r : ℚ) < b.owed now + 1) := by
  induction fuel generalizing b with
  | zero => omega
  | succ fuel ih =>
    rw [takes, tryTake_of_open ho, capBacklog_of_le h]
    by_cases hlt : (b.released : ℚ) < b.owed now
    · rw [if_pos hlt]
      -- one more event is released, so one fewer is begun
      let b₁ : TokenBucket := { b with released := b.released + 1 }
      have howed : b₁.owed now = b.owed now := rfl
      have hreleased : (b₁.released : ℚ) = b.released + 1 := Nat.cast_succ b.released
      have hceil : ⌈b₁.owed now - b₁.released⌉ = ⌈b.owed now - b.released⌉ - 1 := by
        rw [howed, hreleased, ← sub_sub, Int.ceil_sub_one]
      have hpos : 0 < ⌈b.owed now - b.released⌉ := Int.ceil_pos.2 (by linarith)
      have hbound : b₁.owed now - b₁.released ≤ b₁.rate * b₁.catchupS := by
        linarith
      obtain ⟨r, htakes, hle, hahead⟩ := ih (b := b₁) ⟨ho.running, ho.unpaused, ho.catchup⟩ hbound
        (by omega)
      refine ⟨r, htakes, hle, .inr ?_⟩
      rcases hahead with rfl | hahead
      · rw [hreleased]
        linarith
      · exact hahead
    · rw [if_neg hlt]
      exact ⟨b.released, rfl, not_lt.1 hlt, .inl rfl⟩

/-- Draining by takes ends where no event is begun. -/
lemma drainTakes_eq (now : ℚ) (ho : b.Open) :
    ∃ r : ℕ, b.drainTakes now = { b.capBacklog now with released := r } ∧
      (b.capBacklog now).owed now ≤ r ∧
      (r = b.released ∨ (r : ℚ) < (b.capBacklog now).owed now + 1) := by
  have hfuel : ⌈(b.capBacklog now).owed now - (b.capBacklog now).released⌉.toNat <
      ⌈b.owed now - b.released⌉.toNat + 1 := by
    have hle := b.owed_capBacklog_le now now
    have hceil : ⌈(b.capBacklog now).owed now - (b.capBacklog now).released⌉ ≤
        ⌈b.owed now - b.released⌉ := by
      rw [capBacklog_released]
      exact Int.ceil_le_ceil (by linarith)
    omega
  have hbound : (b.capBacklog now).owed now - (b.capBacklog now).released ≤
      (b.capBacklog now).rate * (b.capBacklog now).catchupS := by
    rw [capBacklog_released, capBacklog_rate, capBacklog_catchupS]
    exact b.backlog_capBacklog_le now
  obtain ⟨r, htakes, hle, hahead⟩ := takes_of_le ho.cap hbound hfuel
  rw [capBacklog_released] at hahead
  refine ⟨r, ?_, hle, hahead⟩
  rw [← htakes, drainTakes, takes, takes, tryTake_capBacklog ho]

variable {n : ℕ} {gap slack : ℚ} {t : Time} {drain : TokenBucket → Time → TokenBucket}
  {instants : List Time}

/-- A batch that is large enough takes all that is owed in full. -/
lemma drainMany_eq (now : Time) (ho : b.Open) (hn : 0 < n) (hlarge : b.rate * b.catchupS ≤ n) :
    ∃ r : ℕ, b.drainMany n now = { b.capBacklog now with released := r } ∧ b.released ≤ r ∧
      (b.capBacklog now).owed now - r < 1 ∧
      (r = b.released ∨ (r : ℚ) ≤ (b.capBacklog now).owed now) := by
  have hbacklog := b.backlog_capBacklog_le now
  simp only [drainMany, acquireMany]
  rw [if_neg (by simp [ho.running, ho.unpaused]; omega)]
  have hfloor := Int.floor_le ((b.capBacklog now).owed now - (b.capBacklog now).released)
  have hbelow := Int.lt_floor_add_one ((b.capBacklog now).owed now - (b.capBacklog now).released)
  simp only [capBacklog_released] at hfloor hbelow ⊢
  set available := ⌊(b.capBacklog now).owed now - b.released⌋
  split_ifs with hone
  · have hall : min n available.toNat = available.toNat := by
      have hle : (available : ℚ) ≤ (n : ℚ) := by linarith
      have hle' : available ≤ n := by exact_mod_cast hle
      omega
    have hcast : ((available.toNat : ℕ) : ℚ) = available := by
      exact_mod_cast Int.toNat_of_nonneg (by omega : 0 ≤ available)
    refine ⟨_, rfl, Nat.le_add_right _ _, ?_, .inr ?_⟩
    · rw [hall]
      push_cast
      linarith
    · rw [hall]
      push_cast
      linarith
  · have hnone : (available : ℚ) ≤ 0 := by exact_mod_cast (by omega : available ≤ 0)
    refine ⟨b.released, ?_, le_rfl, by linarith, .inl rfl⟩
    rw [← b.capBacklog_released now]

/-! ### Gaps that cap no backlog -/

/-- What draining does where no backlog is capped: only events are released, and those of which less
than `slack` events would be owed are left. -/
def Levels (slack : ℚ) (drain : TokenBucket → Time → TokenBucket) (b : TokenBucket) : Prop :=
  ∀ (r : ℕ) (t : Time), b.owed t - r ≤ b.rate * b.catchupS →
    ∃ r' : ℕ, drain { b with released := r } t = { b with released := r' } ∧
      b.owed t - r' ≤ slack ∧ (r' = r ∨ (r' : ℚ) < b.owed t + 1)

lemma levels_drainTakes (ho : b.Open) : Levels 0 drainTakes b := by
  intro r t hle
  have hopen : Open { b with released := r } := ⟨ho.running, ho.unpaused, ho.catchup⟩
  obtain ⟨r', hr', hbehind, hahead⟩ := drainTakes_eq t hopen
  have hkept : capBacklog t { b with released := r } = _ := capBacklog_of_le hle
  rw [hkept] at hr' hbehind hahead
  exact ⟨r', hr', sub_nonpos.2 hbehind, hahead⟩

lemma levels_drainMany (ho : b.Open) (hn : 0 < n) (hlarge : b.rate * b.catchupS ≤ n) :
    Levels 1 (drainMany n) b := by
  intro r t hle
  have hopen : Open { b with released := r } := ⟨ho.running, ho.unpaused, ho.catchup⟩
  obtain ⟨r', hr', _, hbehind, hahead⟩ := drainMany_eq t hopen hn hlarge
  have hkept : capBacklog t { b with released := r } = _ := capBacklog_of_le hle
  rw [hkept] at hr' hbehind hahead
  exact ⟨r', hr', hbehind.le, hahead.imp_right fun h => h.trans_lt (lt_add_one _)⟩

/-- A bucket that is drained so often that no backlog is capped stays level with what it owes. -/
lemma Levels.foldl (h : Levels slack drain b) (hgap : b.rate * gap + slack ≤ b.rate * b.catchupS)
    {r : ℕ} (hspaced : (t :: instants).IsChain (Spaced gap)) (hbehind : b.owed t - r ≤ slack)
    (hahead : (r : ℚ) < b.owed t + 1) :
    ∃ r' : ℕ, instants.foldl drain { b with released := r } = { b with released := r' } ∧
      b.owed (instants.getLastD t) - r' ≤ slack ∧ (r' : ℚ) < b.owed (instants.getLastD t) + 1 := by
  induction instants generalizing r t with
  | nil => exact ⟨r, rfl, hbehind, hahead⟩
  | cons u instants ih =>
    rw [isChain_cons_cons] at hspaced
    obtain ⟨⟨hle, hclose⟩, hrest⟩ := hspaced
    have hlater := b.owed_later t u
    have hgrown : 0 ≤ b.rate * (u - t) := mul_nonneg b.rate_pos.le (sub_nonneg.2 hle)
    have hbounded : b.rate * (u - t) ≤ b.rate * gap :=
      mul_le_mul_of_nonneg_left hclose b.rate_pos.le
    obtain ⟨r', hr', hbehind', hahead'⟩ := h r u (by linarith)
    rw [foldl_cons, hr', getLastD_cons]
    refine ih hrest hbehind' ?_
    rcases hahead' with rfl | hahead'
    · linarith
    · exact hahead'

/-- The same for a bucket from the start. -/
lemma Levels.released (h : Levels slack drain b) (hslack : 0 ≤ slack) (hzero : b.released = 0)
    (hgap : b.rate * gap + slack ≤ b.rate * b.catchupS)
    (hspaced : (b.anchor :: instants).IsChain (Spaced gap)) :
    b.owed (instants.getLastD b.anchor) - (instants.foldl drain b).released ≤ slack ∧
      ((instants.foldl drain b).released : ℚ) < b.owed (instants.getLastD b.anchor) + 1 := by
  have hstart : b.owed b.anchor = 0 := by simp [owed]
  obtain ⟨r, hr, hlevel⟩ := h.foldl hgap hspaced
      (by simpa [hstart, hzero] : _ - (b.released : ℚ) ≤ _)
    (by simp [hstart, hzero])
  have hdone : instants.foldl drain b = { b with released := r } := hr
  rwa [hdone]

/-! ### Gaps that cap the backlog of batches only -/

lemma owed_capBacklog_of_lt (h : b.rate * b.catchupS < b.owed now - b.released) :
    (b.capBacklog now).owed now = b.released + b.rate * b.catchupS := by
  have hne : b.rate ≠ 0 := b.rate_pos.ne'
  simp only [capBacklog]
  rw [if_pos h]
  simp only [owed]
  field_simp
  ring

lemma drainMany_of_lt (hle : b.owed now - b.released ≤ b.rate * b.catchupS)
    (hlt : b.owed now - b.released < 1) : b.drainMany n now = b := by
  simp only [drainMany, acquireMany]
  split
  · rfl
  · have hnone : ⌊b.owed now - b.released⌋ < 1 := Int.floor_lt.2 (by exact_mod_cast hlt)
    rw [capBacklog_of_le hle, if_neg (by omega)]

/-- A bucket that has lost some quota, drained in batches at an instant. -/
structure Lagging (b : TokenBucket) (lost : ℚ) (t : Time) (d : TokenBucket) : Prop where
  running : d.Open
  rate : d.rate = b.rate
  catchupS : d.catchupS = b.catchupS
  lost : lost ≤ b.owed t - d.owed t
  owes : (d.released : ℚ) ≤ d.owed t
  below : d.owed t - d.released < 1
  within : d.owed t - d.released ≤ d.rate * d.catchupS

lemma isChain_trans {R : Time → Time → Prop} {l l' : List Time} (h : (t :: l).IsChain R)
    (h' : (l.getLastD t :: l').IsChain R) : (t :: (l ++ l')).IsChain R := by
  rw [← cons_append, isChain_append]
  rw [isChain_cons, getLastD_eq_getLast?] at h'
  refine ⟨h, h'.2, fun u hu => ?_⟩
  rw [getLast?_cons, Option.mem_some_iff] at hu
  exact hu ▸ h'.1

/-- From one instant to a later one in steps that are short enough, and at which nothing is done. -/
lemma exists_steps {α : Type} {f : α → Time → α} {d : α} {gap : ℚ} (hgap : 0 < gap) {t u : Time}
    (h : t ≤ u) (hidle : ∀ v ≤ u, f d v = d) :
    ∃ steps : List Time, (t :: steps).IsChain (Spaced gap) ∧ steps.getLastD t = u ∧
      steps.foldl f d = d := by
  obtain ⟨k, hk⟩ := exists_nat_ge ((u - t) / gap)
  rw [div_le_iff₀ hgap] at hk
  induction k generalizing t with
  | zero =>
    obtain rfl : t = u := le_antisymm h (by simpa using hk)
    exact ⟨[], by simp, rfl, rfl⟩
  | succ k ih =>
    by_cases hshort : u - t ≤ gap
    · exact ⟨[u], by simp [Spaced, h, hshort], rfl, hidle u le_rfl⟩
    · push_cast at hk
      obtain ⟨steps, hspaced, hlast, hsame⟩ := ih (by linarith : t + gap ≤ u) (by linarith)
      refine ⟨(t + gap) :: steps, ?_, by rw [getLastD_cons, hlast], ?_⟩
      · rw [isChain_cons_cons]
        exact ⟨⟨by linarith, by linarith⟩, hspaced⟩
      · rw [foldl_cons, hidle _ (by linarith), hsame]

/-- A gap that fills the bound costs the part of an event that is owed before it. -/
lemma Lagging.drained {d : TokenBucket} {lost part : ℚ} (h : Lagging b lost t d) (hn : 0 < n)
    (hlarge : b.rate * b.catchupS ≤ n) (hpart : part ≤ d.owed t - d.released)
    (hloss : b.rate * b.catchupS < part + b.rate * gap) :
    Lagging b (lost + (part + b.rate * gap - b.rate * b.catchupS)) (t + gap)
      (d.drainMany n (t + gap)) := by
  have hd := d.owed_later t (t + gap)
  have hb := b.owed_later t (t + gap)
  rw [add_sub_cancel_left] at hd hb
  rw [h.rate] at hd
  have hcapped : (d.capBacklog (t + gap)).owed (t + gap) = d.released + b.rate * b.catchupS := by
    rw [← h.rate, ← h.catchupS]
    refine owed_capBacklog_of_lt ?_
    rw [h.rate, h.catchupS]
    linarith
  obtain ⟨r, hr, hgrown, hbelow, howes⟩ := drainMany_eq (t + gap) h.running hn
    (by rw [h.rate, h.catchupS]; exact hlarge)
  have hrate : (d.capBacklog (t + gap)).rate = b.rate := (d.capBacklog_rate _).trans h.rate
  have hcatchup : (d.capBacklog (t + gap)).catchupS = b.catchupS :=
    (d.capBacklog_catchupS _).trans h.catchupS
  rw [hr]
  have howed : owed (t + gap) { d.capBacklog (t + gap) with released := r } = _ := hcapped
  refine ⟨⟨h.running.cap.running, h.running.cap.unpaused, h.running.cap.catchup⟩, hrate, hcatchup,
    ?_, ?_, hbelow, ?_⟩
  · -- both owe more by the same, apart from what is discarded
    have hlost := h.lost
    rw [howed]
    linarith
  · rw [howed]
    rcases howes with rfl | howes
    · have hnonneg := mul_nonneg d.rate_pos.le h.running.catchup
      rw [h.rate, h.catchupS] at hnonneg
      exact le_add_of_nonneg_right hnonneg
    · exact howes.trans_eq hcapped
  · have hgrownQ : (d.released : ℚ) ≤ r := by exact_mod_cast hgrown
    rw [howed]
    change _ ≤ (d.capBacklog (t + gap)).rate * (d.capBacklog (t + gap)).catchupS
    rw [hrate, hcatchup]
    linarith

/-- The same from where less than the part is owed: until then there is nothing to release. -/
lemma Lagging.more {d : TokenBucket} {lost part : ℚ} (h : Lagging b lost t d) (hn : 0 < n)
    (hlarge : b.rate * b.catchupS ≤ n) (hgap : 0 < gap) (hone : part < 1)
    (hpart : part ≤ b.rate * b.catchupS) (hloss : b.rate * b.catchupS < part + b.rate * gap) :
    ∃ more : List Time, (t :: more).IsChain (Spaced gap) ∧
      Lagging b (lost + (part + b.rate * gap - b.rate * b.catchupS)) (more.getLastD t)
        (more.foldl (drainMany n) d) := by
  -- the instant at which the part of an event is owed
  obtain ⟨u, htu, howed⟩ : ∃ u, t ≤ u ∧
      d.owed u - d.released = max (d.owed t - d.released) part := by
    refine ⟨t + (max (d.owed t - d.released) part - (d.owed t - d.released)) / d.rate,
      le_add_of_nonneg_right (div_nonneg (sub_nonneg.2 (le_max_left _ _)) d.rate_pos.le), ?_⟩
    rw [d.owed_later t, add_sub_cancel_left, mul_div_cancel₀ _ d.rate_pos.ne']
    ring
  have hwithin : max (d.owed t - d.released) part ≤ d.rate * d.catchupS :=
    max_le h.within (by rwa [h.rate, h.catchupS])
  have hbelow := max_lt h.below hone
  have hgrown := le_max_left (d.owed t - d.released) part
  have hidle : ∀ v ≤ u, d.drainMany n v = d := by
    intro v hv
    have hlater := d.owed_later v u
    have hnonneg := mul_nonneg d.rate_pos.le (sub_nonneg.2 hv)
    exact drainMany_of_lt (by linarith) (by linarith)
  obtain ⟨steps, hspaced, hlast, hsame⟩ := exists_steps hgap htu hidle
  have hu : Lagging b lost u d := by
    have hb := b.owed_later t u
    have hd := d.owed_later t u
    rw [h.rate] at hd
    have hlost := h.lost
    have howes := h.owes
    exact ⟨h.running, h.rate, h.catchupS, by linarith, by linarith, by linarith, by linarith⟩
  refine ⟨steps ++ [u + gap], isChain_trans hspaced ?_, ?_⟩
  · rw [hlast]
    simp [Spaced, hgap.le]
  · rw [foldl_append, hsame, foldl_cons, foldl_nil, getLastD_concat]
    exact hu.drained hn hlarge ((le_max_right _ _).trans_eq howed.symm) hloss

end

end TokenBucket

open TokenBucket

section

variable {rate catchupS gap : ℚ} {n : ℕ}

/-- Gaps that are too long for batches make them lose as much quota as one likes. -/
lemma exists_lagging (made : Time) (hrate : 0 < rate) (hcatchup : 0 < catchupS)
    (hn : rate * catchupS ≤ n) (hgap : 0 < gap) {part : ℚ} (hone : part < 1)
    (hpart : part ≤ rate * catchupS) (hloss : rate * catchupS < part + rate * gap) (k : ℕ) :
    ∃ instants : List Time, (made :: instants).IsChain (Spaced gap) ∧
      Lagging (fresh rate hrate catchupS made) (k * (part + rate * gap - rate * catchupS))
        (instants.getLastD made)
          (instants.foldl (drainMany n) (fresh rate hrate catchupS made)) := by
  have hpos : 0 < n := Nat.cast_pos.1 ((mul_pos hrate hcatchup).trans_le hn)
  induction k with
  | zero =>
    have hbound : 0 ≤ rate * catchupS := mul_nonneg hrate.le hcatchup.le
    refine ⟨[], by simp, ⟨rfl, rfl, hcatchup.le⟩, rfl, rfl, by simp, ?_, ?_, ?_⟩
    · simp [owed, fresh]
    · simp [owed, fresh]
    · simpa [owed, fresh] using hbound
  | succ k ih =>
    obtain ⟨instants, hspaced, hlagging⟩ := ih
    obtain ⟨more, hmore, hlost⟩ := hlagging.more hpos hn hgap hone hpart hloss
    refine ⟨instants ++ more, isChain_trans hspaced hmore, ?_⟩
    rw [foldl_append]
    have hlast : (instants ++ more).getLastD made = more.getLastD (instants.getLastD made) := by
      simp [getLastD_eq_getLast?, getLast?_append]
    rw [hlast]
    push_cast
    rw [add_one_mul]
    exact hlost

end

end Stoker
