import Stoker.Transition.Runs
import Stoker.Server.Rows

/-!
# The bearer of a worker

The run tokens of `server/crypto.py`, `maybe_refresh_jwt`, and what `ControlClient.heartbeat` makes
of it. A worker is launched with a token for its run and shows it with every request. A heartbeat
that shows one close to its expiry is answered with a fresh one; an expired token is refused before
anyone looks at that.

The library that decodes tokens is a parameter with what is assumed of it. Signatures are taken to
be good, and the instants are those of the control plane's clock.
-/

namespace Stoker

open Transition

/-- The claims of a token. -/
structure RunJwt where
  runId : ℕ
  kid : String
  iat : ℤ
  exp : ℤ
  deriving DecidableEq

def mintRunJwt (ttlS : ℤ) (now : Time) (runId : ℕ) (kid : String) : RunJwt :=
  ⟨runId, kid, ⌊now⌋, ⌊now + ttlS⌋⟩

/-- `decode_run_jwt` with the library below it: whether to check the expiry, the instant and the
token of a run. A token is accepted from its issue to its expiry, and refused from its expiry on
where that is checked; nothing is assumed of other cases. -/
structure Decoder where
  decodeRunJwt : Bool → Time → RunJwt → Except String RunJwt
  accepts : ∀ verifyExp now token, token.iat ≤ now → now < token.exp →
    decodeRunJwt verifyExp now token = .ok token
  refuses : ∀ now token, token.exp ≤ now → ∃ e, decodeRunJwt true now token = .error e

variable (lib : Decoder)

def verifyRunJwt (now : Time) (runId : ℕ) (token : RunJwt) : Except String RunJwt := do
  let claims ← lib.decodeRunJwt true now token
  if claims.runId ≠ runId then
    .error ("run JWT run_id " ++ toString claims.runId ++ " does not match path run_id " ++
      toString runId)
  else return claims

def jwtSecondsRemaining (now : Time) (token : RunJwt) : Option ℚ :=
  (lib.decodeRunJwt false now token).toOption.map fun claims => claims.exp - now

def jwtRefreshFraction : ℚ := 1 / 5

def maybeRefreshJwt (ttlS : ℤ) (now : Time) (runId : ℕ) (kid : String) (token : RunJwt) :
    Option RunJwt :=
  if kid = "" then none
  else match jwtSecondsRemaining lib now token with
    | none => none
    | some remaining =>
      if remaining ≤ ttlS * jwtRefreshFraction then some (mintRunJwt ttlS now runId kid) else none

/-- A heartbeat, and whether it is answered: nothing is lost on the way, and the lease is still the
worker's. -/
structure Beat where
  now : Time
  answered : Bool := true

/-- The token a worker shows, and the last heartbeat that was answered; at first, the launch. -/
structure Bearer where
  jwt : RunJwt
  lastBeat : Time
  deriving DecidableEq

namespace Bearer

variable (ttlS : ℤ) (runId : ℕ) (kid : String)

def launched (now : Time) : Bearer := ⟨mintRunJwt ttlS now runId kid, now⟩

def heartbeat (b : Beat) (w : Bearer) : Bearer :=
  match b.answered, verifyRunJwt lib b.now runId w.jwt with
  | true, .ok token => ⟨(maybeRefreshJwt lib ttlS b.now runId kid token).getD token, b.now⟩
  | _, _ => w

/-- Heartbeats come in the order of the clock. -/
def InOrder (b : Beat) (w : Bearer) : Prop := w.lastBeat ≤ b.now

instance (b : Beat) (w : Bearer) : Decidable (InOrder b w) :=
  inferInstanceAs (Decidable (w.lastBeat ≤ b.now))

/-- The token is good for the fraction of its lifetime that follows the last answered heartbeat. -/
structure Good (w : Bearer) : Prop where
  run : w.jwt.runId = runId
  iat : w.jwt.iat ≤ w.lastBeat
  exp : w.lastBeat + ttlS * jwtRefreshFraction < w.jwt.exp

variable {lib ttlS runId kid} {w : Bearer} {now : Time} {token : RunJwt}

lemma verifyRunJwt_ok (hrun : token.runId = runId) (hiat : token.iat ≤ now)
    (hexp : now < token.exp) : verifyRunJwt lib now runId token = .ok token := by
  rw [verifyRunJwt, lib.accepts true now token hiat hexp]
  exact if_neg (not_not.2 hrun)

lemma verifyRunJwt_expired (h : token.exp ≤ now) :
    ∃ e, verifyRunJwt lib now runId token = .error e := by
  obtain ⟨e, he⟩ := lib.refuses now token h
  rw [verifyRunJwt, he]
  exact ⟨e, rfl⟩

lemma heartbeat_expired (b : Beat) (h : w.jwt.exp ≤ b.now) :
    heartbeat lib ttlS runId kid b w = w := by
  obtain ⟨e, he⟩ : ∃ e, verifyRunJwt lib b.now runId w.jwt = .error e := verifyRunJwt_expired h
  rw [heartbeat, he]
  cases b.answered <;> rfl

lemma good_launched (httl : 2 ≤ ttlS) (now : Time) :
    Good ttlS runId (launched ttlS runId kid now) := by
  refine ⟨rfl, Int.floor_le now, ?_⟩
  have hexp : now + ttlS - 1 < ⌊now + ttlS⌋ := Int.sub_one_lt_floor _
  have httl' : (2 : ℚ) ≤ ttlS := by exact_mod_cast httl
  change now + ttlS * (1 / 5) < ⌊now + ttlS⌋
  linarith

/-- Close to its expiry the token is replaced by a fresh one, and otherwise it is far from it. -/
lemma Good.step (httl : 2 ≤ ttlS) (hkid : kid ≠ "") {b : Beat} (horder : InOrder b w)
    (h : Good ttlS runId w) : Good ttlS runId (heartbeat lib ttlS runId kid b w) := by
  rcases le_or_gt (w.jwt.exp : ℚ) b.now with hexp | hexp
  · rwa [heartbeat_expired b hexp]
  · have hiat := h.iat.trans horder
    have hleft : jwtSecondsRemaining lib b.now w.jwt = some (w.jwt.exp - b.now) := by
      rw [jwtSecondsRemaining, lib.accepts false b.now w.jwt hiat hexp]
      rfl
    rw [heartbeat, verifyRunJwt_ok h.run hiat hexp]
    cases b.answered with
    | false => exact h
    | true =>
      dsimp only
      rw [maybeRefreshJwt, if_neg hkid, hleft]
      dsimp only
      split_ifs with hclose
      · exact good_launched httl b.now
      · exact ⟨h.run, hiat, lt_sub_iff_add_lt'.1 (not_le.1 hclose)⟩

end Bearer

open Bearer in
/-- Whatever heartbeats of a worker are answered or lost, its token is accepted for a fifth of a
lifetime after the last one that was answered. Once the token has expired nothing brings it back:
every later request is refused, and no heartbeat rolls it. -/
theorem bearer_rolls_in_time (lib : Decoder) {ttlS : ℤ} {kid : String} (httl : 2 ≤ ttlS)
    (hkid : kid ≠ "") (runId : ℕ) (launch : Time) {beats : List Beat} {w : Bearer}
    (h : Runs (heartbeat lib ttlS runId kid) InOrder (launched ttlS runId kid launch) beats w) :
    (∀ now, w.lastBeat ≤ now → now ≤ w.lastBeat + ttlS * jwtRefreshFraction →
      verifyRunJwt lib now runId w.jwt = .ok w.jwt) ∧
    ∀ later : List Beat, (∀ b ∈ later, w.jwt.exp ≤ b.now) →
      exec (heartbeat lib ttlS runId kid) w later = w ∧
        ∀ b ∈ later, ∃ e, verifyRunJwt lib b.now runId w.jwt = .error e := by
  have hgood : Good ttlS runId w :=
    h.invariant (fun b _ horder h => h.step httl hkid horder) (good_launched httl launch)
  refine ⟨fun now hle hlt => ?_, fun later hlater => ⟨?_, fun b hb => ?_⟩⟩
  · exact verifyRunJwt_ok hgood.run (hgood.iat.trans hle) (hlt.trans_lt hgood.exp)
  · induction later with
    | nil => rfl
    | cons b later ih =>
      rw [exec, List.foldl_cons, heartbeat_expired b (hlater b List.mem_cons_self)]
      exact ih fun b hb => hlater b (List.mem_cons_of_mem _ hb)
  · exact verifyRunJwt_expired (hlater b hb)

/-- A decoder that looks at nothing but the expiry. -/
def plainDecoder : Decoder where
  decodeRunJwt := fun verifyExp now token =>
    if verifyExp ∧ token.exp ≤ now then .error "run JWT expired" else .ok token
  accepts := fun _ _ _ _ hexp => if_neg fun h => absurd h.2 (not_le.2 hexp)
  refuses := fun _ _ h => ⟨_, if_pos ⟨rfl, h⟩⟩

/-- The token of a launch at 0 lasts until 100. It is rolled at 85, and the new one is good at
104. -/
theorem bearer_rolls_in_time_once :
    let w := exec (Bearer.heartbeat plainDecoder 100 7 "k") (.launched 100 7 "k" 0)
      [⟨50, true⟩, ⟨70, false⟩, ⟨85, true⟩]
    w.lastBeat = 85 ∧ verifyRunJwt plainDecoder 104 7 w.jwt = .ok w.jwt := by
  intro w
  have hw : w.lastBeat = 85 := by decide +kernel
  refine ⟨hw, (bearer_rolls_in_time plainDecoder (by decide) (by decide) 7 0
    (Runs.of_check (by decide +kernel))).1 104 ?_ ?_⟩
  · exact hw.trans_le (by norm_num)
  · exact le_of_le_of_eq (by norm_num [jwtRefreshFraction]) (congrArg (· + _) hw.symm)

end Stoker
