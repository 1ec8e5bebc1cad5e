import Stoker.Worker.Fleet

/-!
# Sending a heartbeat again

The client sends a heartbeat once more when the connection breaks, although the control plane may
have served it already. Serving it changed the lease: a lease that has crossed T0 is promoted, and
the marker of a pushed share is cleared. So the second answer may leave out what the first one said.
-/

namespace Stoker

open Transition

def answerTwice (t₁ t₂ : Time) (hb : Heartbeat) (db : Db) : Reply × Reply :=
  ((recordHeartbeat t₁ hb db).2, (recordHeartbeat t₂ hb (recordHeartbeat t₁ hb db).1).2)

/-- The second answer has the effect on the worker that the first one would have had: it starts at
the same T0, or works with the same share. -/
def Retold (now : Time) (answers : Reply × Reply) (w : Worker) : Prop :=
  (∀ t0, answers.1.command = .release t0 →
    (w.handle now answers.2).phase = (w.handle now answers.1).phase) ∧
  ∀ share, answers.1.command = .retarget share →
    (w.handle now answers.2).share = (w.handle now answers.1).share

/-- The heartbeat is the slot holder's, on a run that does not drain it. -/
def Answered (hb : Heartbeat) (db : Db) (lease : Lease) : Prop :=
  db.findLease hb.slot = some lease ∧ hb.leaseId = some lease.leaseId ∧
    Served db.run hb.protocolVersion

/-- T0 has passed and the lease is not yet promoted past it. -/
def PromotionDue (now : Time) (hb : Heartbeat) (db : Db) : Prop :=
  ∃ lease t0, Answered hb db lease ∧ db.run.t0 = some t0 ∧ t0 ≤ now ∧
    (lease.state = .claimed ∨ lease.state = .ready)

def PushDue (hb : Heartbeat) (db : Db) (share : PublicShare) : Prop :=
  ∃ lease, db.findLease hb.slot = some lease ∧ hb.leaseId = some lease.leaseId ∧
    PushReady db.run hb.protocolVersion lease ∧ lease.share.pub = share

/-- A worker that waits is not being promoted, and one that generates has no new share coming. -/
def Repeatable (now : Time) (hb : Heartbeat) (db : Db) (w : Worker) : Prop :=
  w.draining = true ∨
    (w.phase = .waiting → ¬ PromotionDue now hb db) ∧
    ∀ t0, w.phase = .started t0 → ∀ share, PushDue hb db share → (w.retarget share).share = w.share

/-! ### Serving a heartbeat twice -/

lemma Served.crossed {a b : Run} {version : ℤ} (h : Served a version)
    (hc : CrossedOr a.state b.state) : Served b version := by
  obtain ⟨h₁, h₂, h₃⟩ := h
  rcases hc with hc | ⟨_, hc⟩
  · exact ⟨by rw [hc]; exact h₁, by rw [hc]; exact h₂, h₃⟩
  · exact ⟨by rw [hc]; decide, by rw [hc]; rfl, h₃⟩

/-- The second time the heartbeat meets the lease that the first one left. -/
lemma answerTwice_snd (t₁ t₂ : Time) {hb : Heartbeat} {db : Db} {lease : Lease}
    (hl : db.findLease hb.slot = some lease) (hid : hb.leaseId = some lease.leaseId) :
    ∃ run, run.t0 = db.run.t0 ∧ CrossedOr db.run.state run.state ∧
      (answerTwice t₁ t₂ hb db).2.command = (heartbeatCommand t₂ run hb.protocolVersion
        (renewLease t₂ hb (heartbeatCommand t₁ db.run hb.protocolVersion
          (renewLease t₁ hb lease)).lease)).command := by
  rcases recordHeartbeat_cases t₁ hb db with ⟨_, hno⟩ | ⟨l, hl', _, d, hd, _, hls, hst, ht, _⟩
  · exact absurd hid (hno lease hl)
  cases hl.symm.trans hl'
  have hident : d.lease.ident = lease.ident := by
    rw [hd, answered_ident]
  have hslot : d.lease.slot = hb.slot := (congrArg Prod.fst hident).trans (findLease_some hl).2
  have hfind := findLease_updated hl hls fun _ _ => hslot
  refine ⟨_, ht, hst, ?_⟩
  rcases recordHeartbeat_cases t₂ hb (recordHeartbeat t₁ hb db).1 with
    ⟨_, hno⟩ | ⟨l₂, hl₂, _, d₂, hd₂, hc₂, _⟩
  · refine absurd ?_ (hno _ hfind)
    rw [hid]
    exact congrArg (fun p : ℕ × LeaseId × Option String => some p.2.1) hident.symm
  · cases hfind.symm.trans hl₂
    unfold answerTwice
    rw [hc₂, hd₂, hd]

section

variable {t₁ t₂ : Time} {hb : Heartbeat} {db : Db} {lease : Lease}

lemma first_command (hl : db.findLease hb.slot = some lease)
    (hid : hb.leaseId = some lease.leaseId) :
    (answerTwice t₁ t₂ hb db).1.command =
      (heartbeatCommand t₁ db.run hb.protocolVersion (renewLease t₁ hb lease)).command :=
  recordHeartbeat_command t₁ hl hid

variable {t0 : Time}

lemma release_repeated (t₂ : Time) (ha : Answered hb db lease) (ht : db.run.t0 = some t0)
    (hl : lease.state = .claimed ∨ lease.state = .ready) (hlt : ¬ t0 ≤ t₁) :
    (answerTwice t₁ t₂ hb db).2.command = .release t0 := by
  obtain ⟨hfind, hid, hs⟩ := ha
  obtain ⟨run, hrt, hst, hc⟩ := answerTwice_snd t₁ t₂ hfind hid
  have hstate := (renewLease_frame t₁ hb lease).2.1
  rw [hc, heartbeatCommand_due hs ht (by rw [hstate]; exact hl), if_neg hlt,
    heartbeatCommand_due (hs.crossed hst) (hrt.trans ht)]
  rw [(renewLease_frame t₂ hb _).2.1, hstate]
  exact hl

/-- From T0 on it is not: the first answer has promoted the lease. -/
lemma release_not_repeated (h : PromotionDue t₁ hb db) (t0 : Time) :
    (answerTwice t₁ t₂ hb db).2.command ≠ .release t0 := by
  obtain ⟨lease, x, ⟨hfind, hid, hs⟩, ht, hle, hl⟩ := h
  obtain ⟨run, hrt, hst, hc⟩ := answerTwice_snd t₁ t₂ hfind hid
  have hstate := (renewLease_frame t₁ hb lease).2.1
  rw [hc, heartbeatCommand_due hs ht (by rw [hstate]; exact hl), if_pos hle]
  intro h
  have hdue := (heartbeatCommand_release h).2.2
  rw [(renewLease_frame t₂ hb _).2.1] at hdue
  simp at hdue

lemma PushReady.renew {run : Run} {version : ℤ} (now : Time) (hb : Heartbeat) {l : Lease} :
    PushReady run version (renewLease now hb l) ↔ PushReady run version l := by
  obtain ⟨_, hstate, _, hmark⟩ := renewLease_frame now hb l
  rw [PushReady, PushReady, hstate, hmark]

variable {share : PublicShare}

lemma PushDue.first (h : PushDue hb db share) :
    (answerTwice t₁ t₂ hb db).1.command = .retarget share := by
  obtain ⟨lease, hfind, hid, hpush, rfl⟩ := h
  rw [first_command hfind hid, heartbeatCommand_retarget]
  exact ⟨(PushReady.renew t₁ hb).2 hpush, (renewLease_frame t₁ hb lease).2.2.1.symm⟩

lemma push_not_repeated (t₁ t₂ : Time) (h : PushDue hb db share) :
    (answerTwice t₁ t₂ hb db).2.command = .continue_ := by
  obtain ⟨lease, hfind, hid, hpush, _⟩ := h
  obtain ⟨run, hrt, hst, hc⟩ := answerTwice_snd t₁ t₂ hfind hid
  obtain ⟨hs, hp, hl₁, hm⟩ := (PushReady.renew t₁ hb).2 hpush
  rw [hc]
  cases heartbeatCommand_answer t₁ db.run hb.protocolVersion (renewLease t₁ hb lease) with
  | retarget _ _ _ _ heq =>
    rw [heq]
    -- the lease left behind is not due for the release either, and its marker is gone
    have hp₂ : run.state ≠ .paused := by
      rcases hst with hst | ⟨_, hst⟩ <;> rw [hst]
      · exact hp
      · decide
    obtain ⟨_, hstate₂, _, hmark₂⟩ := renewLease_frame t₂ hb
      { clearRetarget (renewLease t₁ hb lease) with state := heardState db.run (renewLease t₁ hb
        lease) }
    refine heartbeatCommand_continue (hs.crossed hst) ?_ hp₂ (hmark₂.trans rfl)
    rw [hstate₂, hrt]
    exact fun ht => heardState_not_due ht (hl₁ ht)
  | drain hno => exact absurd hs hno
  | release _ _ ht hno => exact absurd hno (hl₁ (by simp [ht]))
  | pause _ _ hno => exact absurd hno hp
  | continue_ _ _ _ hno =>
    rw [hm] at hno
    cases hno

/-- What is told to start is due for it. -/
lemma release_due (h : (answerTwice t₁ t₂ hb db).1.command = .release t0) :
    ∃ lease, Answered hb db lease ∧ db.run.t0 = some t0 ∧
      (lease.state = .claimed ∨ lease.state = .ready) := by
  rcases recordHeartbeat_cases t₁ hb db with ⟨hsup, _⟩ | ⟨l, hl, hid, _⟩
  · rw [answerTwice, hsup] at h
    cases h
  rw [first_command hl hid] at h
  have hstate := (renewLease_frame t₁ hb l).2.1
  obtain ⟨hs, hx, hdue⟩ := heartbeatCommand_release h
  exact ⟨l, ⟨hl, hid, hs⟩, hx, by rw [← hstate]; exact hdue⟩

/-- What is told to change its share has one marked. -/
lemma push_due (h : (answerTwice t₁ t₂ hb db).1.command = .retarget share) :
    PushDue hb db share := by
  rcases recordHeartbeat_cases t₁ hb db with ⟨hsup, _⟩ | ⟨l, hl, hid, _⟩
  · rw [answerTwice, hsup] at h
    cases h
  rw [first_command hl hid] at h
  obtain ⟨hpush, rfl⟩ := (heartbeatCommand_retarget _ _ _ _ _).1 h
  exact ⟨l, hl, hid, (PushReady.renew t₁ hb).1 hpush, (renewLease_frame t₁ hb l).2.2.1.symm⟩

end

/-! ### When it is safe -/

/-- A heartbeat can be sent again without loss if and only if the worker is not a waiting one whose
lease it promotes, and not a generating one for which it brings a new share. -/
theorem resend_iff (t₁ t₂ now : Time) (hb : Heartbeat) (db : Db) (w : Worker) :
    Retold now (answerTwice t₁ t₂ hb db) w ↔ Repeatable t₁ hb db w := by
  constructor
  · rintro ⟨hrel, hpush⟩
    by_cases hd : w.draining = true
    · exact .inl hd
    have hd' : w.draining = false := by simpa using hd
    refine .inr ⟨fun hw hdue => ?_, fun t0 hw share hdue => ?_⟩
    · obtain ⟨lease, t0, ha, ht, hle, hl⟩ := id hdue
      have hfirst : (answerTwice t₁ t₂ hb db).1.command = .release t0 := by
        rw [first_command ha.1 ha.2.1, heartbeatCommand_due ha.2.2 ht]
        rw [(renewLease_frame t₁ hb lease).2.1]
        exact hl
      have heq := hrel t0 hfirst
      rw [Worker.handle_waiting hw (release_not_repeated hdue),
        Worker.handle_release hd' hw hfirst] at heq
      cases heq
    · have hfirst : (answerTwice t₁ t₂ hb db).1.command = .retarget share := hdue.first
      have hsecond := push_not_repeated t₁ t₂ hdue
      have heq := hpush share hfirst
      rw [Worker.handle_retarget hd' hw hfirst,
        Worker.handle_share (by rw [hsecond]; simp)] at heq
      exact heq.symm
  · intro h
    rcases h with hd | ⟨hwait, hgen⟩
    · exact ⟨fun _ _ => by rw [Worker.handle_draining hd, Worker.handle_draining hd],
        fun _ _ => by rw [Worker.handle_draining hd, Worker.handle_draining hd]⟩
    refine ⟨fun t0 hfirst => ?_, fun share hfirst => ?_⟩
    · by_cases hw : w.phase = .waiting
      · obtain ⟨lease, ha, ht, hl⟩ := release_due hfirst
        have hlt : ¬ t0 ≤ t₁ := fun hle => hwait hw ⟨lease, t0, ha, ht, hle, hl⟩
        have hsecond := release_repeated t₂ ha ht hl hlt
        by_cases hd : w.draining = true
        · rw [Worker.handle_draining hd, Worker.handle_draining hd]
        · have hd' : w.draining = false := by simpa using hd
          rw [Worker.handle_release hd' hw hfirst, Worker.handle_release hd' hw hsecond]
      · rw [Worker.handle_phase hw, Worker.handle_phase hw]
    · by_cases hw : ∀ t0, w.phase ≠ .started t0
      · rw [Worker.handle_share_unstarted hw, Worker.handle_share_unstarted hw]
      · push Not at hw
        obtain ⟨t0, hw⟩ := hw
        have hdue := push_due hfirst
        have hsecond : (w.handle now (answerTwice t₁ t₂ hb db).2).share = w.share :=
          Worker.handle_share (by rw [push_not_repeated t₁ t₂ hdue]; simp)
        rw [hsecond]
        by_cases hd : w.draining = true
        · rw [Worker.handle_draining hd]
        · have hd' : w.draining = false := by simpa using hd
          rw [Worker.handle_retarget hd' hw hfirst, hgen t0 hw share hdue]

/-- The only worker of a run posts ready and is released, with T0 at 7. Its heartbeat at 8 is
answered with the release and the answer is lost; the one sent again is told to continue, and the
worker waits on. -/
theorem resent_release_lost :
    ¬ ∀ (cfg : Settings) (now : Time) (spec : Snapshot) (db : Db) (es : List Event) (f : Fleet)
      (w : Worker) (t₁ t₂ : Time) (payload : Heartbeat), provisionRun now spec = .ok db →
      Runs (Fleet.step cfg) Always (Fleet.start db) es f → w ∈ f.workers → w.beats t₁ = true →
      t₁ ≤ t₂ → Retold t₂ (answerTwice t₁ t₂ (w.heartbeat payload) f.sys.db) w := by
  intro h
  have hr := (h {} 0 (plainSpec 1) (plainDb 1)
    [.server (.launch 1 swarmRun), .claim 2 "w0" none, .ready 4 "w0",
      .server (.release 5 0)] _
    { holder := "w0", slot := 0, leaseId := 1, rateMode := .eps, rateValue := 12, released := false,
      effectiveT0 := none, phase := .waiting, lastAck := 4 }
    8 9 { slot := 0, leaseId := none } (provisionRun_plain (by decide)) (Runs.always _ _)
    (by decide +kernel) (by decide +kernel) (by norm_num)).1 7 (by decide +kernel)
  revert hr
  decide +kernel

end Stoker
