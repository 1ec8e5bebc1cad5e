import Stoker.Worker.Fleet

/-!
# One worker per slot

The control plane and its workers over a network that delays or loses answers. Everything carries
the time of one shared clock. A request is served at any time after its lease id was handed out;
what is answered goes into a log, and any entry of the log may arrive at any later time, or never.

A lease ages from the moment its worker's request was served, the worker's fence from the moment the
answer arrived. The two agree only as far as the network is fast: if answers take at most `δ` and a
slot is handed on no sooner than `δ` after the fence of its last worker must have closed, no two
workers of a slot are ever open at once.
-/

open List

namespace Stoker

open Transition

/-! ### Answers on their way -/

inductive Body where
  | slice (holder : String) (slice : Slice)
  | ready
  | reply (reply : Reply)
  deriving DecidableEq

/-- An answer, with the time it was served at and the lease it was given for. -/
structure Message where
  served : Time
  slot : ℕ
  leaseId : LeaseId
  body : Body
  deriving DecidableEq

/-- Every answer renews the worker's contact, except that its lease is superseded. -/
def Message.acks (m : Message) : Bool :=
  match m.body with
  | .reply r => decide (r.command ≠ .superseded)
  | _ => true

/-- What the control plane answers to a request. -/
def answers (a : Action) (s : Sys) : List Message :=
  match a with
  | .claim now holder hint =>
    match claimLease now holder hint s.db with
    | .error _ => []
    | .ok (db, slot) =>
      match db.findLease slot with
      | none => []
      | some lease => [⟨now, slot, lease.leaseId, .slice holder (buildSlice db.run lease)⟩]
  | .ready now slot (some id) =>
    match markReady now slot (some id) s.db with
    | .error _ => []
    | .ok _ => [⟨now, slot, id, .ready⟩]
  | .heartbeat now hb =>
    match hb.leaseId with
    | none => []
    | some id => [⟨now, hb.slot, id, .reply (recordHeartbeat now hb s.db).2⟩]
  | _ => []

/-! ### The network -/

structure Net where
  sys : Sys
  workers : Roster := []
  log : List Message := []
  clock : Time
  deriving DecidableEq

inductive NetEvent where
  | serve (a : Action)
  | deliver (now : Time) (message : ℕ)
  | drain (now : Time) (holder : String)
  | wait (now : Time)
  deriving DecidableEq

def NetEvent.time : NetEvent → Time
  | .serve a => a.time
  | .deliver now _ | .drain now _ | .wait now => now

namespace Net

def start (now : Time) (db : Db) : Net := { sys := Sys.start db, clock := now }

/-- A message that names a lease was sent by a worker that was given it. -/
def Known (a : Action) (s : Sys) : Prop := ∀ p ∈ a.carries, ∃ q ∈ s.issued, q.2 = p.2

instance (a : Action) (s : Sys) : Decidable (Known a s) :=
  inferInstanceAs (Decidable (∀ p ∈ a.carries, _))

def serve (cfg : Settings) (a : Action) (n : Net) : Net :=
  if Known a n.sys then
    { n with sys := Sys.step cfg a n.sys, log := n.log ++ answers a n.sys }
  else n

/-- An answer arrives at a worker of the lease it was given for. -/
def hear (now : Time) (m : Message) (w : Worker) : Worker :=
  if w.slot = m.slot ∧ w.leaseId = m.leaseId then
    match m.body with
    | .slice _ _ => w
    | .ready => if w.draining = true ∨ w.phase ≠ .preparing then w else w.readied now
    | .reply r => w.handle now r
  else w

/-- An answer arrives: a slice starts a worker in place of whatever its holder ran before, anything
else is handled by the worker it is for. -/
def receive (now : Time) (m : Message) (ws : Roster) : Roster :=
  match m.body with
  | .slice holder slice =>
    match Worker.ofSlice now holder slice with
    | .ok w => Roster.put w ws
    | .error _ => ws.filter (·.holder ≠ holder)
  | _ => ws.map (hear now m)

/-- What happens at an event, once the clock shows its time. -/
def act (cfg : Settings) (e : NetEvent) (n : Net) : Net :=
  match e with
  | .serve a => n.serve cfg a
  | .deliver now i =>
    match n.log[i]? with
    | none => n
    | some m => { n with workers := receive now m n.workers }
  | .drain _ holder =>
    { n with workers := n.workers.map fun w =>
        if w.holder = holder then { w with draining := true } else w }
  | .wait _ => n

/-- Time does not go back: an event that comes too late does not happen. -/
def step (cfg : Settings) (e : NetEvent) (n : Net) : Net :=
  if n.clock ≤ e.time then act cfg e { n with clock := e.time } else n

end Net

/-! ### What is answered -/

variable {m : Message} {a : Action} {s : Sys}

/-- The request that an answer is for. -/
inductive AnswerOf (s : Sys) : Action → Message → Prop where
  | claim {now : Time} {holder : String} {hint : Option ℕ} {db : Db} {slot : ℕ} {lease : Lease}
      (hc : claimLease now holder hint s.db = .ok (db, slot))
        (hl : db.findLease slot = some lease) :
      AnswerOf s (.claim now holder hint)
        ⟨now, slot, lease.leaseId, .slice holder (buildSlice db.run lease)⟩
  | ready {now : Time} {slot : ℕ} {id : LeaseId} {db : Db}
      (hr : markReady now slot (some id) s.db = .ok db) :
      AnswerOf s (.ready now slot (some id)) ⟨now, slot, id, .ready⟩
  | heartbeat {now : Time} {hb : Heartbeat} {id : LeaseId} (hid : hb.leaseId = some id) :
      AnswerOf s (.heartbeat now hb) ⟨now, hb.slot, id, .reply (recordHeartbeat now hb s.db).2⟩

lemma answerOf (h : m ∈ answers a s) : AnswerOf s a m := by
  unfold answers at h
  split at h
  · split at h
    · cases h
    · next hc =>
      split at h
      · cases h
      · next hl =>
        rw [mem_singleton.1 h]
        exact .claim hc hl
  · split at h
    · cases h
    · next hr =>
      rw [mem_singleton.1 h]
      exact .ready hr
  · split at h
    · cases h
    · next hid =>
      rw [mem_singleton.1 h]
      exact .heartbeat hid
  · cases h

lemma answers_served (h : m ∈ answers a s) : m.served = a.time := by
  cases answerOf h <;> rfl

variable {now : Time}

lemma issued_step {cfg : Settings} {p : String × LeaseId}
    (h : p ∈ (Sys.step cfg a s).issued) :
    p ∈ s.issued ∨ ∃ m ∈ answers a s, m.acks = true ∧ m.leaseId = p.2 := by
  rcases Sys.step_sent cfg a s with hsent | ⟨now, holder, hint, db, slot, lease, rfl, hc, hl, _,
    hsent⟩ |
    ⟨now, hb, _, _, hsent⟩
  · rw [Sys.issued, hsent] at h
    exact .inl h
  · simp only [Sys.issued, hsent, filterMap_append, mem_append] at h
    rcases h with h | h
    · exact .inl h
    · refine .inr ⟨⟨now, slot, lease.leaseId, .slice holder (buildSlice db.run lease)⟩, ?_, rfl, ?_⟩
      · simp [answers, hc, hl]
      · rw [mem_singleton.1 h]
        rfl
  · refine .inl ?_
    simpa [Sys.issued, hsent] using h

/-- Answers take at most `δ`, and a slot is handed to a worker only when every acknowledgement given
for it before is so old that it has arrived and the fence of whoever got it has closed. -/
def Spaced (δ : Time) (e : NetEvent) (n : Net) : Prop :=
  match e with
  | .deliver now i => ∀ m ∈ n.log[i]?, now ≤ m.served + δ
  | .serve (.claim now holder hint) =>
    heldLease n.sys.db.leases holder = none → ∀ l ∈ nextClaimable n.sys.db.leases hint,
      ∀ m ∈ n.log, m.acks = true → m.slot = l.slot → m.served + δ + fencePauseS < now
  | _ => True

instance (δ : Time) (e : NetEvent) (n : Net) : Decidable (Spaced δ e n) := by
  unfold Spaced
  split <;> infer_instance

/-- The log against the rows: a slot's newest acknowledgement is for the id it has, a lease that is
held was acknowledged, and the acknowledgements of two ids of one slot lie apart. -/
structure Ledger (δ : Time) (s : Sys) (log : List Message) : Prop where
  registry : s.registry.Sound
  slices : ∀ m ∈ log, ∀ holder slice, m.body = .slice holder slice →
    slice.slot = m.slot ∧ slice.leaseId = m.leaseId ∧ (holder, m.leaseId) ∈ s.issued
  generated : ∀ m ∈ log, m.acks = true → m.leaseId < s.db.nextId
  newest : ∀ x ∈ s.registry.rows, ∀ m ∈ log, m.acks = true → m.slot = x.1 → m.leaseId ≤ x.2.1
  told : ∀ x ∈ s.registry.rows, x.2.2.isSome = true →
    ∃ m ∈ log, m.acks = true ∧ m.slot = x.1 ∧ m.leaseId = x.2.1
  apart : ∀ m ∈ log, ∀ k ∈ log, m.acks = true → k.acks = true → m.slot = k.slot →
    m.leaseId < k.leaseId → m.served + δ + fencePauseS < k.served

/-- An acknowledging answer is for the id its slot then has. Either the slot had it before, and a
holder, or the answer is the slice of a claim that took the slot. -/
lemma answers_row (cfg : Settings) (hs : s.registry.Sound)
    (hk : Net.Known a s) (h : m ∈ answers a s) (hm : m.acks = true) :
    (∃ x ∈ (Sys.step cfg a s).registry.rows, x.1 = m.slot ∧ x.2.1 = m.leaseId) ∧
    ((∃ x ∈ s.registry.rows, x.2.2.isSome = true ∧ x.1 = m.slot ∧ x.2.1 = m.leaseId) ∨
      ∃ holder hint l, a = .claim m.served holder hint ∧ heldLease s.db.leases holder = none ∧
        nextClaimable s.db.leases hint = some l ∧ l.slot = m.slot) := by
  have hn := Sys.nodup_slots hs
  -- the lease of a slot whose id the request knows has a holder
  have hheld : ∀ l ∈ s.db.leases, ∀ slot id, a.carries = some (slot, id) → l.slot = slot →
      l.leaseId = id → ∃ x ∈ s.registry.rows, x.2.2.isSome = true ∧ x.1 = slot ∧ x.2.1 = id := by
    intro l hl slot id hcar hslot hid
    have hrow : l.ident ∈ s.registry.rows := mem_map_of_mem hl
    obtain ⟨q, hq, hqid⟩ := hk _ (Option.mem_def.2 hcar)
    refine ⟨l.ident, hrow, ?_, hslot, hid⟩
    rw [hs.current _ hrow q hq (hqid.trans hid.symm)]
    rfl
  cases answerOf h with
  | @ready now slot id db hr =>
    obtain ⟨lease, hl, hid, _⟩ := markReady_ok hr
    obtain ⟨hmem, hslot⟩ := findLease_some hl
    obtain ⟨x, hx, hx'⟩ := hheld lease hmem slot id rfl hslot (Option.some.inj hid).symm
    refine ⟨⟨x, ?_, hx'.2⟩, .inl ⟨x, hx, hx'⟩⟩
    change x ∈ (s.ready now slot (some id)).db.leases.map Lease.ident
    rw [Sys.ready_db hr, (IdentKept.of_upkeep (.ready hr)).1]
    exact hx
  | @heartbeat now hb id hid =>
    rcases recordHeartbeat_cases now hb s.db with ⟨hsup, _⟩ | ⟨lease, hl, hcur, _⟩
    · rw [hsup] at hm
      cases hm
    · obtain ⟨hmem, hslot⟩ := findLease_some hl
      obtain ⟨x, hx, hx'⟩ := hheld lease hmem hb.slot id (by simp [Action.carries, hid]) hslot
        (Option.some.inj (hcur.symm.trans hid))
      have hrows : (Sys.step cfg (.heartbeat now hb) s).registry.rows = s.registry.rows :=
        (IdentKept.of_upkeep (.heartbeat now hb hn fun _ => rfl)).1
      exact ⟨⟨x, hrows ▸ hx, hx'.2⟩, .inl ⟨x, hx, hx'⟩⟩
  | @claim now holder hint db slot lease hok hl =>
    have hstep : Sys.step cfg (.claim now holder hint) s = _ := Sys.claim_ok hok hl
    have hmove := step_move cfg (.claim now holder hint) s hs
    have hs' := hs.move hmove
    rw [hstep] at hmove hs' ⊢
    obtain ⟨hmem, hslot⟩ := findLease_some hl
    have hrow : lease.ident ∈ db.leases.map Lease.ident := mem_map_of_mem hmem
    refine ⟨⟨lease.ident, hrow, hslot, rfl⟩, ?_⟩
    rcases (claimLease_ok hok).2 with ⟨held, _, _, _, _, hdb⟩ | ⟨l, hnext, hls, hnone, _⟩
    · -- no id was generated, so the row was there before; its id was just handed to the holder
      refine .inl ⟨lease.ident, ?_, ?_, hslot, rfl⟩
      · rcases hmove.rows _ hrow with hold | ⟨hfresh, _⟩
        · exact hold
        · have hnid : db.nextId = s.db.nextId := by
            rw [hdb]
            rfl
          have hlt : lease.leaseId < db.nextId := hs'.generated _ hrow
          rw [hnid] at hlt
          exact absurd hlt (Nat.not_lt.2 hfresh)
      · have hissued : (holder, lease.leaseId) ∈ Sys.issued { s with db := db, sent := s.sent ++
            [Answer.slice holder (buildSlice db.run lease)] } := by
          simp [Sys.issued, buildSlice]
        rw [hs'.current _ hrow _ hissued rfl]
        rfl
    · refine .inr ⟨holder, hint, l, rfl, ?_, hnext, hls⟩
      refine find?_eq_none.2 fun k hk' hp => ?_
      simp only [decide_eq_true_eq] at hp
      rw [hnone k hk' hp.1] at hp
      exact Bool.false_ne_true hp.2

lemma answers_slices (cfg : Settings) (h : m ∈ answers a s)
    {holder : String} {slice : Slice} (hm : m.body = .slice holder slice) :
    slice.slot = m.slot ∧ slice.leaseId = m.leaseId ∧
      (holder, m.leaseId) ∈ (Sys.step cfg a s).issued := by
  cases answerOf h with
  | ready | heartbeat => cases hm
  | @claim now holder' hint db slot lease hc hl =>
    cases hm
    refine ⟨(findLease_some hl).2, rfl, ?_⟩
    have hstep : Sys.step cfg (.claim now holder hint) s = _ := Sys.claim_ok hc hl
    rw [hstep]
    simp [Sys.issued, buildSlice]

namespace Ledger

variable {cfg : Settings} {δ : Time} {a : Action} {s : Sys} {log : List Message}

/-- What the log said of the slots' ids still holds of the ids they have after a step. -/
lemma newest_step (h : Ledger δ s log) : ∀ x ∈ (Sys.step cfg a s).registry.rows,
    ∀ m ∈ log, m.acks = true → m.slot = x.1 → m.leaseId ≤ x.2.1 := by
  intro x hx m hm ha hslot
  rcases (step_move cfg a s h.registry).rows x hx with hold | ⟨hfresh, _⟩
  · exact h.newest x hold m hm ha hslot
  · exact (h.generated m hm ha).le.trans hfresh

variable (h : Ledger δ s log) (hk : Net.Known a s) (hpast : ∀ m ∈ log, m.served ≤ a.time)
  (hg : ∀ holder hint l, a = .claim a.time holder hint → heldLease s.db.leases holder = none →
    nextClaimable s.db.leases hint = some l →
    ∀ m ∈ log, m.acks = true → m.slot = l.slot → m.served + δ + fencePauseS < a.time)

include h hk hpast hg

/-- A new acknowledgement lies apart from all those given for earlier ids of its slot. -/
lemma apart_new {m k : Message} (hm : m ∈ log) (hk' : k ∈ answers a s) (ham : m.acks = true)
    (hak : k.acks = true) (hslot : m.slot = k.slot) (hlt : m.leaseId < k.leaseId) :
    m.served + δ + fencePauseS < k.served := by
  have htime := answers_served hk'
  rcases (answers_row {} h.registry hk hk' hak).2 with
    ⟨x, hx, hsome, hxs, hxi⟩ | ⟨holder, hint, l, hac, hnone, hnext, hls⟩
  · -- the slot's id was acknowledged before, and that lies apart already
    obtain ⟨j, hj, haj, hjs, hji⟩ := h.told x hx hsome
    have hjk := h.apart m hm j hj ham haj (hslot.trans (hxs.symm.trans hjs.symm))
      (by rw [hji, hxi]; exact hlt)
    rw [htime]
    exact hjk.trans_le (hpast j hj)
  · rw [htime] at hac ⊢
    exact hg holder hint l hac hnone hnext m hm ham (hslot.trans hls.symm)

theorem serve :
    Ledger δ (Sys.step cfg a s) (log ++ answers a s) := by
  have hmove := step_move cfg a s h.registry
  have hs' := h.registry.move hmove
  have hrow := fun k (hk' : k ∈ answers a s) hak => (answers_row cfg h.registry hk hk' hak).1
  refine ⟨hs', ?_, ?_, ?_, ?_, ?_⟩
  · intro m hm holder slice hbody
    rcases mem_append.1 hm with hm | hm
    · obtain ⟨h₁, h₂, h₃⟩ := h.slices m hm holder slice hbody
      exact ⟨h₁, h₂, hmove.issued_mono _ h₃⟩
    · exact answers_slices cfg hm hbody
  · intro m hm ha
    rcases mem_append.1 hm with hm | hm
    · exact (h.generated m hm ha).trans_le hmove.nextId_le
    · obtain ⟨x, hx, _, hid⟩ := hrow m hm ha
      rw [← hid]
      exact hs'.generated x hx
  · intro x hx m hm ha hslot
    rcases mem_append.1 hm with hm | hm
    · exact h.newest_step x hx m hm ha hslot
    · obtain ⟨y, hy, hys, hyi⟩ := hrow m hm ha
      have hxy : y = x :=
        inj_on_of_nodup_map (Registry.nodup_slots hs') hy hx (hys.trans hslot)
      rw [← hyi, hxy]
  · intro x hx hsome
    rcases hmove.rows x hx with hold | ⟨hfresh, hnone | ⟨p, hp, hpid⟩⟩
    · obtain ⟨m, hm, hrest⟩ := h.told x hold hsome
      exact ⟨m, mem_append_left _ hm, hrest⟩
    · rw [hnone] at hsome
      cases hsome
    · -- a fresh row with a holder: its id was handed out by the slice that this step answers with
      rcases issued_step hp with hold | ⟨m, hm, ha, hmid⟩
      · have hlt : p.2 < s.db.nextId := h.registry.issuedGenerated p hold
        rw [hpid] at hlt
        exact absurd hlt (Nat.not_lt.2 hfresh)
      · obtain ⟨y, hy, hys, hyi⟩ := hrow m hm ha
        have hid : m.leaseId = x.2.1 := hmid.trans hpid
        have hxy : y = x := inj_on_of_nodup_map hs'.ids hy hx (hyi.trans hid)
        exact ⟨m, mem_append_right _ hm, ha, by rw [← hys, hxy], hid⟩
  · intro m hm k hk' ham hak hslot hlt
    rcases mem_append.1 hk' with hk' | hk'
    · rcases mem_append.1 hm with hm | hm
      · exact h.apart m hm k hk' ham hak hslot hlt
      · -- no earlier acknowledgement of the slot has a larger id
        obtain ⟨x, hx, hxs, hxi⟩ := hrow m hm ham
        have hle := h.newest_step x hx k hk' hak (hslot.symm.trans hxs.symm)
        rw [hxi] at hle
        exact absurd hlt (Nat.not_lt.2 hle)
    · rcases mem_append.1 hm with hm | hm
      · exact h.apart_new hk hpast hg hm hk' ham hak hslot hlt
      · -- two answers of one step are for the id the slot has after it
        obtain ⟨x, hx, hxs, hxi⟩ := hrow m hm ham
        obtain ⟨y, hy, hys, hyi⟩ := hrow k hk' hak
        have hxy : x = y := inj_on_of_nodup_map (Registry.nodup_slots hs') hx hy
          (hxs.trans (hslot.trans hys.symm))
        rw [← hxi, ← hyi, hxy] at hlt
        exact absurd hlt (lt_irrefl _)

end Ledger

/-! ### The workers -/

namespace Net

/-- The log fits the rows, nothing was served in the future, and every worker has an id that was
handed to it and last heard an answer for it at most `δ` after the answer was served. -/
structure Fits (δ : Time) (n : Net) : Prop where
  ledger : Ledger δ n.sys n.log
  past : ∀ m ∈ n.log, m.served ≤ n.clock
  issued : ∀ w ∈ n.workers, (w.holder, w.leaseId) ∈ n.sys.issued
  heard : ∀ w ∈ n.workers, ∃ m ∈ n.log, m.acks = true ∧ m.slot = w.slot ∧ m.leaseId = w.leaseId ∧
    w.lastAck ≤ m.served + δ

lemma start_fits {δ : Time} {spec : Snapshot} {db : Db} (h : provisionRun now spec = .ok db) :
    Fits δ (start now db) := by
  have hfree : ∀ x ∈ (Sys.start db).registry.rows, x.2.2 = none := by
    obtain ⟨_, shares, _, rfl⟩ := provisionRun_ok h
    intro x hx
    obtain ⟨l, hl, rfl⟩ := mem_map.1 hx
    simp only [Sys.start, provisionedDb, seedLeases, mem_mapIdx] at hl
    obtain ⟨i, _, rfl⟩ := hl
    rfl
  refine ⟨⟨start_sound h, ?_, ?_, ?_, ?_, ?_⟩, ?_, ?_, ?_⟩
  · exact fun m hm => absurd hm not_mem_nil
  · exact fun m hm => absurd hm not_mem_nil
  · exact fun x hx m hm => absurd hm not_mem_nil
  · intro x hx hsome
    rw [hfree x hx] at hsome
    cases hsome
  · exact fun m hm => absurd hm not_mem_nil
  · exact fun m hm => absurd hm not_mem_nil
  all_goals exact fun w hw => absurd hw not_mem_nil

/-- What an answer does to the contact of the worker that gets it. -/
lemma hear_cases (now : Time) (m : Message) (w : Worker) :
    (hear now m w).ident = w.ident ∧ ((hear now m w).lastAck = w.lastAck ∨
      ((hear now m w).lastAck = now ∧ m.acks = true ∧ m.slot = w.slot ∧
        m.leaseId = w.leaseId)) := by
  unfold hear
  by_cases hw : w.slot = m.slot ∧ w.leaseId = m.leaseId
  · rw [if_pos hw]
    cases hb : m.body with
    | slice holder slice => exact ⟨rfl, .inl rfl⟩
    | ready =>
      split_ifs
      · exact ⟨rfl, .inl rfl⟩
      · exact ⟨rfl, .inr ⟨rfl, by simp [Message.acks, hb], hw.1.symm, hw.2.symm⟩⟩
    | reply r =>
      refine ⟨Worker.handle_ident now r w, ?_⟩
      rcases Worker.handle_lastAck with h | ⟨h, hr⟩
      · exact .inl h
      · exact .inr ⟨h, by simp [Message.acks, hb, hr], hw.1.symm, hw.2.symm⟩
  · rw [if_neg hw]
    exact ⟨rfl, .inl rfl⟩

variable {ws : Roster} {v : Worker}

/-- A worker after an answer arrived: the one its slice starts, or one that was there. -/
lemma mem_receive {m : Message} (h : v ∈ receive now m ws) :
    (∃ holder slice, m.body = .slice holder slice ∧ v.holder = holder ∧ v.slot = slice.slot ∧
      v.leaseId = slice.leaseId ∧ v.lastAck = now) ∨ ∃ w ∈ ws, v.ident = w.ident ∧
      (v.lastAck = w.lastAck ∨
      (v.lastAck = now ∧ m.acks = true ∧ m.slot = w.slot ∧ m.leaseId = w.leaseId)) := by
  have hmap : v ∈ ws.map (hear now m) → ∃ w ∈ ws, v.ident = w.ident ∧ (v.lastAck = w.lastAck ∨
      (v.lastAck = now ∧ m.acks = true ∧ m.slot = w.slot ∧ m.leaseId = w.leaseId)) := by
    intro hv
    obtain ⟨w, hw, rfl⟩ := mem_map.1 hv
    exact ⟨w, hw, hear_cases now m w⟩
  unfold receive at h
  cases hb : m.body with
  | ready | reply r =>
    rw [hb] at h
    exact .inr (hmap h)
  | slice holder slice =>
    rw [hb] at h
    dsimp only at h
    cases hw : Worker.ofSlice now holder slice with
    | error e =>
      rw [hw] at h
      exact .inr ⟨v, (mem_filter.1 h).1, rfl, .inl rfl⟩
    | ok w =>
      rw [hw] at h
      rcases Roster.mem_put h with rfl | ⟨hv, _⟩
      · obtain ⟨_, hid, _, _, hack⟩ := Worker.ofSlice_ok hw
        exact .inl ⟨holder, slice, rfl, congrArg (·.1) hid, congrArg (·.2.1) hid,
          congrArg (·.2.2.1) hid, hack⟩
      · exact .inr ⟨v, hv, rfl, .inl rfl⟩

/-! ### Steps -/

variable {cfg : Settings} {δ : Time} {n : Net}

lemma Fits.later (h : Fits δ n) (hnow : n.clock ≤ now) : Fits δ { n with clock := now } :=
  ⟨h.ledger, fun m hm => (h.past m hm).trans hnow, h.issued, h.heard⟩

/-- Workers that kept their leases and their contact still fit. -/
lemma Fits.of_workers (h : Fits δ n)
    (hws : ∀ v ∈ ws, ∃ w ∈ n.workers, v.ident = w.ident ∧ v.lastAck = w.lastAck) :
    Fits δ { n with workers := ws } := by
  refine ⟨h.ledger, h.past, ?_, ?_⟩
  · intro v hv
    obtain ⟨w, hw, hid, _⟩ := hws v hv
    have hholder : v.holder = w.holder := congrArg (·.1) hid
    have hlid : v.leaseId = w.leaseId := congrArg (·.2.2.1) hid
    rw [hholder, hlid]
    exact h.issued w hw
  · intro v hv
    obtain ⟨w, hw, hid, hack⟩ := hws v hv
    obtain ⟨m, hm, ha, hs, hi, ht⟩ := h.heard w hw
    exact ⟨m, hm, ha, hs.trans (congrArg (·.2.1) hid).symm, hi.trans (congrArg (·.2.2.1) hid).symm,
      hack ▸ ht⟩

lemma Fits.serve (h : Fits δ n) {a : Action} (hclock : n.clock = a.time)
    (hg : Spaced δ (.serve a) n) : Fits δ (n.serve cfg a) := by
  unfold Net.serve
  split_ifs with hk
  · have hmove := step_move cfg a n.sys h.ledger.registry
    refine ⟨?_, ?_, ?_, ?_⟩
    · refine h.ledger.serve hk (fun m hm => hclock ▸ h.past m hm) ?_
      intro holder hint l hac hnone hnext m hm ha hslot
      rw [hac] at hg
      exact hg hnone l hnext m hm ha hslot
    · intro m hm
      rcases mem_append.1 hm with hm | hm
      · exact h.past m hm
      · exact (answers_served hm).trans hclock.symm |>.le
    · exact fun w hw => hmove.issued_mono _ (h.issued w hw)
    · intro w hw
      obtain ⟨m, hm, hrest⟩ := h.heard w hw
      exact ⟨m, mem_append_left _ hm, hrest⟩
  · exact h

lemma Fits.deliver (h : Fits δ n) {m : Message} (hm : m ∈ n.log)
    (hg : now ≤ m.served + δ) : Fits δ { n with workers := receive now m n.workers } := by
  refine ⟨h.ledger, h.past, ?_, ?_⟩
  · intro v hv
    rcases mem_receive hv with ⟨holder, slice, hb, hh, _, hid, _⟩ | ⟨w, hw, hid, _⟩
    · obtain ⟨_, hsi, hissued⟩ := h.ledger.slices m hm holder slice hb
      rw [hh, hid, hsi]
      exact hissued
    · have hholder : v.holder = w.holder := congrArg (·.1) hid
      have hlid : v.leaseId = w.leaseId := congrArg (·.2.2.1) hid
      rw [hholder, hlid]
      exact h.issued w hw
  · intro v hv
    rcases mem_receive hv with ⟨holder, slice, hb, _, hs, hid, hack⟩ | ⟨w, hw, hid, hack⟩
    · obtain ⟨hss, hsi, _⟩ := h.ledger.slices m hm holder slice hb
      refine ⟨m, hm, by simp [Message.acks, hb], ?_, ?_, hack ▸ hg⟩
      · rw [hs, hss]
      · rw [hid, hsi]
    · have hslot : v.slot = w.slot := congrArg (·.2.1) hid
      have hlid : v.leaseId = w.leaseId := congrArg (·.2.2.1) hid
      rw [hslot, hlid]
      rcases hack with hack | ⟨hack, ha, hms, hmi⟩
      · rw [hack]
        exact h.heard w hw
      · exact ⟨m, hm, ha, hms, hmi, hack ▸ hg⟩

theorem Fits.step (h : Fits δ n) {e : NetEvent} (hg : Spaced δ e n) : Fits δ (step cfg e n) := by
  unfold Net.step
  split_ifs with hclock
  · have hlater := h.later hclock
    cases e with
    | serve a => exact hlater.serve rfl hg
    | deliver now i =>
      simp only [act]
      cases hi : n.log[i]? with
      | none => exact hlater
      | some m => exact hlater.deliver (mem_of_getElem? hi) (hg m hi)
    | drain now holder =>
      refine hlater.of_workers fun v hv => ?_
      obtain ⟨w, hw, rfl⟩ := mem_map.1 hv
      refine ⟨w, hw, ?_⟩
      split_ifs <;> exact ⟨rfl, rfl⟩
    | wait now => exact hlater
  · exact h

/-- Of two workers that were given one slot, the earlier one's fence has closed. -/
lemma Fits.fenced (h : Fits δ n) {w : Worker} (hw : w ∈ n.workers) (hv : v ∈ n.workers)
    (hslot : w.slot = v.slot) (hlt : w.leaseId < v.leaseId) : w.shouldPause n.clock = true := by
  obtain ⟨m, hm, ham, hms, hmi, hmt⟩ := h.heard w hw
  obtain ⟨k, hk, hak, hks, hki, _⟩ := h.heard v hv
  have happart := h.ledger.apart m hm k hk ham hak (hms.trans (hslot.trans hks.symm))
    (by rw [hmi, hki]; exact hlt)
  have hpast := h.past k hk
  simp only [Worker.shouldPause, decide_eq_true_eq]
  linarith

end Net

/-- When every answer arrives within `δ` or not at all, and a slot is handed on only `δ` after the
fence of whoever had it before must have closed, no two workers that were given one slot ever have
an open bucket at the same time. -/
theorem one_worker_per_slot {cfg : Settings} {δ now : Time} {spec : Snapshot} {db : Db}
    {es : List NetEvent} {n : Net} (hp : provisionRun now spec = .ok db)
    (h : Runs (Net.step cfg) (Spaced δ) (Net.start now db) es n) :
    ∀ w ∈ n.workers, ∀ v ∈ n.workers, w.slot = v.slot → w.holder ≠ v.holder →
      ¬ (w.isOpen n.clock = true ∧ v.isOpen n.clock = true) := by
  have hfits : n.Fits δ :=
    h.invariant (I := Net.Fits δ) (fun _ _ hg hn => hn.step hg) (Net.start_fits hp)
  rintro w hw v hv hslot hne ⟨hwo, hvo⟩
  have hids : w.leaseId ≠ v.leaseId := fun hid =>
    hne (hfits.ledger.registry.issuedOnce _ (hfits.issued w hw) _ (hfits.issued v hv) hid)
  have hclosed : ∀ u : Worker, u.isOpen n.clock = true → u.shouldPause n.clock = false := by
    intro u hu
    simp only [Worker.isOpen, Bool.and_eq_true, Bool.not_eq_true'] at hu
    exact hu.2
  rcases lt_or_gt_of_ne hids with hlt | hlt
  · exact absurd (hfits.fenced hw hv hslot hlt) (by simp [hclosed w hwo])
  · exact absurd (hfits.fenced hv hw hslot.symm hlt) (by simp [hclosed v hvo])

/-- A released worker whose last heartbeat is served at 40. -/
def untilLastHeartbeat : List NetEvent :=
  [.serve (.launch 1 swarmRun), .serve (.claim 2 "w0" none), .deliver 2 0,
    .serve (.ready 4 0 (some 1)), .deliver 4 1, .serve (.release 5 0),
    .serve (.heartbeat 8 { slot := 0, leaseId := some 1 }), .deliver 8 2,
    .serve (.heartbeat 40 { slot := 0, leaseId := some 1 })]

/-- The lease has lapsed, and another worker claims the slot and is released at once. -/
def takenOver : List NetEvent :=
  [.serve (.tick 0 71 {}), .serve (.claim 72 "w1" none), .deliver 72 4,
    .serve (.ready 73 0 (some 2)), .deliver 73 5]

/-- Answers take no longer than a second, and the takeover leaves the slot to the new worker. -/
theorem one_worker_per_slot_takeover :
    let n := exec (Net.step {}) (Net.start 0 (plainDb 1))
      (untilLastHeartbeat ++ [.deliver 41 3] ++ takenOver)
    n.workers.map (fun w => (w.holder, w.slot, w.isOpen n.clock)) =
      [("w0", 0, false), ("w1", 0, true)] ∧
    ∀ w ∈ n.workers, ∀ v ∈ n.workers, w.slot = v.slot → w.holder ≠ v.holder →
      ¬ (w.isOpen n.clock = true ∧ v.isOpen n.clock = true) := by
  intro n
  exact ⟨by decide +kernel,
    one_worker_per_slot (provisionRun_plain (by decide))
      (Runs.of_check (G := Spaced 1) (by decide +kernel))⟩

/-- The answer to the heartbeat served at 40 arrives at 69. By the server's clock the lease lapses
after 70, by the worker's the fence closes after 99. -/
theorem two_workers_one_slot :
    ¬ ∀ (cfg : Settings) (now : Time) (spec : Snapshot) (db : Db) (es : List NetEvent) (n : Net)
      (w v : Worker), provisionRun now spec = .ok db →
      Runs (Net.step cfg) Always (Net.start now db) es n → w ∈ n.workers → v ∈ n.workers →
      w.slot = v.slot → w.holder ≠ v.holder →
      ¬ (w.isOpen n.clock = true ∧ v.isOpen n.clock = true) := by
  intro h
  let n := exec (Net.step {}) (Net.start 0 (plainDb 1))
    (untilLastHeartbeat ++ [.deliver 69 3] ++ takenOver)
  have hex : ∃ w ∈ n.workers, ∃ v ∈ n.workers, w.slot = v.slot ∧ w.holder ≠ v.holder ∧
      w.isOpen n.clock = true ∧ v.isOpen n.clock = true := by
    decide +kernel
  obtain ⟨w, hw, v, hv, hslot, hne, hopen⟩ := hex
  exact h {} 0 (plainSpec 1) (plainDb 1) _ n w v (provisionRun_plain (by decide))
    (Runs.always _ _) hw hv hslot hne hopen

end Stoker
