import Stoker.Lifecycle.Volume

/-!
# What is delivered is counted once

An observer notes what every slot reports: its latest heartbeat, and its final if one was taken
before the lease was closed. A forced stop folds what every slot that is not done has pending, the
lost ones included, but it closes only the live ones; a lost slot stays pending, and is shown twice.
In a run in which no lost slot has anything pending when it is stopped by force, and none that is
closed reports again, what is shown is what the slots have reported.
-/

open List

namespace Stoker

open Transition

/-! ### What the slots have reported -/

/-- The finals that were taken and the heartbeats that were heard, the latest of a slot first. -/
structure Reports where
  finals : List (ℕ × Totals) := []
  beats : List (ℕ × Counters) := []
  deriving DecidableEq

namespace Reports

def hear (slot : ℕ) (c : Counters) (w : Reports) : Reports :=
  { w with beats := (slot, c) :: w.beats }

def take (slot : ℕ) (summary : Totals) (w : Reports) : Reports :=
  { w with finals := (slot, summary) :: w.finals }

def see (a : Action) (s _s' : Sys) (w : Reports) : Reports :=
  match a with
  | .heartbeat _ hb => if s.db.hears hb = true then w.hear hb.slot hb.counters else w
  | .final _ f => if s.db.takes f = true then w.take f.slot f.summary else w
  | _ => w

def beat (name : String) (w : Reports) (slot : ℕ) : ℚ :=
  (w.beats.lookup slot).elim 0 fun c => c.count name

/-- What a slot has reported: its final, otherwise its latest heartbeat. -/
def value (name : String) (w : Reports) (slot : ℕ) : ℚ :=
  (w.finals.lookup slot).elim (w.beat name slot) fun summary => summary.count name

variable {name : String} {w : Reports} {slot k : ℕ} {c : Counters} {summary : Totals}

lemma see_silent {a : Action} {s s' : Sys} (h : a.reports s.db = false) : w.see a s s' = w := by
  cases a with
  | heartbeat now hb =>
    have hno : s.db.hears hb = false := h
    simp [see, hno]
  | final now f =>
    have hno : s.db.takes f = false := h
    simp [see, hno]
  | _ => rfl

lemma value_of_open (h : w.finals.lookup slot = none) : w.value name slot = w.beat name slot := by
  rw [value, h]
  rfl

@[simp] lemma beat_hear_self : (w.hear slot c).beat name slot = c.count name := by
  simp [beat, hear]

lemma beat_hear_ne (h : k ≠ slot) : (w.hear slot c).beat name k = w.beat name k := by
  simp [beat, hear, lookup_cons, beq_false_of_ne h]

/-- A heartbeat counts for its slot alone, and not once the final is there. -/
lemma value_hear (h : k ≠ slot ∨ (w.finals.lookup k).isSome = true) :
    (w.hear slot c).value name k = w.value name k := by
  unfold value
  change (w.finals.lookup k).elim _ _ = _
  rcases h with h | h
  · rw [beat_hear_ne h]
  · obtain ⟨summary, hf⟩ := Option.isSome_iff_exists.1 h
    rw [hf]
    rfl

@[simp] lemma value_take_self : (w.take slot summary).value name slot = summary.count name := by
  simp [value, take]

lemma finals_take_ne (h : k ≠ slot) :
    (w.take slot summary).finals.lookup k = w.finals.lookup k := by
  simp [take, lookup_cons, beq_false_of_ne h]

lemma value_take_ne (h : k ≠ slot) : (w.take slot summary).value name k = w.value name k := by
  unfold value
  rw [finals_take_ne h]
  rfl

end Reports

/-! ### What the runs are like -/

/-- The fleet is fixed, every heartbeat comes later than the slot's heartbeats before, and the
summary of a final is a dictionary with numbers for counters. -/
def Reporting (a : Action) (s : Sys) : Prop :=
  match a with
  | .heartbeat now hb => s.db.hears hb = true → ∀ m ∈ s.db.samples, m.slot = hb.slot → m.ts < now
  | .final _ f => s.db.takes f = true → f.summary.Plain
  | .scale .. => False
  | _ => True

instance (a : Action) (s : Sys) : Decidable (Reporting a s) :=
  match a with
  | .heartbeat .. => inferInstanceAs (Decidable (_ → ∀ m ∈ _, _ → _))
  | .final .. => inferInstanceAs (Decidable (_ → _))
  | .scale .. => isFalse id
  | .launch .. | .claim .. | .ready .. | .release .. | .stop .. | .pause .. | .resume ..
  | .rescale .. | .tick .. | .reconcile .. => isTrue trivial

/-- When the run is stopped by force, no slot that is lost or free has reported anything; and a slot
that was closed without a final reports nothing more. -/
def Settled (a : Action) (x : Sys × Reports) : Prop :=
  match a with
  | .heartbeat _ hb => x.1.db.hears hb = true →
      (hb.slot, false) ∈ x.1.db.book ∨ (x.2.finals.lookup hb.slot).isSome = true
  | .stop _ force _ => force = true → ∀ l ∈ x.1.db.leases, l.state = .lost ∨ l.state = .free →
      ∀ name ∈ liveNames, reported x.1.db.samples name l.slot = 0
  | _ => True

instance (a : Action) (x : Sys × Reports) : Decidable (Settled a x) :=
  match a with
  | .heartbeat .. => inferInstanceAs (Decidable (_ → _ ∨ _))
  | .stop .. => inferInstanceAs (Decidable (_ → ∀ l ∈ _, _ → ∀ name ∈ liveNames, _))
  | .launch .. | .claim .. | .ready .. | .release .. | .final .. | .pause .. | .resume
      .. | .scale ..
  | .rescale .. | .tick .. | .reconcile .. => isTrue trivial

/-! ### The account -/

def closedEntry (v : ℕ → ℚ) (e : ℕ × Bool) : ℚ := if e.2 = true then v e.1 else 0

lemma sum_closedEntry_close {book : List (ℕ × Bool)} {slot : ℕ} {v v' : ℕ → ℚ}
    (hn : (book.map Prod.fst).Nodup) (ho : (slot, false) ∈ book) (hv : ∀ k, k ≠ slot → v' k = v k) :
    ((book.map (closeEntry slot)).map (closedEntry v')).sum =
      (book.map (closedEntry v)).sum + v' slot := by
  have hsum := sum_closeEntry hn ho (f := closedEntry v') (g := closedEntry v) fun e hslot => by
    rw [closedEntry, closedEntry, hv e.1 hslot]
  simpa [closedEntry] using hsum

/-- The totals are what the closed slots have reported, and the newest sample of a slot is its
latest heartbeat. -/
structure Accounts (db : Db) (w : Reports) : Prop where
  counted : db.run.totals.Counted
  folded : ∀ name ∈ liveNames,
    db.run.totals.count name = (db.book.map (closedEntry (w.value name))).sum
  unfinished : ∀ e ∈ db.book, e.2 = false → w.finals.lookup e.1 = none
  latest : ∀ name slot, w.beat name slot = reported db.samples name slot

namespace Accounts

variable {a : Action} {s s' : Sys} {w : Reports}

lemma shown_eq (h : Accounts s.db w) {name : String} (hname : name ∈ liveNames) :
    s.db.shown name = (s.db.leases.map fun l => w.value name l.slot).sum := by
  unfold Db.shown
  rw [Db.pending_eq, h.folded name hname, ← sum_map_add]
  unfold Db.book
  rw [map_map]
  congr 1
  refine map_congr_left fun l hl => ?_
  by_cases hdone : l.state = .done
  · simp [closedEntry, openEntry, Lease.entry, hdone]
  · have hopen : w.finals.lookup l.slot = none :=
      h.unfinished l.entry (mem_map_of_mem hl) (by simp [Lease.entry, hdone])
    simp [closedEntry, openEntry, Lease.entry, hdone, Reports.value_of_open hopen, h.latest]

variable {now : Time}

lemma step_heard {hb : Heartbeat} (hs : s.registry.Sound)
    (hr : Reporting (.heartbeat now hb) s) (hset : Settled (.heartbeat now hb) (s, w))
    (h : Accounts s.db w) (heard : s.db.hears hb = true)
    (totals : s'.db.run.totals = s.db.run.totals)
    (samples : s'.db.samples = s.db.samples ++ [⟨hb.slot, now, hb.counters⟩])
    (book : s'.db.book = s.db.book) : Accounts s'.db (w.see (.heartbeat now hb) s s') := by
  have hsee : w.see (.heartbeat now hb) s s' = w.hear hb.slot hb.counters := if_pos heard
  rw [hsee]
  refine ⟨totals ▸ h.counted, fun name hname => ?_, book ▸ h.unfinished, fun name slot => ?_⟩
  · rw [totals, book, h.folded name hname]
    congr 1
    refine map_congr_left fun e he => ?_
    unfold closedEntry
    split_ifs with hclosed
    · refine (Reports.value_hear ?_).symm
      rcases hset heard with hopen | hfinal
      · -- the slot of the heartbeat is open, so this is another one
        refine .inl fun heq => ?_
        rw [inj_on_of_nodup_map (book_nodup hs) he hopen heq] at hclosed
        cases hclosed
      · by_cases heq : e.1 = hb.slot
        · exact .inr (heq ▸ hfinal)
        · exact .inl heq
    · rfl
  · rw [samples]
    by_cases hslot : hb.slot = slot
    · subst hslot
      rw [Reports.beat_hear_self]
      exact (reported_append_later (m := ⟨hb.slot, now, hb.counters⟩) name (hr heard)).symm
    · rw [reported_append_ne name hslot, ← h.latest, Reports.beat_hear_ne (Ne.symm hslot)]

lemma step_closed {f : Final} (hs : s.registry.Sound) (hr : Reporting (.final now f) s)
    (h : Accounts s.db w) (taken : s.db.takes f = true)
    (folded : foldTotals s.db.run.totals f.summary = .ok s'.db.run.totals)
    (samples : s'.db.samples = s.db.samples)
    (book : s'.db.book = s.db.book.map (closeEntry f.slot)) :
    Accounts s'.db (w.see (.final now f) s s') := by
  have hsee : w.see (.final now f) s s' = w.take f.slot f.summary := if_pos taken
  have hadds := foldTotals_adds (hr taken) h.counted folded
  rw [hsee]
  refine ⟨hadds.counted, fun name hname => ?_, fun e he hopen => ?_, samples ▸ h.latest⟩
  · rw [hadds.count name hname, h.folded name hname, book, sum_closedEntry_close (book_nodup hs)
      (takes_open taken) fun k hk => Reports.value_take_ne hk, Reports.value_take_self]
  · rw [book] at he
    obtain ⟨e₀, he₀, rfl⟩ := mem_map.1 he
    by_cases hslot : e₀.1 = f.slot
    · simp [closeEntry, hslot] at hopen
    · have hsame : closeEntry f.slot e₀ = e₀ := if_neg hslot
      rw [hsame] at hopen ⊢
      rw [Reports.finals_take_ne hslot]
      exact h.unfinished e₀ he₀ hopen

lemma step_forced {env : Env} (hset : Settled (.stop now true env) (s, w))
    (h : Accounts s.db w) (folded : foldHeartbeatTotals s.db = .ok s'.db.run.totals)
    (samples : s'.db.samples = s.db.samples) (book : s'.db.book =
      s.db.leases.map fun l => (l.slot, l.state.live || decide (l.state = .done))) :
    Accounts s'.db w := by
  obtain ⟨totals, hf, hadds⟩ := foldHeartbeatTotals_adds h.counted
  cases folded.symm.trans hf
  refine ⟨hadds.counted, fun name hname => ?_, fun e he hopen => ?_, samples ▸ h.latest⟩
  · rw [hadds.count name hname, h.folded name hname, Db.pending_eq, ← sum_map_add, book, Db.book,
      map_map, map_map]
    congr 1
    refine map_congr_left fun l hl => ?_
    -- a lease that is done is folded, a live one is folded now, and no other one reported anything
    by_cases hdone : l.state = .done
    · simp [closedEntry, openEntry, Lease.entry, hdone]
    have hopen : w.finals.lookup l.slot = none :=
      h.unfinished l.entry (mem_map_of_mem hl) (by simp [Lease.entry, hdone])
    by_cases hlive : l.state.live = true
    · simp [closedEntry, openEntry, Lease.entry, hdone, hlive, Reports.value_of_open hopen,
        h.latest]
    · have hidle : l.state = .lost ∨ l.state = .free := by
        revert hdone hlive
        cases l.state <;> simp [LeaseState.live]
      simp [closedEntry, openEntry, Lease.entry, hdone, hlive, hset rfl l hl hidle name hname]
  · rw [book] at he
    obtain ⟨l, hl, rfl⟩ := mem_map.1 he
    have hdone : l.state ≠ .done := by
      intro hdone
      simp [hdone] at hopen
    exact h.unfinished l.entry (mem_map_of_mem hl) (by simp [Lease.entry, hdone])

lemma step (hs : s.registry.Sound) (hr : Reporting a s) (hset : Settled a (s, w))
    (hb : Booked a s.db s'.db) (h : Accounts s.db w) : Accounts s'.db (w.see a s s') := by
  cases hb with
  | kept silent hk =>
    rw [Reports.see_silent silent]
    refine ⟨hk.totals ▸ h.counted, fun name hname => ?_, hk.book ▸ h.unfinished,
      hk.samples ▸ h.latest⟩
    rw [hk.totals, hk.book]
    exact h.folded name hname
  | heard action heard totals samples book =>
    subst action
    exact h.step_heard hs hr hset heard totals samples book
  | closed action taken folded samples book =>
    subst action
    exact h.step_closed hs hr taken folded samples book
  | forced action folded samples book =>
    subst action
    exact h.step_forced hset folded samples book
  | resized action _ _ _ =>
    subst action
    exact hr.elim

end Accounts

/-- In a run of a fixed fleet in which nothing is pending of a lost slot at a forced stop, and no
slot reports after it was closed without a final, every counter that is shown is the sum over the
slots of what each of them has reported last. -/
theorem live_totals_counted_once {cfg : Settings} {now₀ : Time} {spec : Snapshot} {db : Db}
    {as : List Action} {s : Sys} {w : Reports} (hp : provisionRun now₀ spec = .ok db)
    (h : Runs (observe (Sys.step cfg) Reports.see) (fun a x => Reporting a x.1 ∧ Settled a x)
      (Sys.start db, {}) as (s, w)) :
    ∃ shown, liveTotals s.db = .ok shown ∧ ∀ name ∈ liveNames,
      shown.count name = (s.db.leases.map fun l => w.value name l.slot).sum := by
  have hstart : Accounts (Sys.start db).db {} := by
    obtain ⟨_, shares, _, rfl⟩ := provisionRun_ok hp
    refine ⟨fun key _ value hv => (by cases hv), fun name _ => ?_, fun _ _ _ => rfl, fun _ _ => rfl⟩
    refine (sum_eq_zero fun x hx => ?_).symm
    obtain ⟨e, he, rfl⟩ := mem_map.1 hx
    obtain ⟨l, hl, rfl⟩ := mem_map.1 he
    obtain ⟨i, hi, rfl⟩ := mem_mapIdx.1 hl
    rfl
  have hacc : Accounts s.db w := by
    refine h.invariant_under (I := fun x => x.1.registry.Sound) (J := fun x => Accounts x.1.db x.2)
      (fun a x _ hs => hs.move (step_move cfg a x.1 hs)) (fun a x hg hs hx => ?_)
        (start_sound hp) hstart
    exact hx.step hs hg.1 hg.2 (Sys.step_booked cfg a hs)
  obtain ⟨shown, hshown, hcount⟩ := liveTotals_shown hacc.counted
  refine ⟨shown, hshown, fun name hname => ?_⟩
  rw [hcount name hname, hacc.shown_eq hname]

/-- One worker is lost and comes back, the other one sends its final twice; the run is stopped by
force, and the final of the first worker comes too late. -/
theorem live_totals_counted_once_pair :
    let x := exec (observe (Sys.step {}) Reports.see) (Sys.start (plainDb 2), {})
      [.launch 1 swarmRun, .claim 2 "w0" none, .claim 3 "w1" none,
        .ready 4 0 (some 2), .ready 5 1 (some 3), .release 6 1,
        .heartbeat 10 { slot := 0, leaseId := some 2, counters := { eventsTotal := some 10 } },
        .heartbeat 65 { slot := 1, leaseId := some 3, counters := { eventsTotal := some 5 } },
        .tick 0 70 {},
        .heartbeat 71 { slot := 0, leaseId := some 2, counters := { eventsTotal := some 12 } },
        .final 72 ⟨1, some 3, [("events_total", .num 7)], []⟩,
        .final 73 ⟨1, some 3, [("events_total", .num 7)], []⟩, .stop 74 true {},
        .final 75 ⟨0, some 2, [("events_total", .num 13)], []⟩]
    ∃ shown, liveTotals x.1.db = .ok shown ∧ ∀ name ∈ liveNames,
      shown.count name = (x.1.db.leases.map fun l => x.2.value name l.slot).sum := by
  intro x
  have h : Runs (observe (Sys.step {}) Reports.see) (fun a x => Reporting a x.1 ∧ Settled a x)
      (Sys.start (plainDb 2), {}) _ (x.1, x.2) := Runs.of_check (by decide +kernel)
  exact live_totals_counted_once (provisionRun_plain (by decide)) h

/-- A worker that is lost when its run is stopped by force is shown twice. -/
theorem live_totals_counted_twice :
    ¬ ∀ (cfg : Settings) (now₀ : Time) (spec : Snapshot) (db : Db) (as : List Action) (s : Sys)
      (w : Reports), provisionRun now₀ spec = .ok db →
      Runs (observe (Sys.step cfg) Reports.see) (fun a x => Reporting a x.1) (Sys.start db, {}) as
        (s, w) →
      ∃ shown, liveTotals s.db = .ok shown ∧ ∀ name ∈ liveNames,
        shown.count name = (s.db.leases.map fun l => w.value name l.slot).sum := by
  intro h
  obtain ⟨shown, hshown, hcount⟩ := h {} 0 (plainSpec 1) (plainDb 1)
    [.launch 1 swarmRun, .claim 2 "w0" none, .ready 3 0 (some 1), .release 4 0,
      .heartbeat 6 { slot := 0, leaseId := some 1, counters := { eventsTotal := some 10 } },
      .tick 0 61 {}, .stop 62 true {}]
    _ _ (provisionRun_plain (by decide)) (Runs.of_check (by decide +kernel))
  have htwice : liveTotals (exec (observe (Sys.step {}) Reports.see) (Sys.start (plainDb 1), {})
      [.launch 1 swarmRun, .claim 2 "w0" none, .ready 3 0 (some 1), .release 4 0,
        .heartbeat 6 { slot := 0, leaseId := some 1, counters := { eventsTotal := some 10 } },
        .tick 0 61 {}, .stop 62 true {}]).1.db = .ok [("events_total", .num 20)] := by
    decide +kernel
  cases htwice.symm.trans hshown
  revert hcount
  decide +kernel

end Stoker
