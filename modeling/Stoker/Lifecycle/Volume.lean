import Stoker.Lifecycle.Books

/-!
# The volume that is shown

What is shown of a counter is what is folded plus what is pending. A scale-down deletes rows, and
what they had pending is not shown any more, so the volume may go backwards. In a run in which only
rows without volume are deleted, and the counters of a slot do not decrease, the volume that is
shown does not decrease either.
-/

open List

namespace Stoker

open Transition

/-! ### Sums over the books -/

section

variable {ι : Type} [DecidableEq ι] {l : List ι} {f g : ι → ℚ}

lemma sum_map_differ {a : ι} (hn : l.Nodup) (ha : a ∈ l) (h : ∀ e ∈ l, e ≠ a → f e = g e) :
    (l.map f).sum + g a = (l.map g).sum + f a := by
  have hrest : (l.erase a).map f = (l.erase a).map g := by
    refine map_congr_left fun e he => ?_
    obtain ⟨hne, hmem⟩ := (hn.mem_erase_iff).1 he
    exact h e hmem hne
  rw [← sum_map_erase f ha, ← sum_map_erase g ha, hrest]
  ring

omit [DecidableEq ι] in
lemma sum_map_filter {p : ι → Bool} (h : ∀ e ∈ l, p e = false → f e = 0) :
    ((l.filter p).map f).sum = (l.map f).sum := by
  induction l with
  | nil => rfl
  | cons e l ih =>
    have hrest := ih fun e he => h e (mem_cons_of_mem _ he)
    cases hp : p e with
    | true => rw [filter_cons_of_pos hp, map_cons, map_cons, sum_cons,
        sum_cons, hrest]
    | false =>
      rw [filter_cons_of_neg (by simp [hp]), map_cons, sum_cons, hrest,
        h e mem_cons_self hp, zero_add]

end

variable {book : List (ℕ × Bool)} {db : Db} {slot : ℕ}

lemma sum_closeEntry {f g : ℕ × Bool → ℚ} (hn : (book.map Prod.fst).Nodup)
    (ho : (slot, false) ∈ book) (h : ∀ e, e.1 ≠ slot → f e = g e) :
    ((book.map (closeEntry slot)).map f).sum + g (slot, false) = (book.map g).sum + f
      (slot, true) := by
  have hclosed : (f ∘ closeEntry slot) (slot, false) = f (slot, true) := by simp [closeEntry]
  rw [map_map, ← hclosed]
  refine sum_map_differ hn.of_map ho fun e he hne => ?_
  have hslot : e.1 ≠ slot := fun hslot => hne (inj_on_of_nodup_map hn he ho hslot)
  rw [Function.comp_apply, closeEntry, if_neg hslot]
  exact h e hslot

def openEntry (r : ℕ → ℚ) (e : ℕ × Bool) : ℚ := if e.2 = true then 0 else r e.1

lemma sum_openEntry_close (hn : (book.map Prod.fst).Nodup) (ho : (slot, false) ∈ book) (r : ℕ → ℚ) :
    (book.map (openEntry r)).sum = ((book.map (closeEntry slot)).map (openEntry r)).sum +
      r slot := by
  have hsum := sum_closeEntry hn ho (f := openEntry r) (g := openEntry r) fun _ _ => rfl
  simpa [openEntry] using hsum.symm

lemma Db.pending_eq (name : String) (db : Db) :
    db.pending name = (db.book.map (openEntry (reported db.samples name))).sum := by
  unfold Db.pending Db.book
  rw [map_map]
  have hsum : ((db.leases.filter (·.state ≠ .done)).map
      (openEntry (reported db.samples name) ∘ Lease.entry)).sum =
      (db.leases.map (openEntry (reported db.samples name) ∘ Lease.entry)).sum := by
    refine sum_map_filter fun l _ hl => ?_
    have hdone : l.state = .done := by simpa using hl
    simp [openEntry, Lease.entry, hdone]
  rw [← hsum]
  congr 1
  refine map_congr_left fun l hl => ?_
  have hdone : l.state ≠ .done := by simpa using (mem_filter.1 hl).2
  simp [openEntry, Lease.entry, hdone]

def Db.shown (name : String) (db : Db) : ℚ := db.run.totals.count name + db.pending name

lemma liveTotals_shown (h : db.run.totals.Counted) :
    ∃ shown, liveTotals db = .ok shown ∧ ∀ name ∈ liveNames, shown.count name = db.shown name := by
  obtain ⟨shown, hshown, hadds⟩ := liveTotals_adds h
  exact ⟨shown, hshown, hadds.count⟩

lemma book_nodup {s : Sys} (hs : s.registry.Sound) : (s.db.book.map Prod.fst).Nodup := by
  unfold Db.book
  rw [map_map]
  exact Sys.nodup_slots hs

lemma takes_open {f : Final} (h : db.takes f = true) : (f.slot, false) ∈ db.book := by
  unfold Db.takes at h
  rw [Bool.and_eq_true] at h
  cases hl : db.findLease f.slot with
  | none =>
    rw [hl] at h
    cases h.1
  | some l =>
    rw [hl] at h
    obtain ⟨hmem, hslot⟩ := findLease_some hl
    have hdone : l.state ≠ .done := by
      have := h.1
      simp only [Option.any_some, Bool.and_eq_true, decide_eq_true_eq] at this
      exact this.1
    exact mem_map.2 ⟨l, hmem, by simp [Lease.entry, hslot, hdone]⟩

/-! ### The volume does not decrease -/

/-- The counters of a run's volume. -/
def volumeNames : List String := ["events_total", "bytes_total"]

lemma mem_liveNames_of_volume : ∀ name ∈ volumeNames, name ∈ liveNames := by decide

/-- What a slot reports does not decrease from one heartbeat to the next and to the final. -/
def Cumulative (a : Action) (s : Sys) : Prop :=
  match a with
  | .heartbeat _ hb => s.db.hears hb = true →
      ∀ name ∈ volumeNames, reported s.db.samples name hb.slot ≤ hb.counters.count name
  | .final _ f => s.db.takes f = true → f.summary.Plain ∧
      ∀ name ∈ volumeNames, reported s.db.samples name f.slot ≤ f.summary.count name
  | _ => True

instance (a : Action) (s : Sys) : Decidable (Cumulative a s) :=
  match a with
  | .heartbeat .. => inferInstanceAs (Decidable (_ → ∀ name ∈ volumeNames, _))
  | .final .. => inferInstanceAs (Decidable (_ → _ ∧ ∀ name ∈ volumeNames, _))
  | .launch .. | .claim .. | .ready .. | .release .. | .stop .. | .pause .. | .resume .. | .scale ..
  | .rescale .. | .tick .. | .reconcile .. => isTrue trivial

/-- A scale deletes no row that has volume pending. -/
def SparesVolume (a : Action) (s : Sys) : Prop :=
  match a with
  | .scale _ workers _ => ∀ l ∈ s.db.leases, workers ≤ l.slot →
      l.state = .done ∨ ∀ name ∈ volumeNames, reported s.db.samples name l.slot = 0
  | _ => True

instance (a : Action) (s : Sys) : Decidable (SparesVolume a s) :=
  match a with
  | .scale .. => inferInstanceAs (Decidable (∀ l ∈ _, _ → _ ∨ ∀ name ∈ volumeNames, _))
  | .launch .. | .claim .. | .ready .. | .release .. | .heartbeat .. | .final .. | .stop ..
  | .pause .. | .resume .. | .rescale .. | .tick .. | .reconcile .. => isTrue trivial

/-- The totals are numbers, and no slot reports a negative volume. -/
structure Tallied (db : Db) : Prop where
  counted : db.run.totals.Counted
  nonneg : ∀ name ∈ volumeNames, ∀ slot, 0 ≤ reported db.samples name slot

namespace Tallied

variable {a : Action} {s : Sys} {db' : Db}

lemma step (hg : Cumulative a s) (hb : Booked a s.db db') (h : Tallied s.db) : Tallied db' := by
  cases hb with
  | kept _ hk => exact ⟨hk.totals ▸ h.counted, hk.samples ▸ h.nonneg⟩
  | @heard now hb action heard totals samples _ =>
    subst action
    refine ⟨totals ▸ h.counted, fun name hname slot => ?_⟩
    rw [samples]
    by_cases hslot : hb.slot = slot
    · subst hslot
      have hrise := hg heard name hname
      rcases reported_append s.db.samples ⟨hb.slot, now, hb.counters⟩ name with hr | hr
      · rw [hr]
        exact (h.nonneg name hname _).trans hrise
      · rw [hr]
        exact h.nonneg name hname _
    · rw [reported_append_ne name hslot]
      exact h.nonneg name hname slot
  | closed action taken folded samples _ =>
    subst action
    exact ⟨(foldTotals_adds (hg taken).1 h.counted folded).counted, samples ▸ h.nonneg⟩
  | forced action folded samples _ =>
    obtain ⟨totals, hf, hadds⟩ := foldHeartbeatTotals_adds h.counted
    cases folded.symm.trans hf
    exact ⟨hadds.counted, samples ▸ h.nonneg⟩
  | resized _ totals samples _ => exact ⟨totals ▸ h.counted, samples ▸ h.nonneg⟩

variable {name : String}

lemma openEntry_nonneg (h : Tallied s.db) (hname : name ∈ volumeNames) (e : ℕ × Bool) :
    0 ≤ openEntry (reported s.db.samples name) e := by
  unfold openEntry
  split_ifs
  · exact le_rfl
  · exact h.nonneg name hname e.1

lemma shown_le (hs : s.registry.Sound) (hg : Cumulative a s) (hv : SparesVolume a s)
    (hb : Booked a s.db db') (h : Tallied s.db) (hname : name ∈ volumeNames) :
    s.db.shown name ≤ db'.shown name := by
  have hlive := mem_liveNames_of_volume name hname
  unfold Db.shown
  rw [Db.pending_eq, Db.pending_eq]
  cases hb with
  | kept _ hk => rw [hk.totals, hk.samples, hk.book]
  | @heard now hb action heard totals samples book =>
    subst action
    rw [totals, samples, book]
    refine add_le_add le_rfl (sum_le_sum fun e _ => ?_)
    unfold openEntry
    split_ifs
    · exact le_rfl
    · by_cases hslot : hb.slot = e.1
      · have hrise := hg heard name hname
        rw [← hslot]
        rcases reported_append s.db.samples ⟨hb.slot, now, hb.counters⟩ name with hr | hr
        · rw [hr]
          exact hrise
        · rw [hr]
      · rw [reported_append_ne name hslot]
  | @closed now f action taken folded samples book =>
    subst action
    obtain ⟨hplain, hrise⟩ := hg taken
    rw [(foldTotals_adds hplain h.counted folded).count name hlive, samples, book,
      sum_openEntry_close (book_nodup hs) (takes_open taken)]
    have := hrise name hname
    linarith
  | forced action folded samples book =>
    obtain ⟨totals, hf, hadds⟩ := foldHeartbeatTotals_adds h.counted
    cases folded.symm.trans hf
    rw [hadds.count name hlive, samples, ← Db.pending_eq]
    refine le_add_of_nonneg_right (sum_nonneg fun x hx => ?_)
    obtain ⟨e, _, rfl⟩ := mem_map.1 hx
    exact h.openEntry_nonneg hname e
  | @resized now workers env action totals samples book =>
    subst action
    rw [totals, samples, book]
    refine add_le_add le_rfl ?_
    unfold resizeBook
    split_ifs
    · rw [map_append, sum_append]
      refine le_add_of_nonneg_right (sum_nonneg fun x hx => ?_)
      obtain ⟨e, _, rfl⟩ := mem_map.1 hx
      exact h.openEntry_nonneg hname e
    · refine (sum_map_filter fun e he hout => ?_).ge
      obtain ⟨l, hl, rfl⟩ := mem_map.1 he
      have hslot : workers ≤ l.slot := not_lt.1 (of_decide_eq_false hout)
      rcases hv l hl hslot with hdone | hzero
      · simp [openEntry, Lease.entry, hdone]
      · simp [openEntry, Lease.entry, hzero name hname]

end Tallied

/-- In a run whose slots report ever more and in which no row with volume pending is deleted, the
volume that is shown does not go down from one state to the next. -/
theorem shown_volume_rises {cfg : Settings} {now₀ : Time} {spec : Snapshot} {as : List Action}
    {s : Sys} (hp : provisionRun now₀ spec = .ok db)
    (h : Runs (Sys.step cfg) (fun a s => Cumulative a s ∧ SparesVolume a s) (Sys.start db) as s)
    {a : Action} (hg : Cumulative a s ∧ SparesVolume a s) :
    ∃ shown shown', liveTotals s.db = .ok shown ∧ liveTotals (Sys.step cfg a s).db = .ok shown' ∧
      ∀ name ∈ volumeNames, shown.count name ≤ shown'.count name := by
  have hstart : Tallied (Sys.start db).db := by
    obtain ⟨_, shares, _, rfl⟩ := provisionRun_ok hp
    exact ⟨fun key _ value hv => (by cases hv), fun name _ slot => le_rfl⟩
  have hboth : s.registry.Sound ∧ Tallied s.db := by
    refine h.invariant (I := fun s => s.registry.Sound ∧ Tallied s.db) (fun a s hg hs => ?_)
      ⟨start_sound hp, hstart⟩
    exact ⟨hs.1.move (step_move cfg a s hs.1), hs.2.step hg.1 (Sys.step_booked cfg a hs.1)⟩
  obtain ⟨hs, ht⟩ := hboth
  have hb := Sys.step_booked cfg a hs
  obtain ⟨shown, hshown, hcount⟩ := liveTotals_shown ht.counted
  obtain ⟨shown', hshown', hcount'⟩ := liveTotals_shown (ht.step hg.1 hb).counted
  refine ⟨shown, shown', hshown, hshown', fun name hname => ?_⟩
  have hlive := mem_liveNames_of_volume name hname
  rw [hcount name hlive, hcount' name hlive]
  exact ht.shown_le hs hg.1 hg.2 hb hname

/-- Two workers, of which one has sent something when the fleet is scaled down to it. -/
theorem shown_volume_rises_spared :
    ∃ shown shown',
      liveTotals (exec (Sys.step {}) (Sys.start (plainDb 2))
        [.launch 1 swarmRun, .claim 2 "w0" none, .claim 3 "w1" none,
          .heartbeat 4
            { slot := 0, leaseId := some 2, counters := { eventsTotal := some 10 } }]).db =
        .ok shown ∧
      liveTotals (Sys.step {} (.scale 5 1 {}) (exec (Sys.step {}) (Sys.start (plainDb 2))
        [.launch 1 swarmRun, .claim 2 "w0" none, .claim 3 "w1" none,
          .heartbeat 4
            { slot := 0, leaseId := some 2, counters := { eventsTotal := some 10 } }])).db =
        .ok shown' ∧
      ∀ name ∈ volumeNames, shown.count name ≤ shown'.count name :=
  shown_volume_rises (provisionRun_plain (by decide)) (Runs.of_check (by decide +kernel))
    (by decide +kernel)

/-- The worker that has sent something is scaled away, and what it sent is not shown any more. -/
theorem shown_volume_drops :
    ¬ ∀ (cfg : Settings) (now₀ : Time) (spec : Snapshot) (db : Db) (as : List Action) (s : Sys)
      (a : Action), provisionRun now₀ spec = .ok db →
      Runs (Sys.step cfg) Cumulative (Sys.start db) as s → Cumulative a s →
      ∃ shown shown', liveTotals s.db = .ok shown ∧ liveTotals (Sys.step cfg a s).db = .ok shown' ∧
        ∀ name ∈ volumeNames, shown.count name ≤ shown'.count name := by
  intro h
  obtain ⟨shown, shown', hshown, hshown', hle⟩ := h {} 0 (plainSpec 2) (plainDb 2)
    [.launch 1 swarmRun, .claim 2 "w0" none, .claim 3 "w1" none,
      .heartbeat 4 { slot := 1, leaseId := some 3, counters := { eventsTotal := some 10 } }]
    _ (.scale 5 1 {}) (provisionRun_plain (by decide)) (Runs.of_check (by decide +kernel))
    (by decide +kernel)
  have hbefore : liveTotals (exec (Sys.step {}) (Sys.start (plainDb 2))
      [.launch 1 swarmRun, .claim 2 "w0" none, .claim 3 "w1" none,
        .heartbeat 4 { slot := 1, leaseId := some 3, counters := { eventsTotal := some 10 } }]).db =
      .ok [("events_total", .num 10)] := by decide +kernel
  have hafter : liveTotals (Sys.step {} (.scale 5 1 {}) (exec (Sys.step {}) (Sys.start (plainDb 2))
      [.launch 1 swarmRun, .claim 2 "w0" none, .claim 3 "w1" none,
        .heartbeat 4
          { slot := 1, leaseId := some 3, counters := { eventsTotal := some 10 } }])).db =
      .ok [] := by decide +kernel
  cases hbefore.symm.trans hshown
  cases hafter.symm.trans hshown'
  revert hle
  decide +kernel

end Stoker
