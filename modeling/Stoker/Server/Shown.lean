import Stoker.Server.Transition

/-!
# The totals that are shown

The totals of a run are a dictionary: a final adds its numbers to it, and what is shown adds the
newest heartbeat of every slot that is not done. A dictionary counts under a key what is stored
there as a number. As long as the counters are stored as numbers, folding a final and showing the
totals succeed, and what each of them adds to a count is told by `Totals.Adds`.
-/

open List

namespace Stoker

/-- The names of the counters that are shown. -/
def liveNames : List String := liveTotalKeys.map Prod.fst

variable {key : String}

@[simp] lemma SummaryValue.number_num (q : ℚ) : (SummaryValue.num q).number = some q := rfl

namespace Totals

/-- What is counted under a key: nothing stored counts as zero. -/
def count (key : String) (totals : Totals) : ℚ :=
  ((totals.get key).bind SummaryValue.number).getD 0

lemma get_cons (key : String) (p : String × SummaryValue) (totals : Totals) :
    Totals.get key (p :: totals) = if key = p.1 then some p.2 else Totals.get key totals := by
  obtain ⟨k, value⟩ := p
  by_cases h : key = k
  · simp [Totals.get, h]
  · simp [Totals.get, lookup_cons, h, beq_false_of_ne h]

lemma get_map_set (k key : String) (value : SummaryValue) (totals : Totals) :
    Totals.get k (totals.map fun p => if p.1 = key then (key, value) else p) =
      if k = key then (Totals.get k totals).map fun _ => value else Totals.get k totals := by
  induction totals with
  | nil => simp [Totals.get]
  | cons p totals ih =>
    rw [map_cons, get_cons, get_cons, ih]
    by_cases hp : p.1 = key
    · by_cases hk : k = key
      · simp [hp, hk]
      · simp [hp, hk]
    · by_cases hk : k = key
      · have hne : key ≠ p.1 := fun h => hp h.symm
        simp [hp, hk, hne]
      · simp [hp, hk]

lemma get_append (key : String) (totals : Totals) (p : String × SummaryValue) :
    Totals.get key (totals ++ [p]) =
      (Totals.get key totals).or (if key = p.1 then some p.2 else none) := by
  induction totals with
  | nil => exact get_cons key p []
  | cons q totals ih =>
    rw [cons_append, get_cons, get_cons, ih]
    split_ifs <;> simp

lemma get_eq_none {totals : Totals} (h : ¬ totals.any (·.1 = key) = true) :
    Totals.get key totals = none := by
  rw [any_eq_true, not_exists] at h
  refine lookup_eq_none_iff.2 fun p hp => ?_
  have hne := h p
  simp only [decide_eq_true_eq, not_and] at hne
  exact bne_iff_ne.2 fun he => hne hp he.symm

lemma get_isSome {totals : Totals} (h : totals.any (·.1 = key) = true) :
    (Totals.get key totals).isSome = true := by
  induction totals with
  | nil => cases h
  | cons p totals ih =>
    rw [get_cons]
    split_ifs with hk
    · rfl
    · rw [any_cons, Bool.or_eq_true, decide_eq_true_eq] at h
      exact ih (h.resolve_left fun he => hk he.symm)

/-- Writing one key leaves the others alone. -/
lemma get_set (k key : String) (value : SummaryValue) (totals : Totals) :
    (Totals.set key value totals).get k = if k = key then some value else totals.get k := by
  unfold Totals.set
  by_cases hany : totals.any (·.1 = key) = true
  · rw [if_pos hany, get_map_set]
    split_ifs with hk
    · obtain ⟨v, hv⟩ := Option.isSome_iff_exists.1 (get_isSome hany)
      rw [hk, hv]
      rfl
    · rfl
  · rw [if_neg hany, get_append]
    split_ifs with hk
    · rw [hk, get_eq_none hany]
      rfl
    · rw [Option.or_none]

lemma count_set (k key : String) (value : SummaryValue) (totals : Totals) :
    (Totals.set key value totals).count k = if k = key then value.number.getD 0
      else totals.count k := by
  unfold count
  rw [get_set]
  split_ifs <;> rfl

/-! ### Adding to a dictionary -/

/-- Every counter is stored as a number. -/
def Counted (totals : Totals) : Prop :=
  ∀ key ∈ liveNames, ∀ value, totals.get key = some value → value.number.isSome = true

/-- The counters go up by `d`, and are still stored as numbers. -/
structure Adds (d : String → ℚ) (totals totals' : Totals) : Prop where
  counted : Counted totals'
  kept : ∀ key, (totals.get key).isSome = true → (totals'.get key).isSome = true
  count : ∀ key ∈ liveNames, totals'.count key = totals.count key + d key

namespace Adds

variable {d d' : String → ℚ} {totals totals' totals'' : Totals}

lemma refl (h : totals.Counted) : Adds 0 totals totals :=
  ⟨h, fun _ hk => hk, fun key _ => by simp⟩

lemma trans (h : Adds d totals totals') (h' : Adds d' totals' totals'') :
    Adds (d + d') totals totals'' := by
  refine ⟨h'.counted, fun key hk => h'.kept key (h.kept key hk), fun key hk => ?_⟩
  rw [h'.count key hk, h.count key hk, Pi.add_apply, add_assoc]

lemma congr (h : Adds d totals totals') (hd : ∀ key ∈ liveNames, d' key = d key) :
    Adds d' totals totals' :=
  ⟨h.counted, h.kept, fun key hk => by rw [h.count key hk, hd key hk]⟩

lemma set {value : SummaryValue} {q : ℚ} (h : totals.Counted)
    (hv : key ∈ liveNames → value.number = some (totals.count key + q)) :
    Adds (Pi.single key q) totals (totals.set key value) := by
  refine ⟨fun k hk v hget => ?_, fun k hk => ?_, fun k hk => ?_⟩
  · rw [get_set] at hget
    split_ifs at hget with he
    · cases hget
      rw [hv (he ▸ hk)]
      rfl
    · exact h k hk v hget
  · rw [get_set]
    split_ifs
    · rfl
    · exact hk
  · rw [count_set]
    split_ifs with he
    · subst he
      rw [hv hk, Pi.single_eq_same, Option.getD_some]
    · rw [Pi.single_eq_of_ne he, add_zero]

end Adds

end Totals

/-! ### Folding a final -/

variable {totals totals' : Totals} {db : Db}

lemma foldTotal_adds {q : ℚ} (h : totals.Counted)
    (hf : foldTotal totals key (.num q) = .ok totals') :
    Totals.Adds (Pi.single key q) totals totals' := by
  unfold foldTotal at hf
  cases hget : totals.get key with
  | none =>
    rw [hget] at hf
    cases hf
    refine Totals.Adds.set h fun _ => ?_
    simp [Totals.count, hget]
  | some old =>
    rw [hget] at hf
    dsimp only at hf
    cases hnum : old.number with
    | none =>
      rw [hnum] at hf
      cases hf
    | some p =>
      rw [hnum] at hf
      cases hf
      refine Totals.Adds.set h fun _ => ?_
      simp [Totals.count, hget, hnum]

/-- A number is always added to a counter. -/
lemma foldTotal_ok (h : totals.Counted) (hkey : key ∈ liveNames) (q : ℚ) :
    ∃ totals', foldTotal totals key (.num q) = .ok totals' := by
  unfold foldTotal
  cases hget : totals.get key with
  | none => exact ⟨_, rfl⟩
  | some old =>
    obtain ⟨p, hp⟩ := Option.isSome_iff_exists.1 (h key hkey old hget)
    dsimp only
    rw [hp]
    exact ⟨_, rfl⟩

def SummaryValue.plain : SummaryValue → Bool
  | .num _ => true
  | .bool _ | .other _ => false

/-- No key comes twice, and the counters are numbers. -/
def Totals.Plain (summary : Totals) : Prop :=
  (summary.map Prod.fst).Nodup ∧ ∀ p ∈ summary, p.1 ∈ liveNames → p.2.plain = true

instance (summary : Totals) : Decidable summary.Plain := inferInstanceAs (Decidable (_ ∧ _))

lemma foldTotals_adds {summary : Totals} (hs : summary.Plain) (h : totals.Counted)
    (hf : foldTotals totals summary = .ok totals') :
    Totals.Adds (fun key => summary.count key) totals totals' := by
  induction summary generalizing totals with
  | nil =>
    cases hf
    exact (Totals.Adds.refl h).congr fun key _ => rfl
  | cons p summary ih =>
    obtain ⟨key, value⟩ := p
    obtain ⟨hn, hplain⟩ := hs
    rw [map_cons, nodup_cons] at hn
    have hrest : Totals.Plain summary := ⟨hn.2, fun p hp => hplain p (mem_cons_of_mem _ hp)⟩
    unfold foldTotals at hf
    cases hfold : foldTotal totals key value with
    | error e =>
      rw [hfold] at hf
      cases hf
    | ok folded =>
      rw [hfold] at hf
      have hadd : Totals.Adds (Pi.single key (value.number.getD 0)) totals folded := by
        cases value with
        | num q => exact foldTotal_adds h hfold
        | bool b | other t =>
          cases hfold
          exact Totals.Adds.set h fun hk => by cases hplain _ mem_cons_self hk
      refine (hadd.trans (ih hrest hadd.counted hf)).congr fun k _ => ?_
      -- the key of the head comes nowhere else
      have hnone : Totals.count key summary = 0 := by
        have hget : Totals.get key summary = none := by
          refine Totals.get_eq_none fun hany => hn.1 ?_
          obtain ⟨p, hp, he⟩ := any_eq_true.1 hany
          exact mem_map.2 ⟨p, hp, by simpa using he⟩
        simp [Totals.count, hget]
      by_cases hk : k = key
      · subst hk
        rw [Pi.add_apply, Pi.single_eq_same, hnone, add_zero]
        simp [Totals.count, Totals.get_cons]
      · rw [Pi.add_apply, Pi.single_eq_of_ne hk, zero_add]
        simp [Totals.count, Totals.get_cons, hk]

/-! ### Adding the newest heartbeats -/

/-- What a heartbeat reports of a counter. -/
def Counters.count (name : String) (c : Counters) : ℚ :=
  (((liveTotalKeys.lookup name).bind fun read => read c).getD 0 : ℤ)

lemma addCounter_adds {name : String} (h : totals.Counted) (hname : name ∈ liveNames)
    (value : Option ℤ) : ∃ totals', addCounter totals name value = .ok totals' ∧
      Totals.Adds (Pi.single name ((value.getD 0 : ℤ) : ℚ)) totals totals' := by
  cases value with
  | none => exact ⟨totals, rfl, (Totals.Adds.refl h).congr fun key _ => by simp⟩
  | some n =>
    obtain ⟨totals', hf⟩ := foldTotal_ok h hname n
    exact ⟨totals', hf, foldTotal_adds h hf⟩

lemma addCounters_adds {keys : List (String × (Counters → Option ℤ))} (c : Counters)
    (hn : (keys.map Prod.fst).Nodup) (hk : ∀ key ∈ keys, key.1 ∈ liveNames) (h : totals.Counted) :
    ∃ totals', keys.foldlM (fun t key => addCounter t key.1 (key.2 c)) totals = .ok totals' ∧
      Totals.Adds (fun name => (((keys.lookup name).bind fun read => read c).getD 0 : ℤ))
        totals totals' := by
  induction keys generalizing totals with
  | nil => exact ⟨totals, rfl, (Totals.Adds.refl h).congr fun key _ => by simp⟩
  | cons key keys ih =>
    obtain ⟨name, read⟩ := key
    rw [map_cons, nodup_cons] at hn
    obtain ⟨added, hadd, hfirst⟩ := addCounter_adds h (hk _ mem_cons_self) (read c)
    obtain ⟨totals', hrest, hadds⟩ :=
      ih hn.2 (fun key hkey => hk key (mem_cons_of_mem _ hkey)) hfirst.counted
    refine ⟨totals', ?_, (hfirst.trans hadds).congr fun k _ => ?_⟩
    · rw [foldlM_cons]
      simp only [hadd]
      exact hrest
    · have hnone : keys.lookup name = none := by
        refine lookup_eq_none_iff.2 fun p hp => bne_iff_ne.2 fun he => hn.1 ?_
        exact mem_map.2 ⟨p, hp, he.symm⟩
      by_cases he : k = name
      · subst he
        simp [hnone]
      · simp [lookup_cons, beq_false_of_ne he, Pi.single_eq_of_ne he]

lemma addSample_adds (sample : MetricSample) (h : totals.Counted) :
    ∃ totals', addSample totals sample = .ok totals' ∧
      Totals.Adds (fun name => sample.counters.count name) totals totals' :=
  addCounters_adds sample.counters (by decide) (fun _ hkey => mem_map_of_mem hkey) h

/-- What the newest heartbeat of a slot reports of a counter. -/
def reported (samples : List MetricSample) (name : String) (slot : ℕ) : ℚ :=
  (newestSample slot samples).elim 0 fun sample => sample.counters.count name

/-- What is shown of the slots that are not done. -/
def Db.pending (name : String) (db : Db) : ℚ :=
  ((db.leases.filter (·.state ≠ .done)).map fun l => reported db.samples name l.slot).sum

lemma liveTotals_adds (h : db.run.totals.Counted) :
    ∃ shown, liveTotals db = .ok shown ∧
      Totals.Adds (fun name => db.pending name) db.run.totals shown := by
  unfold liveTotals Db.pending
  generalize db.run.totals = totals at h
  generalize db.leases.filter (·.state ≠ .done) = ls
  induction ls generalizing totals with
  | nil => exact ⟨totals, rfl, (Totals.Adds.refl h).congr fun key _ => by simp⟩
  | cons l ls ih =>
    rw [foldlM_cons]
    cases hnew : newestSample l.slot db.samples with
    | none =>
      obtain ⟨shown, hshown, hrest⟩ := ih totals h
      refine ⟨shown, hshown, hrest.congr fun name _ => ?_⟩
      simp [reported, hnew]
    | some sample =>
      obtain ⟨added, hadd, hadds⟩ := addSample_adds sample h
      obtain ⟨shown, hshown, hrest⟩ := ih added hadds.counted
      refine ⟨shown, ?_, (hadds.trans hrest).congr fun name _ => ?_⟩
      · dsimp only
        rw [hadd]
        exact hshown
      · simp [reported, hnew]

/-! ### Folding the newest heartbeats -/

def copyCounter (shown totals : Totals) (name : String) : Totals :=
  match shown.get name with
  | none => totals
  | some v => totals.set name v

lemma copyCounter_get (shown totals : Totals) (name k : String) :
    (copyCounter shown totals name).get k =
      if k = name then (shown.get k).or (totals.get k) else totals.get k := by
  unfold copyCounter
  split
  · rename_i hnone
    split_ifs with hk
    · rw [hk, hnone, Option.none_or]
    · rfl
  · rename_i v hsome
    rw [Totals.get_set]
    split_ifs with hk
    · rw [hk, hsome, Option.some_or]
    · rfl

lemma copyCounters_get (shown : Totals) (keys : List (String × (Counters → Option ℤ)))
    (totals : Totals) (k : String) :
    (keys.foldl (fun totals key => copyCounter shown totals key.1) totals).get k =
      if k ∈ keys.map Prod.fst then (shown.get k).or (totals.get k) else totals.get k := by
  induction keys generalizing totals with
  | nil => simp
  | cons key keys ih =>
    rw [foldl_cons, ih, copyCounter_get, map_cons]
    by_cases hk : k = key.1
    · cases shown.get k <;> simp [hk]
    · simp only [mem_cons, hk, if_false, false_or]

lemma foldHeartbeatTotals_adds (h : db.run.totals.Counted) :
    ∃ totals, foldHeartbeatTotals db = .ok totals ∧
      Totals.Adds (fun name => db.pending name) db.run.totals totals := by
  obtain ⟨shown, hshown, hadds⟩ := liveTotals_adds h
  have hget : ∀ k, (liveTotalKeys.foldl (fun totals key => copyCounter shown totals key.1)
      db.run.totals).get k = if k ∈ liveNames then (shown.get k).or (db.run.totals.get k)
        else db.run.totals.get k := copyCounters_get shown liveTotalKeys db.run.totals
  -- a counter that is not shown was not in the totals either
  have hsame :
      ∀ k ∈ liveNames, (liveTotalKeys.foldl (fun totals key => copyCounter shown totals key.1)
      db.run.totals).get k = shown.get k := by
    intro k hk
    rw [hget, if_pos hk]
    cases hs : shown.get k with
    | some v => rfl
    | none =>
      cases ht : db.run.totals.get k with
      | none => rfl
      | some v =>
        have := hadds.kept k (by rw [ht]; rfl)
        rw [hs] at this
        cases this
  refine ⟨liveTotalKeys.foldl (fun totals key => copyCounter shown totals key.1) db.run.totals, ?_,
    ?_⟩
  · unfold foldHeartbeatTotals
    rw [hshown]
    rfl
  · refine ⟨fun k hk v hv => hadds.counted k hk v ((hsame k hk).symm.trans hv), fun k hk => ?_,
      fun k hk => ?_⟩
    · rw [hget]
      split_ifs
      · rw [Option.isSome_or, hk, Bool.or_true]
      · exact hk
    · rw [← hadds.count k hk]
      unfold Totals.count
      rw [hsame k hk]

/-! ### The newest heartbeat -/

lemma newestSample_append_ne {slot : ℕ} {samples : List MetricSample} {m : MetricSample}
    (h : m.slot ≠ slot) : newestSample slot (samples ++ [m]) = newestSample slot samples := by
  simp [newestSample, filter_append, h]

lemma newestSample_append (samples : List MetricSample) (m : MetricSample) :
    newestSample m.slot (samples ++ [m]) = some m ∨ ∃ b, newestSample m.slot samples = some b ∧
      m.ts ≤ b.ts ∧ newestSample m.slot (samples ++ [m]) = some b := by
  unfold newestSample
  rw [filter_append, foldl_append]
  simp only [filter_cons, decide_true, if_true, filter_nil, foldl_cons, foldl_nil]
  split
  · exact .inl rfl
  · rename_i b hb
    split_ifs with ht
    · exact .inl rfl
    · exact .inr ⟨b, hb, not_lt.1 ht, rfl⟩

lemma newestSample_mem {slot : ℕ} {samples : List MetricSample} {b : MetricSample}
    (h : newestSample slot samples = some b) : b ∈ samples ∧ b.slot = slot := by
  induction samples using reverseRecOn with
  | nil => cases h
  | append_singleton samples m ih =>
    by_cases hm : m.slot = slot
    · subst hm
      rcases newestSample_append samples m with hnew | ⟨c, hold, _, hnew⟩
      · rw [hnew] at h
        cases h
        exact ⟨by simp, rfl⟩
      · rw [hnew] at h
        cases h
        obtain ⟨hmem, hslot⟩ := ih hold
        exact ⟨mem_append_left _ hmem, hslot⟩
    · rw [newestSample_append_ne hm] at h
      obtain ⟨hmem, hslot⟩ := ih h
      exact ⟨mem_append_left _ hmem, hslot⟩

section

variable {samples : List MetricSample} {m : MetricSample} {slot : ℕ}

lemma reported_append_ne (name : String) (h : m.slot ≠ slot) :
    reported (samples ++ [m]) name slot = reported samples name slot := by
  unfold reported
  rw [newestSample_append_ne h]

/-- A slot reports what its heartbeat says, if that comes later than those before. -/
lemma reported_append_later (name : String) (h : ∀ x ∈ samples, x.slot = m.slot → x.ts < m.ts) :
    reported (samples ++ [m]) name m.slot = m.counters.count name := by
  unfold reported
  rcases newestSample_append samples m with hnew | ⟨b, hold, hle, _⟩
  · rw [hnew]
    rfl
  · obtain ⟨hmem, hslot⟩ := newestSample_mem hold
    exact absurd (h b hmem hslot) (not_lt.2 hle)

lemma reported_append (samples : List MetricSample) (m : MetricSample) (name : String) :
    reported (samples ++ [m]) name m.slot = m.counters.count name ∨
      reported (samples ++ [m]) name m.slot = reported samples name m.slot := by
  unfold reported
  rcases newestSample_append samples m with hnew | ⟨b, hold, _, hnew⟩
  · rw [hnew]
    exact .inl rfl
  · rw [hnew, hold]
    exact .inr rfl

end

end Stoker
