import Mathlib.Tactic

/-!
# A registry of slots with fencing ids

Slots are numbered from zero. Each has a current id and perhaps a holder; ids are generated in
order, so none is generated twice. The registry also remembers which ids were handed to whom. Its
moves never let one id have two holders, and a holder that was handed a current id still holds it.
-/

open List

namespace Transition

variable {H : Type}

/-- The slots with their current ids and holders, the next fresh id, and the ids handed out. -/
structure Registry (H : Type) where
  rows : List (ℕ × ℕ × Option H)
  nextId : ℕ
  issued : List (H × ℕ)

namespace Registry

/-- A row of a slot that is issued to a holder under a fresh id. -/
def issueRow (slot : ℕ) (id : ℕ) (holder : H) (r : ℕ × ℕ × Option H) :
    ℕ × ℕ × Option H :=
  if r.1 = slot then (slot, id, some holder) else r

/-- The moves: nothing; hand a holder its own id again; issue a slot under a fresh id; add slots;
remove the slots from some number on. -/
inductive Move : Registry H → Registry H → Prop where
  | stay (r : Registry H) : Move r r
  | again {r : Registry H} {slot : ℕ} {id : ℕ} {holder : H}
      (h : (slot, id, some holder) ∈ r.rows) :
      Move r { r with issued := r.issued ++ [(holder, id)] }
  | issue (r : Registry H) (slot : ℕ) (holder : H) :
      Move r { rows := r.rows.map (issueRow slot r.nextId holder)
               nextId := r.nextId + 1
               issued := r.issued ++ [(holder, r.nextId)] }
  | grow (r : Registry H) (k : ℕ) :
      Move r { r with
        rows := r.rows ++ (range k).map fun i => (r.rows.length + i, r.nextId + i, none)
        nextId := r.nextId + k }
  | shrink (r : Registry H) (n : ℕ) : Move r { r with rows := r.rows.filter (·.1 < n) }

/-- The slots are numbered from zero, each with an id of its own; every id in use was generated; and
an id that was handed out has one holder, who still has it if it is current. -/
structure Sound (r : Registry H) : Prop where
  slots : r.rows.map (·.1) = range r.rows.length
  ids : (r.rows.map (·.2.1)).Nodup
  generated : ∀ x ∈ r.rows, x.2.1 < r.nextId
  issuedGenerated : ∀ p ∈ r.issued, p.2 < r.nextId
  issuedOnce : ∀ p ∈ r.issued, ∀ q ∈ r.issued, p.2 = q.2 → p.1 = q.1
  current : ∀ x ∈ r.rows, ∀ p ∈ r.issued, p.2 = x.2.1 → x.2.2 = some p.1

variable {r r' : Registry H}

/-- Ids that were handed out stay so. -/
lemma Move.issued_mono (h : Move r r') : ∀ p ∈ r.issued, p ∈ r'.issued := by
  intro p hp
  cases h with
  | stay => exact hp
  | again | issue => exact mem_append_left _ hp
  | grow | shrink => exact hp

lemma Move.nextId_le (h : Move r r') : r.nextId ≤ r'.nextId := by
  cases h with
  | stay | again => exact le_rfl
  | issue => exact Nat.le_succ _
  | grow => exact Nat.le_add_right _ _
  | shrink => exact le_rfl

/-- A row that was not there before has a fresh id, and a holder only if that id was handed out. -/
lemma Move.rows (h : Move r r') : ∀ x ∈ r'.rows, x ∈ r.rows ∨
    (r.nextId ≤ x.2.1 ∧ (x.2.2 = none ∨ ∃ p ∈ r'.issued, p.2 = x.2.1)) := by
  intro x hx
  cases h with
  | stay | again => exact .inl hx
  | issue slot holder =>
    obtain ⟨y, hy, rfl⟩ := mem_map.1 hx
    unfold issueRow
    split_ifs
    · exact .inr ⟨le_rfl, .inr ⟨_, mem_append_right _ (mem_singleton.2 rfl), rfl⟩⟩
    · exact .inl hy
  | grow k =>
    rcases mem_append.1 hx with hx | hx
    · exact .inl hx
    · obtain ⟨i, _, rfl⟩ := mem_map.1 hx
      exact .inr ⟨Nat.le_add_right _ _, .inl rfl⟩
  | shrink => exact .inl (mem_filter.1 hx).1

lemma issueRow_fst (slot : ℕ) (id : ℕ) (holder : H) (r : ℕ × ℕ × Option H) :
    (issueRow slot id holder r).1 = r.1 := by
  unfold issueRow
  split_ifs with h
  · exact h.symm
  · rfl

lemma nodup_slots (h : Sound r) : (r.rows.map (·.1)).Nodup := by
  rw [h.slots]
  exact nodup_range

variable {slot : ℕ} {holder : H}

lemma mem_issue {x : ℕ × ℕ × Option H} (hx : x ∈ r.rows.map (issueRow slot r.nextId holder)) :
    x = (slot, r.nextId, some holder) ∨ (x ∈ r.rows ∧ x.1 ≠ slot) := by
  obtain ⟨y, hy, rfl⟩ := mem_map.1 hx
  unfold issueRow
  split_ifs with hs
  · exact .inl rfl
  · exact .inr ⟨hy, hs⟩

lemma ids_issue (h : Sound r) (slot : ℕ) (holder : H) :
    ((r.rows.map (issueRow slot r.nextId holder)).map (·.2.1)).Nodup := by
  rw [map_map]
  refine Nodup.map_on ?_ h.ids.of_map
  -- two rows with one id after the issue: both have the issued slot, or neither does
  intro x hx y hy hxy
  have hslot : x.1 = y.1 → x = y := inj_on_of_nodup_map (nodup_slots h) hx hy
  by_cases hxs : x.1 = slot <;> by_cases hys : y.1 = slot
  · exact hslot (hxs.trans hys.symm)
  · simp only [Function.comp_apply, issueRow, if_pos hxs, if_neg hys] at hxy
    exact absurd hxy.symm (h.generated y hy).ne
  · simp only [Function.comp_apply, issueRow, if_neg hxs, if_pos hys] at hxy
    exact absurd hxy (h.generated x hx).ne
  · simp only [Function.comp_apply, issueRow, if_neg hxs, if_neg hys] at hxy
    exact inj_on_of_nodup_map h.ids hx hy hxy

lemma Sound.again (h : Sound r) {id : ℕ} (hm : (slot, id, some holder) ∈ r.rows) :
    Sound { r with issued := r.issued ++ [(holder, id)] } := by
  have hcur : ∀ p ∈ r.issued, p.2 = id → p.1 = holder := by
    intro p hp hpid
    exact (Option.some.inj (h.current _ hm p hp hpid)).symm
  refine ⟨h.slots, h.ids, h.generated, ?_, ?_, ?_⟩
  · intro p hp
    rcases mem_append.1 hp with hp | hp
    · exact h.issuedGenerated p hp
    · rw [mem_singleton.1 hp]
      exact h.generated _ hm
  · intro p hp q hq hpq
    rcases mem_append.1 hp with hp | hp <;> rcases mem_append.1 hq with hq | hq
    · exact h.issuedOnce p hp q hq hpq
    · rw [mem_singleton.1 hq] at hpq ⊢
      exact hcur p hp hpq
    · rw [mem_singleton.1 hp] at hpq ⊢
      exact (hcur q hq hpq.symm).symm
    · rw [mem_singleton.1 hp, mem_singleton.1 hq]
  · intro x hx p hp hpx
    rcases mem_append.1 hp with hp | hp
    · exact h.current x hx p hp hpx
    · rw [mem_singleton.1 hp] at hpx ⊢
      rw [← inj_on_of_nodup_map h.ids hm hx hpx]

lemma Sound.issue (h : Sound r) (slot : ℕ) (holder : H) :
    Sound { rows := r.rows.map (issueRow slot r.nextId holder)
            nextId := r.nextId + 1
            issued := r.issued ++ [(holder, r.nextId)] } := by
  have hold : ∀ p ∈ r.issued, p.2 ≠ r.nextId := fun p hp => (h.issuedGenerated p hp).ne
  refine ⟨?_, ids_issue h slot holder, ?_, ?_, ?_, ?_⟩
  · rw [map_map, length_map, ← h.slots]
    exact map_congr_left fun x _ => issueRow_fst _ _ _ x
  · intro x hx
    rcases mem_issue hx with rfl | ⟨hx, _⟩
    · exact Nat.lt_succ_self _
    · exact (h.generated x hx).trans (Nat.lt_succ_self _)
  · intro p hp
    rcases mem_append.1 hp with hp | hp
    · exact (h.issuedGenerated p hp).trans (Nat.lt_succ_self _)
    · rw [mem_singleton.1 hp]
      exact Nat.lt_succ_self _
  · intro p hp q hq hpq
    rcases mem_append.1 hp with hp | hp <;> rcases mem_append.1 hq with hq | hq
    · exact h.issuedOnce p hp q hq hpq
    · rw [mem_singleton.1 hq] at hpq
      exact absurd hpq (hold p hp)
    · rw [mem_singleton.1 hp] at hpq
      exact absurd hpq.symm (hold q hq)
    · rw [mem_singleton.1 hp, mem_singleton.1 hq]
  · intro x hx p hp hpx
    rcases mem_issue hx with rfl | ⟨hx, _⟩ <;> rcases mem_append.1 hp with hp | hp
    · exact absurd hpx (hold p hp)
    · rw [mem_singleton.1 hp]
    · exact h.current x hx p hp hpx
    · rw [mem_singleton.1 hp] at hpx
      exact absurd hpx.symm (h.generated x hx).ne

lemma Sound.grow (h : Sound r) (k : ℕ) :
    Sound { r with
      rows := r.rows ++ (range k).map fun i => (r.rows.length + i, r.nextId + i, none)
      nextId := r.nextId + k } := by
  have hissued : ∀ p ∈ r.issued, p.2 < r.nextId + k := fun p hp =>
    (h.issuedGenerated p hp).trans_le (Nat.le_add_right _ _)
  refine ⟨?_, ?_, ?_, hissued, h.issuedOnce, ?_⟩
  · simp only [map_append, map_map, length_append, length_map,
      length_range, h.slots, range_add, Function.comp_def]
  · simp only [map_append, map_map, Function.comp_def]
    refine Nodup.append h.ids (nodup_range.map (fun _ _ => Nat.add_left_cancel)) ?_
    intro id hid hid'
    obtain ⟨x, hx, rfl⟩ := mem_map.1 hid
    obtain ⟨i, _, hi⟩ := mem_map.1 hid'
    exact absurd (hi ▸ h.generated x hx) (Nat.not_lt.2 (Nat.le_add_right _ _))
  · intro x hx
    rcases mem_append.1 hx with hx | hx
    · exact (h.generated x hx).trans_le (Nat.le_add_right _ _)
    · obtain ⟨i, hi, rfl⟩ := mem_map.1 hx
      exact Nat.add_lt_add_left (mem_range.1 hi) _
  · intro x hx p hp hpx
    rcases mem_append.1 hx with hx | hx
    · exact h.current x hx p hp hpx
    · obtain ⟨i, _, rfl⟩ := mem_map.1 hx
      exact absurd (hpx ▸ h.issuedGenerated p hp) (Nat.not_lt.2 (Nat.le_add_right _ _))

lemma filter_lt_range (n m : ℕ) : (range m).filter (· < n) = range (min n m) := by
  induction m with
  | zero => simp
  | succ m ih =>
    rw [range_succ, filter_append, ih]
    by_cases h : m < n
    · rw [min_eq_right (by omega : m ≤ n), min_eq_right (by omega : m + 1 ≤ n), range_succ]
      simp [h]
    · rw [min_eq_left (by omega : n ≤ m), min_eq_left (by omega : n ≤ m + 1)]
      simp [h]

lemma Sound.shrink (h : Sound r) (n : ℕ) :
    Sound { r with rows := r.rows.filter (·.1 < n) } := by
  have hsub : r.rows.filter (·.1 < n) ⊆ r.rows := filter_sublist.subset
  refine ⟨?_, ?_, ?_, h.issuedGenerated, h.issuedOnce, ?_⟩
  · have hmap : (r.rows.filter (·.1 < n)).map (·.1) = range (min n r.rows.length) := by
      rw [← filter_lt_range, ← h.slots, filter_map]
      rfl
    have hlen := congrArg length hmap
    rw [length_map, length_range] at hlen
    rw [hmap, hlen]
  · exact h.ids.sublist (Sublist.map _ filter_sublist)
  · exact fun x hx => h.generated x (hsub hx)
  · exact fun x hx => h.current x (hsub hx)

theorem Sound.move (h : Sound r) (hm : Move r r') : Sound r' := by
  cases hm with
  | stay => exact h
  | again hrow => exact h.again hrow
  | issue slot holder => exact h.issue slot holder
  | grow k => exact h.grow k
  | shrink n => exact h.shrink n

end Registry

end Transition
