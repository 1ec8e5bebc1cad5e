import Mathlib.Tactic
import Mathlib.Data.List.Sort

/-!
# Rows with a rank and a key

Rows of a table are ordered by a rank, several of which may be equal, and fall into groups by a key.
The stable sort leaves rows of one rank in their order, so that taking a group out of the sorted
rows is sorting the group, and its last row is the last of those with the greatest rank.
-/

open List

namespace Grouping

section

variable {α R : Type*} [LinearOrder R] (rank : α → R)

/-- The stable sort by rank. -/
def sortOn (l : List α) : List α := l.insertionSort fun a b => rank a ≤ rank b

/-- The rows of the greatest rank, in their order. -/
def peaks (l : List α) : List α := l.filter fun a => ∀ b ∈ l, rank b ≤ rank a

variable {rank} {l m : List α} {a : α}

lemma pairwise_sortOn (rank : α → R) (l : List α) :
    (sortOn rank l).Pairwise fun a b => rank a ≤ rank b :=
  haveI : Std.Total fun a b => rank a ≤ rank b := ⟨fun a b => le_total (rank a) (rank b)⟩
  haveI : IsTrans α fun a b => rank a ≤ rank b := ⟨fun _ _ _ => le_trans⟩
  pairwise_insertionSort _ l

lemma sortOn_perm (rank : α → R) (l : List α) : (sortOn rank l).Perm l := perm_insertionSort _ l

lemma sortOn_sortOn (l : List α) : sortOn rank (sortOn rank l) = sortOn rank l :=
  (pairwise_sortOn rank l).insertionSort_eq

lemma sortOn_cons (a : α) (l : List α) :
    sortOn rank (a :: l) = (sortOn rank l).orderedInsert (fun a b => rank a ≤ rank b) a := rfl

lemma filter_orderedInsert (p : α → Bool) (a : α) (hl : l.Pairwise fun a b => rank a ≤ rank b) :
    (l.orderedInsert (fun a b => rank a ≤ rank b) a).filter p =
      if p a then (l.filter p).orderedInsert (fun a b => rank a ≤ rank b) a else l.filter p := by
  induction l with
  | nil => simp [filter_cons]
  | cons b l ih =>
    rw [pairwise_cons] at hl
    rw [orderedInsert]
    split_ifs with hle hpa hpa
    · rw [filter_cons_of_pos hpa]
      -- whatever is left of the rows, they all come behind the new one
      have hall : ∀ x ∈ (b :: l).filter p, rank a ≤ rank x := by
        intro x hx
        rcases mem_cons.1 (mem_of_mem_filter hx) with rfl | hx
        · exact hle
        · exact hle.trans (hl.1 x hx)
      cases hrest : (b :: l).filter p with
      | nil => rfl
      | cons x rest =>
        rw [orderedInsert_cons_of_le]
        exact hall x (hrest ▸ mem_cons_self)
    · rw [filter_cons_of_neg hpa]
    · rw [filter_cons, ih hl.2, if_pos hpa]
      by_cases hpb : p b
      · rw [if_pos hpb, filter_cons_of_pos hpb, orderedInsert, if_neg hle]
      · rw [if_neg hpb, filter_cons_of_neg hpb]
    · rw [filter_cons, ih hl.2, if_neg hpa, filter_cons]

/-- Taking rows out of the sorted ones is sorting those rows. -/
lemma filter_sortOn (p : α → Bool) (l : List α) :
    (sortOn rank l).filter p = sortOn rank (l.filter p) := by
  induction l with
  | nil => rfl
  | cons a l ih =>
    rw [sortOn_cons, filter_orderedInsert p a (pairwise_sortOn rank l), ih, filter_cons]
    split_ifs
    · rw [sortOn_cons]
    · rfl

@[simp] lemma mem_peaks : a ∈ peaks rank l ↔ a ∈ l ∧ ∀ b ∈ l, rank b ≤ rank a := by
  simp [peaks]

lemma exists_mem_peaks (rank : α → R) (h : a ∈ l) : ∃ b, b ∈ peaks rank l := by
  classical
  obtain ⟨b, hb, hmax⟩ := l.toFinset.exists_max_image rank ⟨a, mem_toFinset.2 h⟩
  exact ⟨b, mem_peaks.2 ⟨mem_toFinset.1 hb, fun c hc => hmax c (mem_toFinset.2 hc)⟩⟩

lemma rank_eq_of_mem_peaks {b : α} (ha : a ∈ peaks rank l) (hb : b ∈ peaks rank l) :
    rank a = rank b :=
  le_antisymm ((mem_peaks.1 hb).2 a (mem_peaks.1 ha).1) ((mem_peaks.1 ha).2 b (mem_peaks.1 hb).1)

lemma peaks_eq_nil : peaks rank l = [] ↔ l = [] := by
  refine ⟨fun h => eq_nil_iff_forall_not_mem.2 fun a ha => ?_, fun h => by rw [h]; rfl⟩
  obtain ⟨b, hb⟩ := exists_mem_peaks rank ha
  rw [h] at hb
  cases hb

lemma peaks_map {β : Type*} (f : β → α) (l : List β) :
    peaks rank (l.map f) = (peaks (fun b => rank (f b)) l).map f := by
  unfold peaks
  rw [filter_map]
  simp [Function.comp_def]

lemma peaks_filter {p : α → Bool} (ha : a ∈ peaks rank l) (h : ∀ b ∈ peaks rank l, p b = true) :
    peaks rank (l.filter p) = peaks rank l := by
  unfold peaks
  rw [filter_filter]
  refine filter_congr fun b hb => ?_
  rw [Bool.eq_iff_iff, Bool.and_eq_true, decide_eq_true_eq, decide_eq_true_eq]
  constructor
  · rintro ⟨hmax, -⟩ c hc
    have hpa : a ∈ l.filter p := mem_filter.2 ⟨(mem_peaks.1 ha).1, h a ha⟩
    exact ((mem_peaks.1 ha).2 c hc).trans (hmax a hpa)
  · intro hmax
    exact ⟨fun c hc => hmax c (mem_of_mem_filter hc), h b (mem_peaks.2 ⟨hb, hmax⟩)⟩

lemma sortOn_of_const {r : R} (h : ∀ a ∈ l, rank a = r) : sortOn rank l = l := by
  refine List.Pairwise.insertionSort_eq (pairwise_iff_forall_sublist.2 fun {a b} hsub => ?_)
  rw [h a (hsub.subset (by simp)), h b (hsub.subset (by simp))]

/-- The last of the sorted rows is the last of those with the greatest rank. -/
lemma getLast?_sortOn (l : List α) : (sortOn rank l).getLast? = (peaks rank l).getLast? := by
  have hpeaks : (sortOn rank l).filter (fun a => ∀ b ∈ l, rank b ≤ rank a) = peaks rank l := by
    rw [filter_sortOn]
    change sortOn rank (peaks rank l) = peaks rank l
    cases h : peaks rank l with
    | nil => rfl
    | cons a rest =>
      rw [← h]
      exact sortOn_of_const fun b hb => rank_eq_of_mem_peaks hb (h ▸ mem_cons_self)
  rw [← hpeaks]
  rcases eq_nil_or_concat (sortOn rank l) with h | ⟨init, z, h⟩
  · rw [h]
    rfl
  · have hsorted := pairwise_sortOn rank l
    rw [h, concat_eq_append, pairwise_append] at hsorted
    have hz : ∀ b ∈ l, rank b ≤ rank z := by
      intro b hb
      rw [← (sortOn_perm rank l).mem_iff, h, concat_eq_append] at hb
      rcases mem_append.1 hb with hb | hb
      · exact hsorted.2.2 b hb z (mem_singleton.2 rfl)
      · rw [mem_singleton.1 hb]
    have hkept : [z].filter (fun a => ∀ b ∈ l, rank b ≤ rank a) = [z] := by simpa using hz
    rw [h, concat_eq_append, filter_append, hkept, getLast?_concat, getLast?_concat]

/-- Rows that do not surpass the others can only join those of the greatest rank. -/
lemma peaks_append (h : ∀ b ∈ m, ∃ a ∈ l, rank b ≤ rank a) :
    peaks rank (l ++ m) = peaks rank l ++ m.filter fun a => ∀ b ∈ l ++ m, rank b ≤ rank a := by
  unfold peaks
  rw [filter_append]
  congr 1
  refine filter_congr fun a _ => ?_
  simp only [decide_eq_decide]
  refine ⟨fun hall b hb => hall b (mem_append_left _ hb), fun hall b hb => ?_⟩
  rcases mem_append.1 hb with hb | hb
  · exact hall b hb
  · obtain ⟨c, hc, hle⟩ := h b hb
    exact hle.trans (hall c hc)

lemma peaks_append_of_lt (h : ∀ b ∈ m, ∃ a ∈ l, rank b < rank a) :
    peaks rank (l ++ m) = peaks rank l := by
  rw [peaks_append fun b hb => (h b hb).imp fun a ha => ⟨ha.1, ha.2.le⟩,
    filter_eq_nil_iff.2, append_nil]
  intro b hb hall
  obtain ⟨a, ha, hlt⟩ := h b hb
  exact absurd (of_decide_eq_true hall a (mem_append_left _ ha)) (not_le.2 hlt)

lemma peaks_concat_of_lt (h : ∀ b ∈ l, rank b < rank a) : peaks rank (l ++ [a]) = [a] := by
  have hnone : l.filter (fun b => ∀ c ∈ l ++ [a], rank c ≤ rank b) = [] := by
    rw [filter_eq_nil_iff]
    intro b hb hall
    exact absurd (of_decide_eq_true hall a (by simp)) (not_le.2 (h b hb))
  have hone : [a].filter (fun b => ∀ c ∈ l ++ [a], rank c ≤ rank b) = [a] := by
    simpa [or_imp, forall_and] using fun c hc => (h c hc).le
  unfold peaks
  rw [filter_append, hnone, nil_append, hone]

/-- Going through the rows and keeping the best one so far ends with the first of the greatest
rank. -/
lemma foldl_best (rank : α → R) {step : Option α → α → Option α}
    (hfirst : ∀ a, step none a = some a)
    (hbetter : ∀ a b, rank b < rank a → step (some b) a = some a)
    (hkeep : ∀ a b, rank a ≤ rank b → step (some b) a = some b) (l : List α) :
    l.foldl step none = (peaks rank l).head? := by
  induction l using reverseRecOn with
  | nil => rfl
  | append_singleton l a ih =>
    rw [foldl_append, ih, foldl_cons, foldl_nil]
    cases hpeaks : peaks rank l with
    | nil =>
      obtain rfl := peaks_eq_nil.1 hpeaks
      rw [head?_nil, hfirst]
      simp [peaks]
    | cons b rest =>
      obtain ⟨hb, hmax⟩ := mem_peaks.1 (hpeaks ▸ mem_cons_self : b ∈ peaks rank l)
      rw [head?_cons]
      rcases lt_or_ge (rank b) (rank a) with hlt | hle
      · rw [hbetter a b hlt, peaks_concat_of_lt fun c hc => (hmax c hc).trans_lt hlt]
        rfl
      · rw [hkeep a b hle, peaks_append (by simpa using ⟨b, hb, hle⟩), hpeaks]
        rfl

end

section

variable {α κ : Type*} [DecidableEq κ] {key : α → κ}

/-- The keys of some rows, in the order in which they first come up. -/
def keysOf (key : α → κ) (l : List α) : List κ := (l.map key).reverse.dedup.reverse

def under (key : α → κ) (k : κ) (l : List α) : List α := l.filter fun a => key a = k

variable {l : List α} {a : α} {k : κ}

lemma mem_keysOf : k ∈ keysOf key l ↔ ∃ a ∈ l, key a = k := by
  simp [keysOf]

lemma nodup_keysOf (key : α → κ) (l : List α) : (keysOf key l).Nodup :=
  nodup_reverse.2 (nodup_dedup _)

lemma keysOf_concat (key : α → κ) (l : List α) (a : α) :
    keysOf key (l ++ [a]) =
      if key a ∈ keysOf key l then keysOf key l else keysOf key l ++ [key a] := by
  rw [keysOf, map_append, reverse_append]
  change (dedup (key a :: (l.map key).reverse)).reverse = _
  split_ifs with h
  · rw [dedup_cons_of_mem (by simpa [keysOf] using h), keysOf]
  · rw [dedup_cons_of_notMem (by simpa [keysOf] using h), reverse_cons, keysOf]

@[simp] lemma mem_under : a ∈ under key k l ↔ a ∈ l ∧ key a = k := by
  simp [under]

lemma under_append (l m : List α) : under key k (l ++ m) = under key k l ++ under key k m :=
  filter_append ..

lemma under_filterMap {f : κ → Option α} (hf : ∀ k, ∀ a ∈ f k, key a = k) {ks : List κ}
    (h : ks.Nodup) : under key k (ks.filterMap f) = if k ∈ ks then (f k).toList else [] := by
  induction ks with
  | nil => rfl
  | cons j ks ih =>
    rw [nodup_cons] at h
    have hrest := ih h.2
    have hhead : under key k (f j).toList = if j = k then (f j).toList else [] := by
      unfold under
      cases hj : f j with
      | none => simp
      | some a => simp [filter_cons, hf j a hj]
    have hcons : (j :: ks).filterMap f = (f j).toList ++ ks.filterMap f := by
      cases hj : f j <;> simp [hj]
    rw [hcons, under_append, hhead, hrest]
    by_cases hjk : j = k
    · subst hjk
      simp [h.1]
    · simp [hjk, Ne.symm hjk]

end

end Grouping
