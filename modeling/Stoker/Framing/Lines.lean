import Mathlib.Tactic

/-!
# Cutting a stream into lines

A list is cut at a separator: into the lines that the separator ends, and the rest behind the last
one. What has arrived of a stream is cut as far as it goes, and the rest is kept until more arrives:
cutting the rest together with what arrives gives the lines of the whole.
-/

open List

namespace Framing

variable {α : Type*} [DecidableEq α] {sep : α}

/-- The lines that end with the separator, without it, and the rest. -/
def cut (sep : α) : List α → List (List α) × List α
  | [] => ([], [])
  | a :: s =>
    if a = sep then ([] :: (cut sep s).1, (cut sep s).2)
    else
      match (cut sep s).1 with
      | [] => ([], a :: (cut sep s).2)
      | l :: ls => ((a :: l) :: ls, (cut sep s).2)

variable {s : List α}

lemma cut_of_not_mem (h : sep ∉ s) : cut sep s = ([], s) := by
  induction s with
  | nil => rfl
  | cons a s ih =>
    have ha : a ≠ sep := fun heq => h (heq ▸ mem_cons_self)
    rw [cut, if_neg ha, ih fun hs => h (mem_cons_of_mem _ hs)]

lemma cut_line {l : List α} (h : sep ∉ l) (s : List α) :
    cut sep (l ++ sep :: s) = (l :: (cut sep s).1, (cut sep s).2) := by
  induction l with
  | nil => rw [nil_append, cut, if_pos rfl]
  | cons a l ih =>
    have ha : a ≠ sep := fun heq => h (heq ▸ mem_cons_self)
    rw [cons_append, cut, if_neg ha, ih fun hl => h (mem_cons_of_mem _ hl)]

/-- A list has no separator, or begins with a line. -/
lemma exists_line (sep : α) (s : List α) : sep ∉ s ∨ ∃ l t, s = l ++ sep :: t ∧ sep ∉ l := by
  by_cases h : sep ∈ s
  · obtain ⟨l, t, rfl, hl⟩ := eq_append_cons_of_mem h
    exact .inr ⟨l, t, rfl, hl⟩
  · exact .inl h

@[elab_as_elim]
lemma line_induction (sep : α) {motive : List α → Prop} (rest : ∀ s, sep ∉ s → motive s)
    (line : ∀ l t, sep ∉ l → motive t → motive (l ++ sep :: t)) (s : List α) : motive s := by
  induction hn : s.length using Nat.strong_induction_on generalizing s with
  | _ n ih =>
    rcases exists_line sep s with h | ⟨l, t, rfl, hl⟩
    · exact rest s h
    · refine line l t hl (ih t.length ?_ t rfl)
      rw [← hn, length_append, length_cons]
      omega

lemma not_mem_cut (sep : α) (s : List α) :
    (∀ l ∈ (cut sep s).1, sep ∉ l) ∧ sep ∉ (cut sep s).2 := by
  induction s using line_induction sep with
  | rest s hs =>
    rw [cut_of_not_mem hs]
    exact ⟨fun l hl => absurd hl not_mem_nil, hs⟩
  | line l t hl ih =>
    rw [cut_line hl]
    exact ⟨forall_mem_cons.2 ⟨hl, ih.1⟩, ih.2⟩

/-- What was cut before is kept, and only the rest is cut again. -/
theorem cut_append (sep : α) (s t : List α) :
    cut sep (s ++ t) =
      ((cut sep s).1 ++ (cut sep ((cut sep s).2 ++ t)).1, (cut sep ((cut sep s).2 ++ t)).2) := by
  induction s using line_induction sep with
  | rest s hs =>
    rw [cut_of_not_mem hs]
    rfl
  | line l s hl ih =>
    rw [append_assoc, cons_append, cut_line hl, cut_line hl, ih]
    rfl

lemma cut_snd_length_le (sep : α) (s : List α) : (cut sep s).2.length ≤ s.length := by
  induction s using line_induction sep with
  | rest s hs => rw [cut_of_not_mem hs]
  | line l t hl ih =>
    rw [cut_line hl, length_append, length_cons]
    exact ih.trans (by omega)

/-- The lines of a list, the rest counted in. -/
def lines (sep : α) (s : List α) : List (List α) := (cut sep s).1 ++ [(cut sep s).2]

/-- What is left of a part of a list is the beginning of one of its lines. -/
lemma exists_line_of_isPrefix (sep : α) {p : List α} (h : p <+: s) :
    ∃ l ∈ lines sep s, (cut sep p).2 <+: l := by
  obtain ⟨t, rfl⟩ := h
  have hrest := (not_mem_cut sep p).2
  rw [lines, cut_append]
  rcases exists_line sep t with ht | ⟨l, t, rfl, hl⟩
  · have hnot : sep ∉ (cut sep p).2 ++ t := by simp [hrest, ht]
    rw [cut_of_not_mem hnot]
    exact ⟨_, mem_append_right _ (mem_singleton.2 rfl), prefix_append _ _⟩
  · have hnot : sep ∉ (cut sep p).2 ++ l := by simp [hrest, hl]
    rw [← append_assoc, cut_line hnot]
    refine ⟨(cut sep p).2 ++ l, ?_, prefix_append _ _⟩
    exact mem_append_left _ (mem_append_right _ mem_cons_self)

/-- Every line is what is left of some part of the list. -/
lemma exists_isPrefix_of_line (s : List α) :
    ∀ l ∈ lines sep s, ∃ p, p <+: s ∧ (cut sep p).2 = l := by
  induction s using line_induction sep with
  | rest s hs =>
    intro l hmem
    rw [lines, cut_of_not_mem hs] at hmem
    refine ⟨s, prefix_rfl, ?_⟩
    rw [cut_of_not_mem hs]
    exact (mem_singleton.1 hmem).symm
  | line l t hl ih =>
    intro l' hmem
    rw [lines, cut_line hl] at hmem
    rcases mem_cons.1 hmem with rfl | hmem
    · exact ⟨l', prefix_append _ _, by rw [cut_of_not_mem hl]⟩
    · obtain ⟨p, hp, hcut⟩ := ih l' hmem
      refine ⟨l ++ sep :: p, ?_, by rw [cut_line hl]; exact hcut⟩
      exact (prefix_append_right_inj l).2 (cons_prefix_cons.2 ⟨rfl, hp⟩)

end Framing
