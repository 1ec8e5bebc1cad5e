import Stoker.Rewriting.Patched

/-!
# What lies between the patches

The stretches of a patched text that were left alone are what lies between the ranges of the current
text, and what lies between the spans of the source; the ranges hold exactly the patches.
-/

open List

namespace Rewriting

variable {α : Type*}

/-- What lies between some ranges of a text, from a position on: in front of each, and behind the
last. -/
def gaps (t : List α) : ℕ → List (ℕ × ℕ) → List (List α)
  | pos, [] => [t.drop pos]
  | pos, r :: rs => slice t pos r.1 :: gaps t r.2 rs

def Edit.span (e : Edit α) : ℕ × ℕ := (e.start, e.stop)

variable {s t : List α}

lemma slice_append (i j : ℕ) :
    slice (s ++ t) (s.length + i) (s.length + j) = slice t i j := by
  rw [slice, take_length_add_append, drop_length_add_append, slice]

lemma slice_length_add {u : List α} : slice (s ++ (t ++ u)) s.length (s.length + t.length) = t := by
  have h := slice_append (s := s) (t := t ++ u) 0 t.length
  rw [Nat.add_zero] at h
  rw [h, slice, take_left', drop_zero]
  rfl

namespace Patched

/-- The stretches that were left alone. -/
def stretches : Patched α → List (List α)
  | plain t => [t]
  | patch t _ _ rest => t :: rest.stretches

lemma ofEdits_stretches (t : List α) (pos : ℕ) (es : List (Edit α)) :
    (ofEdits t pos es).stretches = gaps t pos (es.map Edit.span) := by
  induction es generalizing pos with
  | nil => rfl
  | cons e es ih => rw [ofEdits, stretches, ih, map_cons, gaps, Edit.span]

section

variable (p : Patched α)

lemma map_slice_ranges (s : List α) (o : ℕ) :
    (p.ranges s.length).map (fun r => slice (s ++ p.text) r.1 r.2) =
      (p.patches o).map fun x => x.2.2 := by
  induction p generalizing s o with
  | plain t => rfl
  | patch t old new rest ih =>
    have hrest := ih (s ++ t ++ new) (o + t.length + old.length)
    have hfirst := slice_length_add (s := s ++ t) (t := new) (u := rest.text)
    simp only [length_append, append_assoc] at hrest hfirst
    simp only [ranges, text, patches, map_cons, add_assoc] at hrest hfirst ⊢
    rw [hfirst, hrest]

lemma gaps_ranges (s : List α) : gaps (s ++ p.text) s.length (p.ranges s.length) = p.stretches := by
  induction p generalizing s with
  | plain t => simp [gaps, ranges, text, stretches]
  | patch t old new rest ih =>
    have hrest := ih (s ++ t ++ new)
    have hfirst := slice_length_add (s := s) (t := t) (u := new ++ rest.text)
    simp only [length_append, append_assoc] at hrest
    simp only [gaps, ranges, text, stretches, hfirst, ← hrest, add_assoc]

lemma pairwise_ranges (o : ℕ) : (p.ranges o).Pairwise (fun a b => a.2 ≤ b.1) ∧
    ∀ r ∈ p.ranges o, o ≤ r.1 ∧ r.1 ≤ r.2 ∧ r.2 ≤ o + p.text.length := by
  induction p generalizing o with
  | plain t => exact ⟨List.Pairwise.nil, fun r hr => absurd hr not_mem_nil⟩
  | patch t old new rest ih =>
    obtain ⟨hpair, hall⟩ := ih (o + t.length + new.length)
    rw [ranges, text, length_append, length_append]
    refine ⟨pairwise_cons.2 ⟨fun r hr => (hall r hr).1, hpair⟩, fun r hr => ?_⟩
    rcases mem_cons.1 hr with rfl | hr
    · exact ⟨by dsimp only; omega, by dsimp only; omega, by dsimp only; omega⟩
    · obtain ⟨h₁, h₂, h₃⟩ := hall r hr
      exact ⟨by omega, h₂, by omega⟩

end

lemma map_ofEdits_patches (t : List α) (pos o : ℕ) (es : List (Edit α)) :
    ((ofEdits t pos es).patches o).map (fun x => x.2.2) = es.map Edit.new := by
  induction es generalizing pos o with
  | nil => rfl
  | cons e es ih => rw [ofEdits, patches, map_cons, ih, map_cons]

end Patched

lemma Ordered.pairwise {n pos : ℕ} {es : List (Edit α)} (h : Ordered n pos es) :
    es.Pairwise (fun a b => a.stop ≤ b.start) ∧ ∀ e ∈ es, pos ≤ e.start ∧ e.start < e.stop ∧
    e.stop ≤ n := by
  induction es generalizing pos with
  | nil => exact ⟨List.Pairwise.nil, fun e he => absurd he not_mem_nil⟩
  | cons e es ih =>
    obtain ⟨h₁, h₂, h₃, h₄⟩ := h
    obtain ⟨hpair, hall⟩ := ih h₄
    refine ⟨pairwise_cons.2 ⟨fun d hd => (hall d hd).1, hpair⟩,
      forall_mem_cons.2 ⟨⟨h₁, h₂, h₃⟩, ?_⟩⟩
    exact fun d hd => ⟨(h₁.trans h₂.le).trans (hall d hd).1, (hall d hd).2⟩

end Rewriting
