import Mathlib.Data.Set.Prod
import Mathlib.Logic.Function.Iterate
import Mathlib.Tactic

/-!
# Feistel networks and cycle walking

A Feistel round mixes one half of a pair into the other. It can be undone whatever the round
function is, so any number of rounds permutes the pairs. Cycle walking restricts a permutation to
part of its domain: step until the walk is back in that part. Two starting points in the part are
never led to the same place, since the later walk would have met the other's starting point before.
-/

namespace Permuting

section Feistel

variable {α : Type*} (op : α → α → α)

/-- One round: the halves are swapped, and the left one is mixed with a function of the right
one. -/
def round (f : α → α) (p : α × α) : α × α := (p.2, op p.1 (f p.2))

def rounds (fs : List (α → α)) (p : α × α) : α × α := fs.foldl (fun p f => round op f p) p

variable {op} {S : Set α}

/-- A round permutes the pairs over any set that the mixing and the round function keep to. -/
lemma round_bijOn (hop : ∀ a b, op (op a b) b = a) (hS : ∀ a ∈ S, ∀ b ∈ S, op a b ∈ S) {f : α → α}
    (hf : ∀ a ∈ S, f a ∈ S) : Set.BijOn (round op f) (S ×ˢ S) (S ×ˢ S) := by
  have hleft : Set.LeftInvOn (fun q => (op q.2 (f q.1), q.1)) (round op f) (S ×ˢ S) := by
    intro p _
    simp only [round, hop]
  have hright : Set.LeftInvOn (round op f) (fun q => (op q.2 (f q.1), q.1)) (S ×ˢ S) := by
    intro q _
    simp only [round, hop]
  refine Set.InvOn.bijOn ⟨hleft, hright⟩ ?_ ?_
  · rintro p ⟨h₁, h₂⟩
    exact ⟨h₂, hS _ h₁ _ (hf _ h₂)⟩
  · rintro q ⟨h₁, h₂⟩
    exact ⟨hS _ h₂ _ (hf _ h₁), h₁⟩

lemma rounds_bijOn (hop : ∀ a b, op (op a b) b = a) (hS : ∀ a ∈ S, ∀ b ∈ S, op a b ∈ S)
    {fs : List (α → α)} (hfs : ∀ f ∈ fs, ∀ a ∈ S, f a ∈ S) :
    Set.BijOn (rounds op fs) (S ×ˢ S) (S ×ˢ S) := by
  induction fs with
  | nil => exact Set.bijOn_id _
  | cons f fs ih =>
    rw [List.forall_mem_cons] at hfs
    exact (ih hfs.2).comp (round_bijOn hop hS hfs.1)

end Feistel

section Walk

variable {β : Type*} (step : β → β) (inside : β → Bool)

/-- Step until a place inside is met, at most so many times. -/
def walk : ℕ → β → Option β
  | 0, _ => none
  | n + 1, v => if inside (step v) then some (step v) else walk n (step v)

variable {step inside} {n : ℕ} {v z : β} {D : Set β}

/-- A walk ends at the first place inside that it meets. -/
lemma walk_eq_some (h : walk step inside n v = some z) :
    inside z = true ∧ ∃ i, step^[i + 1] v = z ∧ ∀ j < i, inside (step^[j + 1] v) = false := by
  induction n generalizing v with
  | zero => cases h
  | succ n ih =>
    rw [walk] at h
    split_ifs at h with hin
    · cases h
      exact ⟨hin, 0, rfl, fun j hj => absurd hj (Nat.not_lt_zero j)⟩
    · obtain ⟨hz, i, hi, hbefore⟩ := ih h
      refine ⟨hz, i + 1, hi, fun j hj => ?_⟩
      cases j with
      | zero => exact Bool.eq_false_iff.2 hin
      | succ j => exact hbefore j (Nat.lt_of_succ_lt_succ hj)

lemma iterate_injOn (hmaps : Set.MapsTo step D D) (hinj : Set.InjOn step D) (n : ℕ) :
    Set.InjOn step^[n] D := by
  induction n with
  | zero => exact Set.injOn_id D
  | succ n ih => exact ih.comp hinj hmaps

/-- Walks from two places inside never end at the same place. -/
lemma walk_injective (hmaps : Set.MapsTo step D D) (hinj : Set.InjOn step D) {m : ℕ} {w : β}
    (hv : v ∈ D) (hw : w ∈ D) (hvin : inside v = true) (hwin : inside w = true)
    (h : walk step inside m v = some z) (h' : walk step inside n w = some z) : v = w := by
  obtain ⟨-, i, hi, hbefore⟩ := walk_eq_some h
  obtain ⟨-, j, hj, hbefore'⟩ := walk_eq_some h'
  -- of two walks that end together, the longer one meets the start of the other on its way
  have hshift : ∀ {i d : ℕ} {v w : β}, v ∈ D → w ∈ D → step^[i + 1] v = step^[i + 1 + d] w →
      v = step^[d] w := by
    intro i d v w hv hw heq
    rw [Function.iterate_add_apply step (i + 1) d] at heq
    exact iterate_injOn hmaps hinj (i + 1) hv (hmaps.iterate d hw) heq
  rcases lt_trichotomy i j with hlt | rfl | hlt
  · obtain ⟨d, rfl⟩ := Nat.exists_eq_add_of_lt hlt
    have hmeet : v = step^[d + 1] w :=
      hshift hv hw (hi.trans (by rw [← hj]; congr 1; omega))
    rw [hmeet, hbefore' d (by omega)] at hvin
    cases hvin
  · exact hshift (d := 0) hv hw (hi.trans hj.symm)
  · obtain ⟨d, rfl⟩ := Nat.exists_eq_add_of_lt hlt
    have hmeet : w = step^[d + 1] v :=
      hshift hw hv (hj.trans (by rw [← hi]; congr 1; omega))
    rw [hmeet, hbefore d (by omega)] at hwin
    cases hwin

end Walk

end Permuting
