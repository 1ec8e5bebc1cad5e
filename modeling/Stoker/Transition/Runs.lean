import Mathlib.Tactic

/-!
# Guarded runs of a transition function

A system is a total transition function `step : α → σ → σ`: an action that does not apply leaves
the state alone. `Runs step G s as t` says that the actions `as`, taken in order, lead from `s` to
`t` and that each of them met the condition `G` in the state it was taken from. Taking `G` to be
`Always` gives every interleaving; a stronger `G` gives the interleavings that avoid some branch.

The rules below turn what one step preserves into what a whole run preserves. `observe` adds to a
system what an observer makes of its steps, for statements that speak of the past.
-/

namespace Transition

variable {σ α : Type*} {step : α → σ → σ} {G : α → σ → Prop}

/-- The condition that every action meets. -/
def Always : α → σ → Prop := fun _ _ => True

/-- The actions `as` lead from one state to another, each meeting `G` where it is taken. -/
inductive Runs (step : α → σ → σ) (G : α → σ → Prop) : σ → List α → σ → Prop where
  | nil (s : σ) : Runs step G s [] s
  | cons {s t : σ} {a : α} {as : List α} (hg : G a s) (h : Runs step G (step a s) as t) :
      Runs step G s (a :: as) t

/-- The state some actions lead to. -/
def exec (step : α → σ → σ) (s : σ) (as : List α) : σ := as.foldl (fun s a => step a s) s

/-- A system with an observer beside it: `see a s t w` is what the observer makes of the step `a`
from `s` to `t`, having made `w` of the steps before. -/
def observe {ω : Type*} (step : α → σ → σ) (see : α → σ → σ → ω → ω) (a : α) (x : σ × ω) : σ × ω :=
  (step a x.1, see a x.1 (step a x.1) x.2)

namespace Runs

variable {as : List α} {s : σ} {t : σ} {I P : σ → Prop}

lemma append {u : σ} {bs : List α} (h₁ : Runs step G s as t) (h₂ : Runs step G t bs u) :
    Runs step G s (as ++ bs) u := by
  induction h₁ with
  | nil s => exact h₂
  | cons hg h ih => exact .cons hg (ih h₂)

/-- Without a condition every sequence of actions is a run. -/
lemma always (s : σ) (as : List α) :
    Runs step Always s as (exec step s as) := by
  induction as generalizing s with
  | nil => exact .nil s
  | cons a as ih => exact .cons trivial (ih (step a s))

/-- A run whose condition can be decided is checked by evaluation. -/
def check (step : α → σ → σ) (G : α → σ → Prop) [∀ a s, Decidable (G a s)] :
    σ → List α → Bool
  | _, [] => true
  | s, a :: as => decide (G a s) && check step G (step a s) as

lemma of_check [∀ a s, Decidable (G a s)] (h : check step G s as = true) :
    Runs step G s as (exec step s as) := by
  induction as generalizing s with
  | nil => exact .nil s
  | cons a as ih =>
    simp only [check, Bool.and_eq_true, decide_eq_true_eq] at h
    exact .cons h.1 (ih h.2)

/-! ### Invariants -/

theorem invariant (hstep : ∀ a s, G a s → I s → I (step a s)) (h : Runs step G s as t) (hs : I s) :
    I t := by
  induction h with
  | nil s => exact hs
  | cons hg h ih => exact ih (hstep _ _ hg hs)

/-- The same for an invariant whose step needs another, already established one. -/
theorem invariant_under {J : σ → Prop} (hI : ∀ a s, G a s → I s → I (step a s))
    (hJ : ∀ a s, G a s → I s → J s → J (step a s)) (h : Runs step G s as t) (hi : I s) (hj : J s) :
    J t :=
  (invariant (I := fun s => I s ∧ J s)
    (fun a s hg hs => ⟨hI a s hg hs.1, hJ a s hg hs.1 hs.2⟩) h ⟨hi, hj⟩).2

/-- A reflexive and transitive relation that every step respects relates the ends of a run. -/
theorem relates {R : σ → σ → Prop} (hrefl : ∀ s, R s s) (htrans : ∀ s t u, R s t → R t u → R s u)
    (hstep : ∀ a s, G a s → R s (step a s)) (h : Runs step G s as t) : R s t := by
  induction h with
  | nil s => exact hrefl s
  | cons hg h ih => exact htrans _ _ _ (hstep _ _ hg) ih

/-- What holds at the end of a run but not at its start was brought about by one of its steps. -/
theorem exists_step (h : Runs step G s as t) (hs : ¬ P s) (ht : P t) :
    ∃ as₁ a as₂ u, as = as₁ ++ a :: as₂ ∧ Runs step G s as₁ u ∧ ¬ P u ∧ P (step a u) := by
  induction h with
  | nil s => exact absurd ht hs
  | @cons s t a as hg h ih =>
    by_cases hnext : P (step a s)
    · exact ⟨[], a, as, s, rfl, .nil s, hs, hnext⟩
    · obtain ⟨as₁, b, as₂, u, rfl, hruns, hu, hb⟩ := ih hnext ht
      exact ⟨a :: as₁, b, as₂, u, rfl, .cons hg hruns, hu, hb⟩

/-- A property that a step keeps exactly when it meets the condition holds all along exactly in the
runs that meet it; the step may use an invariant. -/
theorem along_iff (hI : ∀ a s, I s → I (step a s))
    (hP : ∀ a s, I s → P s → (P (step a s) ↔ G a s)) (hi : I s) (hs : P s) :
    (∀ bs, bs <+: as → P (exec step s bs)) ↔ Runs step G s as (exec step s as) := by
  induction as generalizing s with
  | nil =>
    refine iff_of_true (fun bs hbs => ?_) (.nil s)
    rw [List.prefix_nil.1 hbs]
    exact hs
  | cons a as ih =>
    constructor
    · intro h
      have hnext : P (step a s) := h [a] (List.cons_prefix_cons.2 ⟨rfl, List.nil_prefix⟩)
      refine .cons ((hP a s hi hs).1 hnext) ((ih (hI a s hi) hnext).1 fun bs hbs => ?_)
      exact h (a :: bs) (List.cons_prefix_cons.2 ⟨rfl, hbs⟩)
    · rintro (_ | ⟨hg, h⟩) bs hbs
      cases bs with
      | nil => exact hs
      | cons b bs =>
        obtain ⟨rfl, hrest⟩ := List.cons_prefix_cons.1 hbs
        exact (ih (hI b s hi) ((hP b s hi hs).2 hg)).2 h bs hrest

end Runs

end Transition
