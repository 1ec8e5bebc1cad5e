import Mathlib.Tactic

/-!
# Code that can fail, and lists related element by element

Code that succeeds has passed every check on its way. In a loop that stops at the first error, what
each round keeps holds at the end, and what the rounds leave behind adds up to what the loop leaves.

A loop that makes one list of another relates the two element by element.
-/

open List

namespace Transition

variable {ε σ α : Type*} {f : σ → α → Except ε σ}

/-- From a check followed by more code that succeeds, both succeeded. -/
lemma bind_ok {α β : Type} {x : Except ε α} {f : α → Except ε β} {b : β}
    (h : (x >>= f) = .ok b) : ∃ a, x = .ok a ∧ f a = .ok b := by
  cases x with
  | error e => cases h
  | ok a => exact ⟨a, rfl, h⟩

lemma check_ok_iff {β : Type} {x : Except ε Unit} {y : Except ε β} {b : β} :
    (x >>= fun _ => y) = .ok b ↔ x = .ok () ∧ y = .ok b := by
  cases x with
  | error e =>
    constructor
    · intro h
      cases h
    · rintro ⟨h, _⟩
      cases h
  | ok _ => exact ⟨fun h => ⟨rfl, h⟩, fun h => h.2⟩

variable {e : ε} {p : Prop}

/-- Code after a `throw` succeeds exactly if the `throw` is passed. -/
lemma unless_ok_iff {β : Type} [Decidable p] {x : Except ε β} {b : β} :
    (if p then throw e >>= fun _ : PUnit => x else x) = .ok b ↔ ¬p ∧ x = .ok b := by
  split_ifs with hp
  · constructor
    · intro h
      cases h
    · exact fun h => absurd hp h.1
  · exact ⟨fun h => ⟨hp, h⟩, fun h => h.2⟩

lemma unless_ok {β : Type} [Decidable p] {x : Except ε β} {b : β}
    (h : (if p then throw e >>= fun _ : PUnit => x else x) = .ok b) : ¬p ∧ x = .ok b :=
  unless_ok_iff.1 h

/-- A `throw` on one of two ways to the same code. -/
lemma if_unless_ok_iff {β : Type} {c : Prop} [Decidable c] [Decidable p] {x : Except ε β} {b : β} :
    (if c then if p then throw e >>= fun _ : PUnit => x else x else x) = .ok b ↔ (c → ¬p) ∧
    x = .ok b := by
  by_cases hc : c
  · rw [if_pos hc, unless_ok_iff, imp_iff_right hc]
  · rw [if_neg hc]
    exact ⟨fun h => ⟨fun h' => absurd h' hc, h⟩, fun h => h.2⟩

lemma throw_ok_iff [Decidable p] :
    (if p then throw e else pure () : Except ε Unit) = .ok () ↔ ¬p := by
  split_ifs with hp
  · constructor
    · intro h
      cases h
    · exact fun h => absurd hp h
  · exact ⟨fun _ => hp, fun _ => rfl⟩

variable {xs : List α} {s t : σ}

/-- A fold over a non-empty list succeeds with a first round and a rest. -/
lemma foldlM_cons_ok {x : α} (h : (x :: xs).foldlM f s = .ok t) :
    ∃ r, f s x = .ok r ∧ xs.foldlM f r = .ok t := by
  rw [foldlM_cons] at h
  cases hr : f s x with
  | error e =>
    rw [hr] at h
    cases h
  | ok r =>
    rw [hr] at h
    exact ⟨r, rfl, h⟩

/-- What a loop makes of a list, it makes of its elements. -/
lemma exists_of_mem_mapM {β : Type} {α : Type} {g : α → Except ε β} {xs : List α} {ys : List β}
    (h : xs.mapM g = .ok ys) : ∀ y ∈ ys, ∃ x ∈ xs, g x = .ok y := by
  induction xs generalizing ys with
  | nil =>
    cases h
    exact fun y hy => absurd hy not_mem_nil
  | cons x xs ih =>
    rw [mapM_cons] at h
    obtain ⟨z, hz, h⟩ := bind_ok h
    obtain ⟨zs, hzs, h⟩ := bind_ok h
    cases h
    refine forall_mem_cons.2 ⟨⟨x, mem_cons_self, hz⟩, fun y hy => ?_⟩
    obtain ⟨w, hw, hy⟩ := ih hzs y hy
    exact ⟨w, mem_cons_of_mem _ hw, hy⟩

theorem foldlM_invariant {I : σ → Prop} (hstep : ∀ s x t, x ∈ xs → f s x = .ok t → I s → I t)
    (h : xs.foldlM f s = .ok t) (hs : I s) : I t := by
  induction xs generalizing s with
  | nil =>
    cases h
    exact hs
  | cons x xs ih =>
    obtain ⟨r, hr, h⟩ := foldlM_cons_ok h
    refine ih (fun s y t hy => hstep s y t (mem_cons_of_mem _ hy)) h ?_
    exact hstep s x r mem_cons_self hr hs

lemma foldlM_round_ok (h : xs.foldlM f s = .ok t) : ∀ x ∈ xs, ∃ r u, f r x = .ok u := by
  induction xs generalizing s with
  | nil => exact fun x hx => absurd hx not_mem_nil
  | cons x xs ih =>
    obtain ⟨r, hr, h⟩ := foldlM_cons_ok h
    exact forall_mem_cons.2 ⟨⟨s, r, hr⟩, ih h⟩

/-- What the rounds leave behind, one after the other: a relation that composes along lists holds
for the list of all that the rounds contribute. -/
theorem foldlM_trace {β : Type*} {T : List β → σ → σ → Prop} (hnil : ∀ s, T [] s s)
    (happend : ∀ {bs cs : List β} {s t u : σ}, T bs s t → T cs t u → T (bs ++ cs) s u)
    {g : α → List β} (hstep : ∀ s x t, x ∈ xs → f s x = .ok t → T (g x) s t)
    (h : xs.foldlM f s = .ok t) : T (xs.flatMap g) s t := by
  induction xs generalizing s with
  | nil =>
    cases h
    exact hnil _
  | cons x xs ih =>
    obtain ⟨r, hr, h⟩ := foldlM_cons_ok h
    refine happend (hstep s x r mem_cons_self hr) ?_
    exact ih (fun s y t hy => hstep s y t (mem_cons_of_mem _ hy)) h

/-! ### Lists related element by element -/

variable {β γ : Type*} {R : α → β → Prop} {S : β → γ → Prop} {T : α → γ → Prop}

variable {ys : List β}

lemma forall₂_exists_of_mem (h : List.Forall₂ R xs ys) {y : β} (hy : y ∈ ys) : ∃ x ∈ xs, R x y := by
  induction h with
  | nil => cases hy
  | cons hR _ ih =>
    rcases mem_cons.1 hy with rfl | hy
    · exact ⟨_, mem_cons_self, hR⟩
    · obtain ⟨x, hx, hxy⟩ := ih hy
      exact ⟨x, mem_cons_of_mem _ hx, hxy⟩

/-- What related rows have in common, the lists have. -/
lemma forall₂_map_eq {R : α → α → Prop} {g : α → γ} (hg : ∀ x y, R x y → g y = g x) {ys : List α}
    (h : List.Forall₂ R xs ys) : ys.map g = xs.map g := by
  induction h with
  | nil => rfl
  | cons hR _ ih => rw [map_cons, map_cons, hg _ _ hR, ih]

lemma forall₂_of_mapM {f : α → Option β} (h : xs.mapM f = some ys) :
    List.Forall₂ (fun x y => f x = some y) xs ys := by
  induction xs generalizing ys with
  | nil =>
    cases h
    exact .nil
  | cons x xs ih =>
    rw [mapM_cons] at h
    obtain ⟨y, hy, h⟩ := Option.bind_eq_some_iff.1 h
    obtain ⟨ys', hys, h⟩ := Option.bind_eq_some_iff.1 h
    cases h
    exact .cons hy (ih hys)

lemma forall₂_comp (hT : ∀ a b c, R a b → S b c → T a c) {zs : List γ}
    (h : List.Forall₂ R xs ys) (h' : List.Forall₂ S ys zs) : List.Forall₂ T xs zs := by
  induction h generalizing zs with
  | nil =>
    cases h'
    exact .nil
  | cons hab _ ih =>
    cases h' with
    | cons hbc hrest => exact .cons (hT _ _ _ hab hbc) (ih hrest)

/-- When what is chosen on the right comes from something chosen on the left, no more is chosen on
the right. -/
lemma forall₂_filter_length_le (h : List.Forall₂ R xs ys) {p : α → Bool} {q : β → Bool}
    (hpq : ∀ x ∈ xs, ∀ y ∈ ys, R x y → q y = true → p x = true) :
    (ys.filter q).length ≤ (xs.filter p).length := by
  induction h with
  | nil => exact le_rfl
  | @cons x y xs ys hxy _ ih =>
    have ih' := ih fun x hx y hy =>
      hpq x (mem_cons_of_mem _ hx) y (mem_cons_of_mem _ hy)
    have hhead := hpq x mem_cons_self y mem_cons_self hxy
    cases hq : q y with
    | false =>
      rw [filter_cons_of_neg (by simp [hq])]
      exact ih'.trans ((sublist_cons_self x xs).filter p).length_le
    | true =>
      rw [filter_cons_of_pos hq, filter_cons_of_pos (hhead hq)]
      exact Nat.succ_le_succ ih'

end Transition
