import Mathlib.Tactic

/-!
# Texts with patches

A text in which some stretches were replaced, kept together with what stood there before: stretches
that were left alone alternate with patches. Such a text is read in two ways, as the text it came
from (`source`) and as the text it is now (`text`). Edits of the current text that keep clear of the
patches add patches and change neither the source nor the patches that were there.
-/

open List

namespace Rewriting

variable {α : Type*}

/-- A stretch left alone, then a patch, and so on. -/
inductive Patched (α : Type*) where
  | plain (t : List α)
  | patch (t old new : List α) (rest : Patched α)

/-- Replace the text from `start` up to `stop` by `new`. -/
structure Edit (α : Type*) where
  start : ℕ
  stop : ℕ
  new : List α
  deriving DecidableEq

/-- `t[i:j]`. -/
def slice (t : List α) (i j : ℕ) : List α := (t.take j).drop i

/-- The text with some edits made, from left to right, from a position on. -/
def splice (t : List α) : ℕ → List (Edit α) → List α
  | pos, [] => t.drop pos
  | pos, e :: es => slice t pos e.start ++ (e.new ++ splice t e.stop es)

/-- The edits stand in order, do not overlap, and none is empty. -/
def Ordered (n : ℕ) : ℕ → List (Edit α) → Prop
  | _, [] => True
  | pos, e :: es => pos ≤ e.start ∧ e.start < e.stop ∧ e.stop ≤ n ∧ Ordered n e.stop es

variable {t : List α} {es : List (Edit α)} {i j n x g l : ℕ}

lemma slice_length (h : j ≤ t.length) : (slice t i j).length = j - i := by
  simp [slice, h]

lemma slice_append_drop (h : i ≤ j) (hj : j ≤ t.length) :
    slice t i j ++ t.drop j = t.drop i := by
  have hi : i ≤ (t.take j).length := by simp; omega
  unfold slice
  conv_rhs => rw [← take_append_drop j t, drop_append_of_le_length hi]

lemma take_append_slice (h : i ≤ j) :
    t.take i ++ slice t i j = t.take j := by
  unfold slice
  have htake : t.take i = (t.take j).take i := by rw [take_take, min_eq_left h]
  rw [htake, take_append_drop]

lemma take_slice_drop (h : i ≤ j) :
    t.take i ++ (slice t i j ++ t.drop j) = t := by
  rw [← append_assoc, take_append_slice h, take_append_drop]

variable {pos : ℕ}

namespace Ordered

variable {n : ℕ}

lemma mono {pos' : ℕ} {es : List (Edit α)} (h : Ordered n pos es) (hp : pos' ≤ pos) :
    Ordered n pos' es := by
  cases es with
  | nil => trivial
  | cons e es =>
    obtain ⟨h₁, h₂⟩ := h
    exact ⟨hp.trans h₁, h₂⟩

lemma sublist {es ds : List (Edit α)} (h : Ordered n pos es) (hs : ds.Sublist es) :
    Ordered n pos ds := by
  induction hs generalizing pos with
  | slnil => trivial
  | cons e _ ih =>
    obtain ⟨h₁, h₂, _, h₄⟩ := h
    exact ih (h₄.mono (h₁.trans h₂.le))
  | cons_cons e _ ih =>
    obtain ⟨h₁, h₂, h₃, h₄⟩ := h
    exact ⟨h₁, h₂, h₃, ih h₄⟩

/-- Edits made of some of the things that stand in order, each in its thing's place, do so too. -/
lemma filterMap {β : Type*} {xs : List β} {g : β → Edit α} {f : β → Option (Edit α)}
    (h : Ordered n pos (xs.map g))
    (hf : ∀ x d, f x = some d → d.start = (g x).start ∧ d.stop = (g x).stop) :
    Ordered n pos (xs.filterMap f) := by
  induction xs generalizing pos with
  | nil => trivial
  | cons x xs ih =>
    obtain ⟨h₁, h₂, h₃, h₄⟩ := h
    rw [filterMap_cons]
    cases hd : f x with
    | none => exact ih (h₄.mono (h₁.trans h₂.le))
    | some d =>
      obtain ⟨hs, he⟩ := hf x d hd
      exact ⟨hs ▸ h₁, hs ▸ he ▸ h₂, he ▸ h₃, he ▸ ih h₄⟩

end Ordered

namespace Patched

/-- The text it came from. -/
def source : Patched α → List α
  | plain t => t
  | patch t old _ rest => t ++ (old ++ rest.source)

def text : Patched α → List α
  | plain t => t
  | patch t _ new rest => t ++ (new ++ rest.text)

/-- The patches, each with its place in the source, what stood there and what stands there now. -/
def patches : ℕ → Patched α → List (ℕ × List α × List α)
  | _, plain _ => []
  | o, patch t old new rest => (o + t.length, old, new) :: patches (o + t.length + old.length) rest

/-- The ranges of the current text that were written. -/
def ranges : ℕ → Patched α → List (ℕ × ℕ)
  | _, plain _ => []
  | o, patch t _ new rest =>
    (o + t.length, o + t.length + new.length) :: ranges (o + t.length + new.length) rest

/-- How much of the text was left alone. -/
def untouched : Patched α → ℕ
  | plain t => t.length
  | patch t _ _ rest => t.length + rest.untouched

lemma untouched_le (p : Patched α) : p.untouched ≤ p.text.length := by
  induction p with
  | plain t => exact le_rfl
  | patch t old new rest ih =>
    rw [untouched, text, length_append, length_append]
    omega

/-! ### Patches made in one pass -/

/-- The text with some edits made, from left to right, and what they replaced. -/
def ofEdits (t : List α) : ℕ → List (Edit α) → Patched α
  | pos, [] => plain (t.drop pos)
  | pos, e :: es => patch (slice t pos e.start) (slice t e.start e.stop) e.new (ofEdits t e.stop es)

lemma ofEdits_text (t : List α) (pos : ℕ) (es : List (Edit α)) :
    (ofEdits t pos es).text = splice t pos es := by
  induction es generalizing pos with
  | nil => rfl
  | cons e es ih => rw [ofEdits, text, splice, ih]

lemma ofEdits_source {t : List α} {es : List (Edit α)} (h : Ordered t.length pos es) :
    (ofEdits t pos es).source = t.drop pos := by
  induction es generalizing pos with
  | nil => rfl
  | cons e es ih =>
    obtain ⟨h₁, h₂, h₃, h₄⟩ := h
    rw [ofEdits, source, ih h₄, slice_append_drop h₂.le h₃, slice_append_drop h₁ (h₂.le.trans h₃)]

lemma mem_ofEdits_patches {t : List α} {es : List (Edit α)} (h : Ordered t.length pos es)
    {x : ℕ × List α × List α} :
    x ∈ (ofEdits t pos es).patches pos ↔
    ∃ e ∈ es, x = (e.start, slice t e.start e.stop, e.new) := by
  induction es generalizing pos with
  | nil => simp [ofEdits, patches]
  | cons e es ih =>
    obtain ⟨h₁, h₂, h₃, h₄⟩ := h
    have hstart : pos + (slice t pos e.start).length = e.start := by
      rw [slice_length (h₂.le.trans h₃)]
      omega
    have hstop : e.start + (slice t e.start e.stop).length = e.stop := by
      rw [slice_length h₃]
      omega
    rw [ofEdits, patches, hstart, hstop, mem_cons, ih h₄]
    simp

/-! ### One more patch -/

/-- The stretch from `s` up to `n` of the current text lies between the patches. -/
def Clear (s n : ℕ) (p : Patched α) : Prop :=
  s < n ∧ n ≤ p.text.length ∧ ∀ r ∈ p.ranges 0, r.2 ≤ s ∨ n ≤ r.1

/-- Write something in place of a stretch between the patches. -/
def write (s n : ℕ) (new : List α) : Patched α → Patched α
  | plain t => patch (t.take s) (slice t s n) new (plain (t.drop n))
  | patch t old new' rest =>
    if n ≤ t.length then patch (t.take s) (slice t s n) new (patch (t.drop n) old new' rest)
    else
      patch t old new'
        (write (s - (t.length + new'.length)) (n - (t.length + new'.length)) new rest)

lemma ranges_shift (o k : ℕ) (p : Patched α) :
    p.ranges (o + k) = (p.ranges o).map fun r => (r.1 + k, r.2 + k) := by
  induction p generalizing o with
  | plain t => rfl
  | patch t old new rest ih =>
    have h₁ : o + k + t.length = o + t.length + k := by omega
    have h₂ : o + t.length + k + new.length = o + t.length + new.length + k := by omega
    rw [ranges, ranges, h₁, h₂, ih, map_cons]

variable {new : List α} {s n : ℕ} {p : Patched α}

lemma Clear.cases {t old : List α} {rest : Patched α}
    (h : Clear s n (patch t old new rest)) :
    n ≤ t.length ∨ (t.length + new.length ≤ s ∧
      Clear (s - (t.length + new.length)) (n - (t.length + new.length)) rest) := by
  obtain ⟨hlt, hn, hr⟩ := h
  have hfirst := hr (0 + t.length, 0 + t.length + new.length) mem_cons_self
  rcases hfirst with hs | hs
  · refine .inr ⟨by simpa using hs, ?_, ?_, ?_⟩
    · simp at hs
      omega
    · simp [text] at hn
      omega
    · intro r hmem
      have hshift : (r.1 + (t.length + new.length), r.2 + (t.length + new.length)) ∈
          ranges 0 (patch t old new rest) := by
        right
        have heq : 0 + t.length + new.length = 0 + (t.length + new.length) := by omega
        rw [heq, ranges_shift]
        exact mem_map.2 ⟨r, hmem, rfl⟩
      have hboth := hr _ hshift
      simp at hs hboth
      omega
  · exact .inl (by simpa using hs)

lemma write_text (h : Clear s n p) :
    (p.write s n new).text = p.text.take s ++ (new ++ p.text.drop n) := by
  induction p generalizing s n with
  | plain t => rfl
  | patch t old new' rest ih =>
    have hlt := h.1
    rw [write]
    by_cases hn : n ≤ t.length
    · rw [if_pos hn]
      simp only [text]
      rw [take_append_of_le_length (by omega), drop_append_of_le_length hn]
    · rw [if_neg hn]
      rcases h.cases with h' | ⟨hs, hc⟩
      · exact absurd h' hn
      · have htake : (t ++ (new' ++ rest.text)).take s =
            t ++ (new' ++ rest.text.take (s - (t.length + new'.length))) := by
          rw [← append_assoc, take_append, length_append,
            take_of_length_le (by rw [length_append]; exact hs), append_assoc]
        have hdrop : (t ++ (new' ++ rest.text)).drop n =
            rest.text.drop (n - (t.length + new'.length)) := by
          rw [← append_assoc, drop_append, length_append,
            drop_eq_nil_of_le (by rw [length_append]; omega), nil_append]
        simp only [text]
        rw [ih hc, htake, hdrop]
        simp

lemma write_source (h : Clear s n p) :
    (p.write s n new).source = p.source := by
  induction p generalizing s n with
  | plain t => exact take_slice_drop h.1.le
  | patch t old new' rest ih =>
    rw [write]
    by_cases hn : n ≤ t.length
    · rw [if_pos hn]
      simp only [source]
      conv_rhs => rw [← take_slice_drop (t := t) h.1.le]
      simp
    · rw [if_neg hn]
      rcases h.cases with h' | ⟨_, hc⟩
      · exact absurd h' hn
      · rw [source, source, ih hc]

lemma write_untouched (new : List α) (h : Clear s n p) :
    (p.write s n new).untouched + (n - s) = p.untouched := by
  induction p generalizing s n with
  | plain t =>
    obtain ⟨hlt, hn, _⟩ := h
    simp only [text] at hn
    simp only [write, untouched, length_take, length_drop]
    omega
  | patch t old new' rest ih =>
    have hlt := h.1
    rw [write]
    by_cases hn : n ≤ t.length
    · rw [if_pos hn]
      simp only [untouched, length_take, length_drop]
      omega
    · rw [if_neg hn]
      rcases h.cases with h' | ⟨hs, hc⟩
      · exact absurd h' hn
      · have hrest := ih hc
        simp only [untouched]
        omega

/-- The patches that were there stay, and the only new one holds what was written. -/
lemma write_patches (h : Clear s n p) (o : ℕ) :
    (∀ x ∈ p.patches o, x ∈ (p.write s n new).patches o) ∧
      ∀ x ∈ (p.write s n new).patches o, x ∈ p.patches o ∨ x.2 = (slice p.text s n, new) := by
  induction p generalizing s n o with
  | plain t =>
    refine ⟨fun x hx => absurd hx not_mem_nil, fun x hx => .inr ?_⟩
    rw [mem_singleton.1 hx]
    rfl
  | patch t old new' rest ih =>
    have hlt := h.1
    rw [write]
    by_cases hn : n ≤ t.length
    · -- the stretch is split in two, and what follows starts where it did
      have hslice : slice (patch t old new' rest).text s n = slice t s n := by
        simp only [text, slice]
        rw [take_append_of_le_length hn]
      have hlen : o + (t.take s).length + (slice t s n).length + (t.drop n).length = o +
          t.length := by
        rw [slice_length hn, length_take, length_drop]
        omega
      rw [if_pos hn, hslice]
      simp only [patches, hlen]
      refine ⟨fun x hx => mem_cons_of_mem _ hx, fun x hx => ?_⟩
      rcases mem_cons.1 hx with rfl | hx
      · exact .inr rfl
      · exact .inl hx
    · rw [if_neg hn]
      rcases h.cases with h' | ⟨hs, hc⟩
      · exact absurd h' hn
      · have hslice : slice (patch t old new' rest).text s n =
            slice rest.text (s - (t.length + new'.length)) (n - (t.length + new'.length)) := by
          simp only [text, slice]
          rw [← append_assoc, take_append, length_append,
            take_of_length_le (by rw [length_append]; omega), drop_append,
            length_append, drop_eq_nil_of_le (by rw [length_append]; exact hs),
            nil_append]
        obtain ⟨hold, hnew⟩ := ih hc (o + t.length + old.length)
        rw [hslice]
        simp only [patches, mem_cons]
        refine ⟨fun x hx => hx.imp_right (hold x), fun x hx => ?_⟩
        rcases hx with rfl | hx
        · exact .inl (.inl rfl)
        · exact (hnew x hx).imp_left .inr

/-- The ranges in front of the stretch stay, those behind it move by what the text grew, and the
stretch itself becomes a range. -/
lemma write_ranges (h : Clear s n p) (o : ℕ) :
    ∀ r ∈ (p.write s n new).ranges o, r = (o + s, o + s + new.length) ∨
      ∃ q ∈ p.ranges o, (q.2 ≤ o + s ∧ r = q) ∨
        (o + n ≤ q.1 ∧ r = (q.1 + new.length - (n - s), q.2 + new.length - (n - s))) := by
  have hlt := h.1
  induction p generalizing s n o with
  | plain t =>
    intro r hr
    have hs : (t.take s).length = s := by
      have := h.2.1
      simp only [text] at this
      rw [length_take]
      omega
    rw [mem_singleton.1 hr, hs]
    exact .inl rfl
  | patch t old new' rest ih =>
    intro r hr
    rw [write] at hr
    by_cases hn : n ≤ t.length
    · rw [if_pos hn] at hr
      have hs : (t.take s).length = s := by
        rw [length_take]
        omega
      simp only [ranges, hs, length_drop, mem_cons] at hr
      rcases hr with rfl | rfl | hr
      · exact .inl rfl
      · refine .inr ⟨_, mem_cons_self, .inr ⟨by omega, ?_⟩⟩
        refine Prod.ext ?_ ?_ <;> dsimp only <;> omega
      · rw [← zero_add (o + s + new.length + (t.length - n) + new'.length), ranges_shift] at hr
        obtain ⟨q, hq, rfl⟩ := mem_map.1 hr
        refine .inr ⟨(q.1 + (o + t.length + new'.length), q.2 + (o + t.length + new'.length)), ?_,
          .inr ⟨by dsimp only; omega, ?_⟩⟩
        · refine mem_cons_of_mem _ ?_
          rw [← zero_add (o + t.length + new'.length), ranges_shift]
          exact mem_map.2 ⟨q, hq, by rw [zero_add]⟩
        · refine Prod.ext ?_ ?_ <;> dsimp only <;> omega
    · rw [if_neg hn] at hr
      rcases h.cases with h' | ⟨hs, hc⟩
      · exact absurd h' hn
      · rcases mem_cons.1 hr with rfl | hr
        · exact .inr ⟨_, mem_cons_self, .inl ⟨by dsimp only; omega, rfl⟩⟩
        · rcases ih hc _ hc.1 r hr with rfl | ⟨q, hq, hcase⟩
          · refine .inl (Prod.ext ?_ ?_) <;> dsimp only <;> omega
          · refine .inr ⟨q, mem_cons_of_mem _ hq, ?_⟩
            rcases hcase with ⟨hle, rfl⟩ | ⟨hle, rfl⟩
            · exact .inl ⟨by omega, rfl⟩
            · refine .inr ⟨by omega, ?_⟩
              refine Prod.ext ?_ ?_ <;> dsimp only <;> omega

/-! ### Patches made in a later pass -/

/-- Write several stretches, the last one first, so that the places of the others stay right. -/
def writeAll (es : List (Edit α)) (p : Patched α) : Patched α :=
  es.foldr (fun e p => p.write e.start e.stop e.new) p

end Patched

/-- Where a position between the edits is once they are made. -/
def moved : List (Edit α) → ℕ → ℕ
  | [], x => x
  | e :: es, x => if e.stop ≤ x then moved es x + e.new.length - (e.stop - e.start) else x

/-- The ranges that edits write, in the text they lead to; so far the text has grown by `g` and
shrunk by `l`. -/
def added : ℕ → ℕ → List (Edit α) → List (ℕ × ℕ)
  | _, _, [] => []
  | g, l, e :: es =>
    (e.start + g - l, e.start + g - l + e.new.length) ::
      added (g + e.new.length) (l + (e.stop - e.start)) es

lemma moved_of_le (h : Ordered n pos es) (hx : x ≤ pos) : moved es x = x := by
  cases es with
  | nil => rfl
  | cons e es =>
    obtain ⟨h₁, h₂, _⟩ := h
    exact if_neg (by omega)

lemma le_moved (h : Ordered n pos es) (hx : pos ≤ x) : pos ≤ moved es x := by
  induction es generalizing pos with
  | nil => exact hx
  | cons e es ih =>
    obtain ⟨h₁, h₂, _, h₄⟩ := h
    rw [moved]
    split_ifs with he
    · have := ih h₄ he
      omega
    · exact hx

lemma mem_added_le (h : Ordered n pos es) {r : ℕ × ℕ} (hr : r ∈ added g l es) :
    pos + g - l ≤ r.1 ∧ r.1 ≤ r.2 := by
  induction es generalizing pos g l with
  | nil => cases hr
  | cons e es ih =>
    obtain ⟨h₁, h₂, _, h₄⟩ := h
    rcases mem_cons.1 hr with rfl | hr
    · dsimp only
      omega
    · have := ih h₄ hr
      omega

lemma added_shift (a b : ℕ) (h : Ordered n pos es) (hl : l ≤ pos + g) :
    added (g + a) (l + b) es = (added g l es).map fun r =>
      (r.1 + a - b, r.1 + a - b + (r.2 - r.1)) := by
  induction es generalizing pos g l with
  | nil => rfl
  | cons e es ih =>
    obtain ⟨h₁, h₂, _, h₄⟩ := h
    have hg : g + a + e.new.length = g + e.new.length + a := by omega
    have hl' : l + b + (e.stop - e.start) = l + (e.stop - e.start) + b := by omega
    rw [added, added, hg, hl', ih h₄ (by omega), map_cons]
    congr 1
    refine Prod.ext ?_ ?_ <;> dsimp only <;> omega

namespace Patched

lemma le_of_mem_ranges {p : Patched α} {o : ℕ} {r : ℕ × ℕ} (h : r ∈ p.ranges o) : r.1 ≤ r.2 := by
  induction p generalizing o with
  | plain t => cases h
  | patch t old new rest ih =>
    rcases mem_cons.1 h with rfl | h
    · exact Nat.le_add_right _ _
    · exact ih h

/-- One text comes from the same source as another and has its patches, and whatever else it has
patched is of a given kind. -/
structure Extends (W : List α → List α → Prop) (p q : Patched α) : Prop where
  source : q.source = p.source
  kept : ∀ x ∈ p.patches 0, x ∈ q.patches 0
  patches : ∀ x ∈ q.patches 0, x ∈ p.patches 0 ∨ W x.2.1 x.2.2

namespace Extends

variable {W : List α → List α → Prop} {p q r : Patched α}

lemma refl (W : List α → List α → Prop) (p : Patched α) : Extends W p p :=
  ⟨rfl, fun _ hx => hx, fun _ hx => .inl hx⟩

lemma trans (h : Extends W p q) (h' : Extends W q r) : Extends W p r := by
  refine ⟨h'.source.trans h.source, fun x hx => h'.kept x (h.kept x hx), fun x hx => ?_⟩
  rcases h'.patches x hx with hx | hx
  · exact h.patches x hx
  · exact .inr hx

end Extends

/-- What edits between the patches lead to: the source and the old patches stay, the current text is
the one edited, and its ranges are those written and the old ones where they moved to. -/
structure Wrote (es : List (Edit α)) (pos : ℕ) (p q : Patched α) : Prop where
  source : q.source = p.source
  text : q.text = p.text.take pos ++ splice p.text pos es
  kept : ∀ x ∈ p.patches 0, x ∈ q.patches 0
  patches : ∀ x ∈ q.patches 0, x ∈ p.patches 0 ∨
    ∃ e ∈ es, x.2 = (slice p.text e.start e.stop, e.new)
  ranges : ∀ r ∈ q.ranges 0, r ∈ added 0 0 es ∨
    ∃ s ∈ p.ranges 0, r = (moved es s.1, moved es s.2)
  untouched : q.untouched + (es.map fun e => e.stop - e.start).sum = p.untouched

section

variable {p : Patched α} {e : Edit α} {es : List (Edit α)}

/-- What the later edits have written, and where they have moved the old ranges, is clear of an edit
in front of them. -/
lemma Wrote.clear (hq : Wrote es e.stop p (p.writeAll es)) (hlt : e.start < e.stop)
    (hstop : e.stop ≤ p.text.length) (hes : Ordered p.text.length e.stop es)
    (he : ∀ r ∈ p.ranges 0, r.2 ≤ e.start ∨ e.stop ≤ r.1) :
    Clear e.start e.stop (p.writeAll es) := by
  refine ⟨hlt, ?_, ?_⟩
  · rw [hq.text, length_append, length_take, min_eq_left hstop]
    exact Nat.le_add_right _ _
  · intro r hr
    rcases hq.ranges r hr with hr | ⟨s, hs, rfl⟩
    · have := mem_added_le hes hr
      exact .inr (by omega)
    · rcases he s hs with hs' | hs'
      · left
        rw [moved_of_le hes (by omega : s.2 ≤ e.stop)]
        exact hs'
      · exact .inr (le_moved hes hs')

/-- So that edit adds its own range, and shifts what is behind it. -/
lemma Wrote.ranges_cons (hq : Wrote es e.stop p (p.writeAll es))
    (hc : Clear e.start e.stop (p.writeAll es)) (hlt : e.start < e.stop)
    (hes : Ordered p.text.length e.stop es) (he : ∀ r ∈ p.ranges 0, r.2 ≤ e.start ∨ e.stop ≤ r.1) :
    ∀ r ∈ (p.writeAll (e :: es)).ranges 0, r ∈ added 0 0 (e :: es) ∨
      ∃ s ∈ p.ranges 0, r = (moved (e :: es) s.1, moved (e :: es) s.2) := by
  intro r hr
  rcases write_ranges hc 0 r hr with rfl | ⟨q, hqr, hcase⟩
  · refine .inl (mem_cons.2 (.inl ?_))
    refine Prod.ext ?_ ?_ <;> dsimp only <;> omega
  · rcases hq.ranges q hqr with hadd | ⟨s, hs, rfl⟩
    · -- written by a later edit: it moves with the text behind this one
      obtain ⟨hge, hle⟩ := mem_added_le hes hadd
      rcases hcase with ⟨hbad, _⟩ | ⟨_, rfl⟩
      · omega
      · refine .inl (mem_cons_of_mem _ ?_)
        rw [added_shift e.new.length (e.stop - e.start) hes (by omega)]
        refine mem_map.2 ⟨q, hadd, Prod.ext rfl ?_⟩
        dsimp only
        omega
    · refine .inr ⟨s, hs, ?_⟩
      have hsle := le_of_mem_ranges hs
      rcases he s hs with hs' | hs'
      · rw [moved_of_le hes (by omega : s.1 ≤ e.stop), moved_of_le hes (by omega : s.2 ≤ e.stop)]
          at hcase
        rcases hcase with ⟨_, rfl⟩ | ⟨hbad, _⟩
        · rw [moved, moved, if_neg (by omega), if_neg (by omega)]
        · dsimp only at hbad
          omega
      · have h₅ := le_moved hes hs'
        have h₆ := le_moved hes (hs'.trans hsle)
        rcases hcase with ⟨hbad, _⟩ | ⟨_, rfl⟩
        · dsimp only at hbad
          omega
        · rw [moved, moved, if_pos hs', if_pos (hs'.trans hsle)]

end

theorem writeAll_wrote {p : Patched α} {es : List (Edit α)} (h : Ordered p.text.length pos es)
    (hclear : ∀ e ∈ es, ∀ r ∈ p.ranges 0, r.2 ≤ e.start ∨ e.stop ≤ r.1) :
    Wrote es pos p (p.writeAll es) := by
  induction es generalizing pos with
  | nil =>
    refine ⟨rfl, (take_append_drop pos p.text).symm, fun _ hx => hx, fun _ hx => .inl hx, ?_, ?_⟩
    · exact fun r hr => .inr ⟨r, hr, rfl⟩
    · rfl
  | cons e es ih =>
    obtain ⟨h₁, h₂, h₃, h₄⟩ := h
    have hq := ih h₄ fun e' he' => hclear e' (mem_cons_of_mem _ he')
    have he := hclear e mem_cons_self
    have hlen : (p.text.take e.stop).length = e.stop := by
      rw [length_take, min_eq_left h₃]
    -- nothing written so far reaches the stretch that is written now
    have hc : Clear e.start e.stop (p.writeAll es) := hq.clear h₂ h₃ h₄ he
    have htext : (p.writeAll es).text = p.text.take e.stop ++ splice p.text e.stop es := hq.text
    refine ⟨(write_source hc).trans hq.source, ?_, ?_, ?_, hq.ranges_cons hc h₂ h₄ he, ?_⟩
    · have htake : (p.writeAll es).text.take e.start = p.text.take e.start := by
        rw [htext, take_append_of_le_length (by omega), take_take, min_eq_left h₂.le]
      have hdrop : (p.writeAll es).text.drop e.stop = splice p.text e.stop es := by
        rw [htext, drop_append, hlen, Nat.sub_self, drop_zero,
          drop_eq_nil_of_le hlen.le, nil_append]
      change ((p.writeAll es).write e.start e.stop e.new).text = _
      rw [write_text hc, htake, hdrop, splice, ← append_assoc (p.text.take pos),
        take_append_slice h₁]
    · exact fun x hx => (write_patches hc 0).1 x (hq.kept x hx)
    · intro x hx
      rcases (write_patches hc 0).2 x hx with hx | hx
      · rcases hq.patches x hx with hx | ⟨e', he', hx⟩
        · exact .inl hx
        · exact .inr ⟨e', mem_cons_of_mem _ he', hx⟩
      · refine .inr ⟨e, mem_cons_self, ?_⟩
        rw [hx, htext, slice, take_append_of_le_length hlen.ge, take_take, min_self, slice]
    · have hw := write_untouched e.new hc
      have hu := hq.untouched
      change ((p.writeAll es).write e.start e.stop e.new).untouched + _ = _
      rw [map_cons, sum_cons]
      omega

end Patched

end Rewriting
