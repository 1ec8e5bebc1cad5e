import Stoker.Rewriting.Stretches

/-!
# Where ranges move to

When ordered edits are made in a text, a range clear of them moves and goes on holding what it held,
and the place of an edit becomes the range that holds what it writes. All of them keep their order.
-/

open List

namespace Rewriting

variable {α : Type*}

/-- A range where it is once edits are made. -/
def movedRange (es : List (Edit α)) (r : ℕ × ℕ) : ℕ × ℕ := (moved es r.1, moved es r.2)

/-- Two ranges that do not overlap. -/
def Separate (r r' : ℕ × ℕ) : Prop := r.2 ≤ r'.1 ∨ r'.2 ≤ r.1

instance : Std.Symm Separate := ⟨fun _ _ => Or.symm⟩

/-- The edits made in a text from a position on, with what stands in front of it. -/
def edited (t : List α) (pos : ℕ) (es : List (Edit α)) : List α := t.take pos ++ splice t pos es

section

variable {t : List α} {n pos : ℕ} {e : Edit α} {es : List (Edit α)}

@[simp] lemma edited_nil (t : List α) (pos : ℕ) : edited t pos [] = t := take_append_drop pos t

@[simp] lemma edited_zero (t : List α) (es : List (Edit α)) : edited t 0 es = splice t 0 es := by
  rw [edited, take_zero, nil_append]

lemma edited_cons (h : pos ≤ e.start) :
    edited t pos (e :: es) = t.take e.start ++ (e.new ++ splice t e.stop es) := by
  rw [edited, splice, ← append_assoc, take_append_slice h]

variable {x i j : ℕ}

lemma moved_cons_of_lt (h : x < e.stop) : moved (e :: es) x = x := if_neg (not_le.2 h)

/-- Behind the first edit a position moves as the later edits have it, and by what the first one
adds. -/
lemma moved_cons_of_le (h : Ordered n e.stop es) (hlt : e.start < e.stop) (hx : e.stop ≤ x) :
    ∃ a, moved es x = e.stop + a ∧ moved (e :: es) x = e.start + e.new.length + a := by
  obtain ⟨a, ha⟩ := Nat.exists_eq_add_of_le (le_moved h hx)
  refine ⟨a, ha, ?_⟩
  rw [moved, if_pos hx, ha]
  omega

/-- Positions that no edit has inside of it keep their order. -/
lemma moved_le_moved (h : Ordered n pos es) {y : ℕ} (hx : ∀ e ∈ es, x ≤ e.start ∨ e.stop ≤ x)
    (hxy : x ≤ y) : moved es x ≤ moved es y := by
  induction es generalizing pos with
  | nil => exact hxy
  | cons e es ih =>
    obtain ⟨-, hlt, -, hes⟩ := h
    rcases lt_or_ge y e.stop with hy | hy
    · rw [moved_cons_of_lt hy, moved_cons_of_lt (hxy.trans_lt hy)]
      exact hxy
    obtain ⟨b, hb, hb'⟩ := moved_cons_of_le hes hlt hy
    rcases hx e mem_cons_self with hx' | hx'
    · rw [moved_cons_of_lt (hx'.trans_lt hlt), hb']
      omega
    · obtain ⟨a, ha, ha'⟩ := moved_cons_of_le hes hlt hx'
      have hle := ih hes fun d hd => hx d (mem_cons_of_mem _ hd)
      omega

lemma moved_length (h : Ordered t.length pos es) :
    (edited t pos es).length = moved es t.length := by
  induction es generalizing pos with
  | nil =>
    rw [edited_nil]
    rfl
  | cons e es ih =>
    obtain ⟨hpos, hlt, hstop, hes⟩ := h
    obtain ⟨a, ha, ha'⟩ := moved_cons_of_le hes hlt hstop
    have hrest := ih hes
    rw [ha, edited, length_append, length_take, min_eq_left hstop] at hrest
    rw [edited_cons hpos, ha', length_append, length_append, length_take,
      min_eq_left (hlt.le.trans hstop)]
    omega

/-- Behind the first edit, a range holds what it holds when only the later ones are made. -/
lemma slice_edited_cons (hpos : pos ≤ e.start) (hlt : e.start < e.stop)
    (hstop : e.stop ≤ t.length) (hes : Ordered t.length e.stop es) (hi : e.stop ≤ i) (hij : i ≤ j) :
    slice (edited t pos (e :: es)) (moved (e :: es) i) (moved (e :: es) j) =
      slice (edited t e.stop es) (moved es i) (moved es j) := by
  obtain ⟨a, ha, ha'⟩ := moved_cons_of_le hes hlt hi
  obtain ⟨b, hb, hb'⟩ := moved_cons_of_le hes hlt (hi.trans hij)
  have hfront : (t.take e.start ++ e.new).length = e.start + e.new.length := by
    rw [length_append, length_take, min_eq_left (hlt.le.trans hstop)]
  have hkept : (t.take e.stop).length = e.stop := by rw [length_take, min_eq_left hstop]
  have hleft := slice_append (s := t.take e.start ++ e.new) (t := splice t e.stop es) a b
  have hright := slice_append (s := t.take e.stop) (t := splice t e.stop es) a b
  rw [hfront, append_assoc] at hleft
  rw [hkept] at hright
  rw [edited_cons hpos, ha', hb', hleft, ha, hb, edited, hright]

/-- A range clear of the edits goes on holding what it held. -/
lemma slice_moved_of_clear (h : Ordered t.length pos es) (hij : i ≤ j)
    (hclear : ∀ e ∈ es, j ≤ e.start ∨ e.stop ≤ i) :
    slice (edited t pos es) (moved es i) (moved es j) = slice t i j := by
  induction es generalizing pos with
  | nil =>
    rw [edited_nil]
    rfl
  | cons e es ih =>
    obtain ⟨hpos, hlt, hstop, hes⟩ := h
    rcases hclear e mem_cons_self with hj | hi
    · rw [moved_cons_of_lt (hj.trans_lt hlt), moved_cons_of_lt ((hij.trans hj).trans_lt hlt),
        edited_cons hpos]
      have hlen : j ≤ (t.take e.start).length := by
        rw [length_take]
        omega
      rw [slice, take_append_of_le_length hlen, take_take, min_eq_left hj, slice]
    · rw [slice_edited_cons hpos hlt hstop hes hi hij]
      exact ih hes fun d hd => hclear d (mem_cons_of_mem _ hd)

lemma slice_moved_of_mem (h : Ordered t.length pos es) (hmem : e ∈ es) :
    slice (edited t pos es) (moved es e.start) (moved es e.stop) = e.new := by
  induction es generalizing pos with
  | nil => cases hmem
  | cons d es ih =>
    obtain ⟨hpos, hlt, hstop, hes⟩ := h
    rcases mem_cons.1 hmem with rfl | hmem
    · have hlen : (t.take e.start).length = e.start := by
        rw [length_take, min_eq_left (hlt.le.trans hstop)]
      have hnew := slice_length_add (s := t.take e.start) (t := e.new) (u := splice t e.stop es)
      obtain ⟨a, ha, ha'⟩ := moved_cons_of_le hes hlt le_rfl
      rw [moved_of_le hes le_rfl] at ha
      rw [hlen] at hnew
      rw [moved_cons_of_lt hlt, ha', edited_cons hpos]
      obtain rfl : a = 0 := by omega
      exact hnew
    · obtain ⟨hstart, hlt', -⟩ := hes.pairwise.2 e hmem
      rw [slice_edited_cons hpos hlt hstop hes hstart hlt'.le]
      exact ih hes hmem

/-- No edit has a part of the range only: it is clear of every edit or it is its place. -/
def Whole (es : List (Edit α)) (r : ℕ × ℕ) : Prop :=
  r.1 ≤ r.2 ∧ ∀ e ∈ es, r = e.span ∨ Separate r e.span

lemma Ordered.whole (h : Ordered n pos es) (hmem : e ∈ es) : Whole es e.span := by
  obtain ⟨hpair, hall⟩ := h.pairwise
  refine ⟨(hall e hmem).2.1.le, fun d hd => ?_⟩
  by_cases hed : e = d
  · exact .inl (congrArg Edit.span hed)
  · have hsymm : Std.Symm fun a b : Edit α => Separate a.span b.span := ⟨fun _ _ => Or.symm⟩
    have hapart : es.Pairwise fun a b => Separate a.span b.span := hpair.imp .inl
    exact .inr (hapart.forall hmem hd hed)

/-- Whole ranges keep their order, with the text that is in front of them and behind them. -/
lemma Whole.moved_le {r : ℕ × ℕ} (hr : Whole es r) (h : Ordered n pos es) :
    (∀ y, r.1 ≤ y → moved es r.1 ≤ moved es y) ∧ ∀ y, r.2 ≤ y → moved es r.2 ≤ moved es y := by
  obtain ⟨hle, hr⟩ := hr
  refine ⟨fun y => moved_le_moved h fun e he => ?_, fun y => moved_le_moved h fun e he => ?_⟩
  · rcases hr e he with rfl | hfront | hbehind
    · exact .inl le_rfl
    · exact .inl (hle.trans hfront)
    · exact .inr hbehind
  · rcases hr e he with rfl | hfront | hbehind
    · exact .inr le_rfl
    · exact .inl hfront
    · exact .inr (hbehind.trans hle)

/-- The ranges that edits write are where their places move to. -/
lemma added_eq_map (h : Ordered n pos es) :
    added 0 0 es = es.map fun e => movedRange es e.span := by
  induction es generalizing pos with
  | nil => rfl
  | cons e es ih =>
    obtain ⟨-, hlt, -, hes⟩ := h
    have hfirst := moved_of_le hes (le_refl e.stop)
    rw [added, added_shift e.new.length (e.stop - e.start) hes (Nat.zero_le _), ih hes, map_map,
      map_cons]
    congr 1
    · rw [movedRange, Edit.span, moved_cons_of_lt hlt, moved, if_pos le_rfl, hfirst]
      refine Prod.ext ?_ ?_ <;> dsimp only <;> omega
    · refine map_congr_left fun d hd => ?_
      obtain ⟨hstart, hlt', -⟩ := hes.pairwise.2 d hd
      obtain ⟨a, ha, ha'⟩ := moved_cons_of_le hes hlt hstart
      obtain ⟨b, hb, hb'⟩ := moved_cons_of_le hes hlt (hstart.trans hlt'.le)
      have hle := ((hes.whole hd).moved_le hes).1 d.stop hlt'.le
      simp only [movedRange, Edit.span, Function.comp_apply, ha, ha', hb, hb'] at hle ⊢
      refine Prod.ext ?_ ?_ <;> dsimp only <;> omega

end

end Rewriting
