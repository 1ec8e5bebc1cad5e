import Mathlib.Data.List.DropRight
import Mathlib.Tactic

/-!
# Joining and cutting

Some parts are joined with a line end behind each of them, and the text is cut at some positions.
Pieces that are blank are dropped, and the line ends behind the others are stripped. This gives back
the parts exactly when the text is cut in front of every part but the first, and nowhere else but
between a part and the line end behind it.
-/

open List

namespace Framing

variable {α : Type*}

/-- What lies between some positions of a text, from one position on. -/
def pieces (t : List α) : ℕ → List ℕ → List (List α)
  | pos, [] => [t.drop pos]
  | pos, c :: cs => (t.take c).drop pos :: pieces t c cs

/-- Where the pieces of a text begin. -/
def places : ℕ → List (List α) → List ℕ
  | _, [] => []
  | pos, p :: ps => pos :: places (pos + p.length) ps

/-- Where parts begin that have a line end behind them. -/
def starts : ℕ → List (List α) → List ℕ
  | _, [] => []
  | pos, e :: es => pos :: starts (pos + e.length + 1) es

/-- Where their line ends are. -/
def stops : ℕ → List (List α) → List ℕ
  | _, [] => []
  | pos, e :: es => (pos + e.length) :: stops (pos + e.length + 1) es

/-- The line end that parts are joined with, what is stripped behind a piece, and what a blank piece
is made of. -/
structure Layout (α : Type*) where
  lineEnd : α
  strips : α → Bool
  space : α → Bool
  strips_lineEnd : strips lineEnd = true
  space_of_strips : ∀ a, strips a = true → space a = true

/-- A text is cut in front of every part but the first, and nowhere else but in front of a line
end. -/
structure CutsBetween (pos : ℕ) (es : List (List α)) (cs : List ℕ) : Prop where
  each : ∀ s ∈ starts pos es, s ∈ pos :: cs
  only : ∀ c ∈ cs, c ∈ starts pos es ∨ c ∈ stops pos es

namespace Layout

variable (L : Layout α)

/-- The parts with a line end behind each. -/
def join (es : List (List α)) : List α := es.flatMap (· ++ [L.lineEnd])

/-- The pieces that are not blank, without the line ends behind them. -/
def keep (ps : List (List α)) : List (List α) :=
  (ps.filter fun p => !p.all L.space).map fun p => p.rdropWhile L.strips

/-- A part that can be given back: it is not blank, and nothing is stripped behind it. -/
def Stands (e : List α) : Prop := e.all L.space = false ∧ e.rdropWhile L.strips = e

@[simp] lemma join_nil : L.join [] = [] := rfl

@[simp] lemma join_cons (e : List α) (es : List (List α)) :
    L.join (e :: es) = e ++ L.lineEnd :: L.join es := by
  simp [join]

@[simp] lemma keep_nil : L.keep [] = [] := rfl

variable {e p : List α}

lemma keep_cons_blank (h : p.all L.space = true) (ps : List (List α)) :
    L.keep (p :: ps) = L.keep ps := by
  rw [keep, filter_cons_of_neg (by simp [h]), keep]

lemma keep_cons (h : p.all L.space = false) (ps : List (List α)) :
    L.keep (p :: ps) = p.rdropWhile L.strips :: L.keep ps := by
  rw [keep, filter_cons_of_pos (by simp [h]), map_cons, keep]

lemma space_lineEnd : L.space L.lineEnd = true := L.space_of_strips _ L.strips_lineEnd

/-- What stands before its line end is kept without it. -/
lemma Stands.keep_cons_lineEnd {L : Layout α} (h : L.Stands e) (ps : List (List α)) :
    L.keep ((e ++ [L.lineEnd]) :: ps) = e :: L.keep ps := by
  have hblank : (e ++ [L.lineEnd]).all L.space = false := by simp [h.1]
  rw [L.keep_cons hblank, rdropWhile_concat_pos _ _ _ L.strips_lineEnd, h.2]

lemma Stands.keep_cons {L : Layout α} (h : L.Stands e) (ps : List (List α)) :
    L.keep (e :: ps) = e :: L.keep ps := by
  rw [L.keep_cons h.1, h.2]

/-- What is kept can be given back. -/
lemma stands_of_mem_keep {L : Layout α} {ps : List (List α)} (h : e ∈ L.keep ps) : L.Stands e := by
  obtain ⟨p, hp, rfl⟩ := mem_map.1 h
  refine ⟨Bool.eq_false_iff.2 fun hall => ?_, rdropWhile_idempotent _ _⟩
  have hp : p.all L.space = false := by simpa using (mem_filter.1 hp).2
  have htail : (p.rtakeWhile L.strips).all L.space = true :=
    all_eq_true.2 fun a ha => L.space_of_strips a (mem_rtakeWhile_imp ha)
  rw [← rdropWhile_append_rtakeWhile (p := L.strips) (l := p), all_append, hall, htail] at hp
  cases hp

end Layout

/-! ### The pieces of a text -/

section

variable {t : List α} {pos : ℕ} {cs : List ℕ}

lemma flatten_pieces (h : (pos :: cs).Pairwise (· < ·)) (hbound : ∀ c ∈ cs, c < t.length) :
    (pieces t pos cs).flatten = t.drop pos := by
  induction cs generalizing pos with
  | nil => simp [pieces]
  | cons c cs ih =>
    obtain ⟨hpos, hcs⟩ := pairwise_cons.1 h
    have hc := hbound c mem_cons_self
    have hlen : pos ≤ (t.take c).length := by
      rw [length_take, min_eq_left hc.le]
      exact (hpos c mem_cons_self).le
    rw [pieces, flatten_cons, ih hcs fun d hd => hbound d (mem_cons_of_mem _ hd),
      ← drop_append_of_le_length hlen, take_append_drop]

lemma places_pieces (h : (pos :: cs).Pairwise (· < ·)) (hbound : ∀ c ∈ cs, c < t.length) :
    places pos (pieces t pos cs) = pos :: cs := by
  induction cs generalizing pos with
  | nil => rfl
  | cons c cs ih =>
    obtain ⟨hpos, hcs⟩ := pairwise_cons.1 h
    have hc := hbound c mem_cons_self
    have hend : pos + ((t.take c).drop pos).length = c := by
      have := hpos c mem_cons_self
      rw [length_drop, length_take, min_eq_left hc.le]
      omega
    rw [pieces, places, hend, ih hcs fun d hd => hbound d (mem_cons_of_mem _ hd)]

lemma ne_nil_of_mem_pieces (h : (pos :: cs).Pairwise (· < ·))
    (hbound : ∀ c ∈ pos :: cs, c < t.length) : ∀ p ∈ pieces t pos cs, p ≠ [] := by
  induction cs generalizing pos with
  | nil =>
    intro p hp
    rw [mem_singleton.1 hp, ← length_pos_iff, length_drop]
    exact Nat.sub_pos_of_lt (hbound pos mem_cons_self)
  | cons c cs ih =>
    obtain ⟨hpos, hcs⟩ := pairwise_cons.1 h
    intro p hp
    rcases mem_cons.1 hp with rfl | hp
    · have hlt := hpos c mem_cons_self
      have hc := hbound c (mem_cons_of_mem _ mem_cons_self)
      rw [← length_pos_iff, length_drop, length_take, min_eq_left hc.le]
      omega
    · exact ih hcs (fun d hd => hbound d (mem_cons_of_mem _ hd)) p hp

end

lemma keep_pieces_concat (L : Layout α) {t : List α} {pos : ℕ} {cs : List ℕ} (hpos : pos ≤ t.length)
    (hcs : ∀ c ∈ cs, c ≤ t.length) :
    L.keep (pieces (t ++ [L.lineEnd]) pos cs) = L.keep (pieces t pos cs) := by
  induction cs generalizing pos with
  | nil =>
    rw [pieces, pieces, drop_append_of_le_length hpos]
    cases hblank : (t.drop pos).all L.space with
    | true =>
      rw [L.keep_cons_blank (by simp [hblank, L.space_lineEnd]), L.keep_cons_blank hblank]
    | false =>
      rw [L.keep_cons (by simp [hblank]), L.keep_cons hblank,
        rdropWhile_concat_pos _ _ _ L.strips_lineEnd]
  | cons c cs ih =>
    obtain ⟨hc, hcs⟩ := forall_mem_cons.1 hcs
    have hrest := ih hc hcs
    rw [pieces, pieces, take_append_of_le_length hc]
    cases hblank : ((t.take c).drop pos).all L.space with
    | true => rw [L.keep_cons_blank hblank, L.keep_cons_blank hblank, hrest]
    | false => rw [L.keep_cons hblank, L.keep_cons hblank, hrest]

/-! ### Cuts between the parts give them back -/

variable {s : ℕ}

lemma starts_ge {pos : ℕ} {es : List (List α)} (h : s ∈ starts pos es) : pos ≤ s := by
  induction es generalizing pos with
  | nil => cases h
  | cons e es ih =>
    rcases mem_cons.1 h with rfl | h
    · exact le_rfl
    · have := ih h
      omega

lemma stops_ge {pos : ℕ} {es : List (List α)} (h : s ∈ stops pos es) : pos ≤ s := by
  induction es generalizing pos with
  | nil => cases h
  | cons e es ih =>
    rcases mem_cons.1 h with rfl | h
    · exact Nat.le_add_right _ _
    · have := ih h
      omega

section

variable {q pos : ℕ} {e : List α} {es : List (List α)} {cs : List ℕ}

/-- The cuts behind a line end: none behind the last one, and otherwise the next part is where the
next cut is. -/
lemma cuts_behind (hcs : (q :: cs).Pairwise (· < ·)) (heach : ∀ s ∈ starts (q + 1) es, s ∈ cs)
    (honly : ∀ c ∈ cs, c ∈ starts (q + 1) es ∨ c ∈ stops (q + 1) es) :
    (es = [] ∧ cs = []) ∨ es ≠ [] ∧ ∃ ds, cs = (q + 1) :: ds ∧ CutsBetween (q + 1) es ds := by
  cases es with
  | nil =>
    refine .inl ⟨rfl, eq_nil_iff_forall_not_mem.2 fun c hc => ?_⟩
    rcases honly c hc with h | h
    · cases h
    · cases h
  | cons e es =>
    have hmem := heach (q + 1) mem_cons_self
    cases cs with
    | nil => cases hmem
    | cons d ds =>
      obtain ⟨hq, hds⟩ := pairwise_cons.1 hcs
      have hd := hq d mem_cons_self
      obtain rfl : d = q + 1 := by
        rcases mem_cons.1 hmem with h | h
        · exact h.symm
        · have := (pairwise_cons.1 hds).1 _ h
          omega
      exact .inr ⟨cons_ne_nil _ _, ds, rfl, heach, fun c hc => honly c (mem_cons_of_mem _ hc)⟩

/-- Cuts between some parts: there may be one in front of the first line end, and the others are
behind it. -/
lemma CutsBetween.cons_cases (h : CutsBetween pos (e :: es) cs)
    (hcs : (pos :: cs).Pairwise (· < ·)) :
    ∃ ds, (cs = ds ∨ cs = (pos + e.length) :: ds) ∧ ((es = [] ∧ ds = []) ∨
      es ≠ [] ∧ ∃ later, ds = (pos + e.length + 1) :: later ∧
      CutsBetween (pos + e.length + 1) es later) := by
  obtain ⟨hpos, hsorted⟩ := pairwise_cons.1 hcs
  have heach : ∀ s ∈ starts (pos + e.length + 1) es, s ∈ cs := by
    intro s hs
    have hge := starts_ge hs
    rcases mem_cons.1 (h.each s (mem_cons_of_mem _ hs)) with rfl | hs
    · omega
    · exact hs
  have honly : ∀ c ∈ cs, c ≠ pos + e.length →
      c ∈ starts (pos + e.length + 1) es ∨ c ∈ stops (pos + e.length + 1) es := by
    intro c hc hne
    rcases h.only c hc with hs | hs
    · rcases mem_cons.1 hs with rfl | hs
      · exact absurd (hpos c hc) (lt_irrefl _)
      · exact .inl hs
    · rcases mem_cons.1 hs with rfl | hs
      · exact absurd rfl hne
      · exact .inr hs
  have hbehind : ∀ c ∈ cs, c ≠ pos + e.length → pos + e.length < c := by
    intro c hc hne
    rcases honly c hc hne with hs | hs
    · exact starts_ge hs
    · exact stops_ge hs
  cases cs with
  | nil => exact ⟨[], .inl rfl, cuts_behind (pairwise_singleton _ _) heach fun c hc => nomatch hc⟩
  | cons c ds =>
    obtain ⟨hc, hds⟩ := pairwise_cons.1 hsorted
    by_cases hfirst : c = pos + e.length
    · subst hfirst
      refine ⟨ds, .inr rfl, cuts_behind hsorted (fun s hs => ?_) fun d hd => ?_⟩
      · rcases mem_cons.1 (heach s hs) with rfl | hs'
        · exact absurd (starts_ge hs) (by omega)
        · exact hs'
      · exact honly d (mem_cons_of_mem _ hd) (hc d hd).ne'
    · have hall : ∀ d ∈ c :: ds, pos + e.length < d := by
        have hlt := hbehind c mem_cons_self hfirst
        exact forall_mem_cons.2 ⟨hlt, fun d hd => hlt.trans (hc d hd)⟩
      refine ⟨c :: ds, .inl rfl, cuts_behind (pairwise_cons.2 ⟨hall, hsorted⟩) heach fun d hd => ?_⟩
      exact honly d hd (hall d hd).ne'

/-- Cut between its parts, a text gives them back. -/
lemma CutsBetween.keep_pieces {L : Layout α} {t : List α} (h : CutsBetween pos es cs)
    (hcs : (pos :: cs).Pairwise (· < ·)) (hes : es ≠ []) (hstands : ∀ e ∈ es, L.Stands e)
    (ht : t.drop pos = L.join es) : L.keep (pieces t pos cs) = es := by
  induction es generalizing pos cs with
  | nil => exact absurd rfl hes
  | cons e es ih =>
    obtain ⟨he, hstands⟩ := forall_mem_cons.1 hstands
    rw [L.join_cons] at ht
    have hpart : (t.take (pos + e.length)).drop pos = e := by
      rw [drop_take, ht, Nat.add_sub_cancel_left, take_left' rfl]
    have hline : (t.take (pos + e.length + 1)).drop pos = e ++ [L.lineEnd] := by
      rw [drop_take, ht, add_assoc, Nat.add_sub_cancel_left, take_length_add_append]
      rfl
    have hend : t.drop (pos + e.length) = L.lineEnd :: L.join es := by
      rw [← drop_drop, ht, drop_left' rfl]
    have hblank : (t.take (pos + e.length + 1)).drop (pos + e.length) = [L.lineEnd] := by
      rw [drop_take, hend, Nat.add_sub_cancel_left]
      rfl
    have hrest : t.drop (pos + e.length + 1) = L.join es := by
      rw [← drop_drop, hend]
      rfl
    have hspace : [L.lineEnd].all L.space = true := by simp [L.space_lineEnd]
    obtain ⟨ds, hfront, hbehind⟩ := h.cons_cases hcs
    have hsorted : ∀ later, ds = (pos + e.length + 1) :: later → ds.Pairwise (· < ·) := by
      intro later _
      rcases hfront with rfl | rfl
      · exact (pairwise_cons.1 hcs).2
      · exact (pairwise_cons.1 (pairwise_cons.1 hcs).2).2
    rcases hbehind with ⟨rfl, rfl⟩ | ⟨hne, later, rfl, hlater⟩
    · rcases hfront with rfl | rfl
      · rw [pieces, ht, L.join_nil, he.keep_cons_lineEnd, L.keep_nil]
      · rw [pieces, pieces, hpart, hend, L.join_nil, he.keep_cons, L.keep_cons_blank hspace,
          L.keep_nil]
    · have hkept := ih hlater (hsorted later rfl) hne hstands hrest
      rcases hfront with rfl | rfl
      · rw [pieces, hline, he.keep_cons_lineEnd, hkept]
      · rw [pieces, pieces, hpart, hblank, he.keep_cons, L.keep_cons_blank hspace, hkept]

end

/-! ### Only such cuts do -/

/-- Pieces that are the parts and nothing but line ends besides. -/
inductive Splits (b : α) : List (List α) → List (List α) → Prop where
  | nil : Splits b [] []
  | blank (k : ℕ) {ps es : List (List α)} (h : Splits b ps es) : Splits b (replicate k b :: ps) es
  | part (e : List α) (k : ℕ) {ps es : List (List α)} (h : Splits b ps es) :
      Splits b ((e ++ replicate k b) :: ps) (e :: es)

lemma Splits.exists_lead {b : α} {e : List α} {ps es : List (List α)} (h : Splits b ps (e :: es)) :
    ∃ m rest, ps.flatten = replicate m b ++ (e ++ rest) := by
  generalize hes : e :: es = parts at h
  induction h with
  | nil => cases hes
  | blank k _ ih =>
    obtain ⟨m, rest, hrest⟩ := ih hes
    refine ⟨k + m, rest, ?_⟩
    rw [flatten_cons, hrest, ← append_assoc, replicate_append_replicate]
  | part e k _ _ =>
    cases hes
    exact ⟨0, _, by rw [flatten_cons, append_assoc]; rfl⟩

section

variable [DecidableEq α] {L : Layout α} {ps es : List (List α)}

lemma count_keep_le (a : α) (ps : List (List α)) :
    (L.keep ps).flatten.count a ≤ ps.flatten.count a := by
  induction ps with
  | nil => exact le_rfl
  | cons p ps ih =>
    rw [flatten_cons, count_append]
    cases hp : p.all L.space with
    | true =>
      rw [L.keep_cons_blank hp]
      omega
    | false =>
      have hle := ( rdropWhile_prefix L.strips (l := p)).sublist.count_le a
      rw [L.keep_cons hp, flatten_cons, count_append]
      omega

variable {b : α} {t : List α} {j : ℕ}

lemma eq_replicate_of_count {l : List α} (h : ∀ a ≠ b, l.count a = 0) :
    l = replicate l.length b := by
  refine eq_replicate_iff.2 ⟨rfl, fun a ha => ?_⟩
  by_contra hne
  exact count_eq_zero.1 (h a hne) ha

/-- When nothing but line ends is lost, the pieces are the kept parts and line ends. -/
lemma splits_keep (h : ∀ a ≠ L.lineEnd, (L.keep ps).flatten.count a = ps.flatten.count a) :
    Splits L.lineEnd ps (L.keep ps) := by
  induction ps with
  | nil => exact .nil
  | cons p ps ih =>
    simp only [flatten_cons, count_append] at h
    cases hp : p.all L.space with
    | true =>
      rw [L.keep_cons_blank hp] at h ⊢
      have hnone : ∀ a ≠ L.lineEnd, p.count a = 0 ∧
          (L.keep ps).flatten.count a = ps.flatten.count a := by
        intro a ha
        have hle := count_keep_le (L := L) a ps
        have hsum := h a ha
        omega
      rw [eq_replicate_of_count fun a ha => (hnone a ha).1]
      exact .blank _ (ih fun a ha => (hnone a ha).2)
    | false =>
      have hsplit := rdropWhile_append_rtakeWhile (p := L.strips) (l := p)
      rw [L.keep_cons hp] at h ⊢
      have hnone : ∀ a ≠ L.lineEnd, (p.rtakeWhile L.strips).count a = 0 ∧
          (L.keep ps).flatten.count a = ps.flatten.count a := by
        intro a ha
        have hle := count_keep_le (L := L) a ps
        have hsum := h a ha
        have hcount := congrArg (count a) hsplit
        rw [count_append] at hcount
        rw [flatten_cons, count_append] at hsum
        omega
      rw [eq_replicate_of_count fun a ha => (hnone a ha).1] at hsplit
      have hpart := Splits.part (p.rdropWhile L.strips) (p.rtakeWhile L.strips).length
        (ih fun a ha => (hnone a ha).2)
      rwa [hsplit] at hpart

lemma count_join {a : α} (ha : a ≠ L.lineEnd) (es : List (List α)) :
    (L.join es).count a = es.flatten.count a := by
  induction es with
  | nil => rfl
  | cons e es ih =>
    rw [L.join_cons, flatten_cons, count_append, count_append, count_cons_of_ne ha.symm, ih]

/-- A part that is not made of line ends alone can be behind any number of them in one way only. -/
lemma replicate_append_inj {e s : List α} {m n : ℕ} (he : ∃ a ∈ e, a ≠ b)
    (h : replicate m b ++ (e ++ s) = replicate n b ++ (e ++ t)) : m = n ∧ s = t := by
  -- the line ends in front of the part and at its beginning are as many on both sides
  have hlead : ∀ u, (e ++ u).takeWhile (· = b) = e.takeWhile (· = b) := by
    intro u
    rw [takeWhile_append, if_neg]
    intro hlen
    obtain ⟨a, ha, hne⟩ := he
    rw [← ( takeWhile_prefix (· = b)).eq_of_length hlen] at ha
    exact hne (by simpa using mem_takeWhile_imp ha)
  have hcount : ∀ k u, ((replicate k b ++ (e ++ u)).takeWhile (· = b)).length =
      k + (e.takeWhile (· = b)).length := by
    intro k u
    rw [takeWhile_append_of_pos fun a ha => decide_eq_true (eq_of_mem_replicate ha), length_append,
      length_replicate, hlead]
  have hmn : m = n := by
    have := congrArg (fun l => (l.takeWhile (· = b)).length) h
    simp only [hcount] at this
    omega
  subst hmn
  exact ⟨rfl, append_cancel_left (append_cancel_left h)⟩

/-- There are not more line ends in front of the pieces than in front of the parts. -/
lemma Splits.lead_le (h : Splits L.lineEnd ps es) (hes : ∀ e ∈ es, ∃ a ∈ e, a ≠ L.lineEnd) {k : ℕ}
    (hflat : replicate k L.lineEnd ++ ps.flatten = replicate j L.lineEnd ++ L.join es) : k ≤ j := by
  cases es with
  | nil =>
    have hlen := congrArg length hflat
    simp only [length_append, length_replicate, L.join_nil, length_nil] at hlen
    omega
  | cons e es =>
    obtain ⟨m, rest, hrest⟩ := h.exists_lead
    rw [hrest, ← append_assoc, replicate_append_replicate, L.join_cons] at hflat
    have hmj := (replicate_append_inj (hes e mem_cons_self) hflat).1
    omega

/-- Where the pieces begin: in front of each part, and at most in front of a line end besides. The
text may begin with the line end of a part before it. -/
lemma Splits.places (h : Splits L.lineEnd ps es) (hps : ∀ p ∈ ps, p ≠ [])
    (hes : ∀ e ∈ es, ∃ a ∈ e, a ≠ L.lineEnd) {q : ℕ} (hj : j ≤ 1)
    (hflat : ps.flatten = replicate j L.lineEnd ++ L.join es) :
    (∀ s ∈ starts (q + j) es, s ∈ Framing.places q ps) ∧ ∀ s ∈ Framing.places q ps,
      (j = 1 ∧ s = q) ∨ s ∈ starts (q + j) es ∨ s ∈ stops (q + j) es := by
  induction h generalizing j q with
  | nil => exact ⟨fun s hs => absurd hs not_mem_nil, fun s hs => absurd hs not_mem_nil⟩
  | blank k h ih =>
    have hpos : k ≠ 0 := by
      rintro rfl
      exact hps _ mem_cons_self rfl
    have hle := h.lead_le hes hflat
    obtain rfl : k = 1 := by omega
    obtain rfl : j = 1 := by omega
    have hrest := ih (fun p hp => hps p (mem_cons_of_mem _ hp)) hes (j := 0) (q := q + 1) (by omega)
      (append_cancel_left hflat)
    refine ⟨fun s hs => mem_cons_of_mem _ (hrest.1 s hs), fun s hs => ?_⟩
    rcases mem_cons.1 hs with rfl | hs
    · exact .inl ⟨rfl, rfl⟩
    · rcases hrest.2 s hs with ⟨h₀, _⟩ | hs
      · cases h₀
      · exact .inr hs
  | part e k h ih =>
    rename_i ps es
    obtain ⟨he, hes'⟩ := forall_mem_cons.1 hes
    rw [flatten_cons, append_assoc, L.join_cons] at hflat
    obtain ⟨hj₀, hline⟩ := replicate_append_inj (m := 0) he hflat
    subst hj₀
    have hline' : replicate k L.lineEnd ++ ps.flatten = replicate 1 L.lineEnd ++ L.join es := hline
    have hk := h.lead_le hes' hline'
    -- the line end behind the part is cut off from it, or it is not
    obtain ⟨hflat', hplaces⟩ : ps.flatten = replicate (1 - k) L.lineEnd ++ L.join es ∧
        q + e.length + k + (1 - k) = q + e.length + 1 := by
      refine ⟨?_, by omega⟩
      rcases Nat.le_one_iff_eq_zero_or_eq_one.1 hk with rfl | rfl
      · exact hline'
      · exact append_cancel_left hline'
    have hrest := ih (fun p hp => hps p (mem_cons_of_mem _ hp)) hes' (j := 1 - k)
        (q := q + e.length + k)
      (by omega) hflat'
    rw [hplaces] at hrest
    rw [Framing.places, length_append, length_replicate, ← add_assoc, Nat.add_zero, starts, stops]
    refine ⟨fun s hs => ?_, fun s hs => ?_⟩
    · rcases mem_cons.1 hs with rfl | hs
      · exact mem_cons_self
      · exact mem_cons_of_mem _ (hrest.1 s hs)
    · rcases mem_cons.1 hs with rfl | hs
      · exact .inr (.inl mem_cons_self)
      · rcases hrest.2 s hs with ⟨hk₀, rfl⟩ | hs | hs
        · obtain rfl : k = 0 := by omega
          exact .inr (.inr mem_cons_self)
        · exact .inr (.inl (mem_cons_of_mem _ hs))
        · exact .inr (.inr (mem_cons_of_mem _ hs))

/-- Joined parts are given back exactly by the cuts between them, if they can be given back at
all. -/
theorem keep_pieces_iff (L : Layout α) {pos : ℕ} {cs : List ℕ} (ht : t.drop pos = L.join es)
    (hes : es ≠ []) (hcs : (pos :: cs).Pairwise (· < ·)) (hbound : ∀ c ∈ pos :: cs, c < t.length) :
    L.keep (pieces t pos cs) = es ↔ (∀ e ∈ es, L.Stands e) ∧ CutsBetween pos es cs := by
  refine ⟨fun h => ?_, fun ⟨hstands, hcuts⟩ => hcuts.keep_pieces hcs hes hstands ht⟩
  have hflat := flatten_pieces hcs fun c hc => hbound c (mem_cons_of_mem _ hc)
  have hplaces := places_pieces hcs fun c hc => hbound c (mem_cons_of_mem _ hc)
  have hstands : ∀ e ∈ es, L.Stands e := by
    rw [← h]
    exact fun e => Layout.stands_of_mem_keep
  have hsplits : Splits L.lineEnd (pieces t pos cs) es := by
    have hlost : ∀ a ≠ L.lineEnd,
        (L.keep (pieces t pos cs)).flatten.count a = (pieces t pos cs).flatten.count a := by
      intro a ha
      rw [h, hflat, ht, count_join ha]
    have hkept := splits_keep hlost
    rwa [h] at hkept
  have hnl : ∀ e ∈ es, ∃ a ∈ e, a ≠ L.lineEnd := by
    intro e he
    by_contra hall
    push Not at hall
    have hspace : e.all L.space = true :=
      all_eq_true.2 fun a ha => by rw [hall a ha, L.space_lineEnd]
    rw [(hstands e he).1] at hspace
    cases hspace
  obtain ⟨heach, honly⟩ := hsplits.places (ne_nil_of_mem_pieces hcs hbound) hnl (j := 0) (q := pos)
      (by omega)
    (hflat.trans ht)
  rw [hplaces] at heach honly
  refine ⟨hstands, heach, fun c hc => ?_⟩
  rcases honly c (mem_cons_of_mem _ hc) with ⟨h₀, _⟩ | hc
  · cases h₀
  · exact hc

end

end Framing
