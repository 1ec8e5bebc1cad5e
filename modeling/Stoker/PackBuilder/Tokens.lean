import Stoker.PackBuilder.Residuals

/-!
# What the residual scan sees

`residual_regex` looks for whole tokens and goes on behind each one it finds. So a value that stands
in a text as a whole token is found, unless the scan is in the middle of another one there, or takes
a longer one that begins at the same place.
-/

open List

namespace Stoker

open Rewriting

/-- A value stands at a place of a text as a whole token; the flag says that a letter or digit
stands in front of the text. -/
def tokenAt : Bool → Text → ℕ → Text → Prop
  | inWord, t, 0, w => inWord = false ∧ w <+: t ∧ endsToken (t.drop w.length) = true
  | _, [], _ + 1, _ => False
  | _, c :: t, i + 1, w => tokenAt c.isAlphanum t i w

variable {w t v : Text} {inWord : Bool} {i : ℕ} {values : List Text}

lemma tokenAt_zero :
    tokenAt inWord t 0 w ↔ inWord = false ∧ w <+: t ∧ endsToken (t.drop w.length) = true := by
  cases t <;> rfl

instance tokenAt.decidable : (inWord : Bool) → (t : Text) → (i : ℕ) → (w : Text) →
    Decidable (tokenAt inWord t i w)
  | _, _, 0, _ => decidable_of_iff _ tokenAt_zero.symm
  | _, [], _ + 1, _ => isFalse id
  | _, c :: t, i + 1, w => tokenAt.decidable c.isAlphanum t i w

/-- A token is what stands there. -/
lemma tokenAt.isPrefix (h : tokenAt inWord t i w) :
    w <+: t.drop i := by
  induction i generalizing inWord t with
  | zero => exact (tokenAt_zero.1 h).2.1
  | succ i ih =>
    cases t with
    | nil => cases h
    | cons c t => exact ih h

/-! ### The scan -/

lemma residualAt_ends (h : residualAt values t = some v) :
    endsToken (t.drop v.length) = true := by
  have hmem := argmax_mem h
  simp only [mem_filter, Bool.and_eq_true, decide_eq_true_eq] at hmem
  exact hmem.2.2

/-- Where a value stands, one at least as long is taken. -/
lemma residualAt_of_token (hw : w ∈ values) (hne : w ≠ [])
    (hpre : w <+: t) (hend : endsToken (t.drop w.length) = true) :
    ∃ v, residualAt values t = some v ∧ w.length ≤ v.length := by
  have hmem : w ∈ values.filter fun v => v ≠ [] && v.isPrefixOf t &&
      endsToken (t.drop v.length) := by
    simp only [mem_filter, Bool.and_eq_true, decide_eq_true_eq]
    exact ⟨hw, ⟨hne, isPrefixOf_iff_prefix.2 hpre⟩, hend⟩
  cases hv : residualAt values t with
  | none =>
    rw [residualAt, argmax_eq_none] at hv
    rw [hv] at hmem
    cases hmem
  | some v => exact ⟨v, rfl, le_of_mem_argmax hmem hv⟩

lemma residualScan_tokenAt (values : List Text) (skip : ℕ) (inWord : Bool) (pos : ℕ) (t : Text) :
    ∀ h ∈ residualScan values skip inWord pos t, h.value ∈ values ∧ h.value ≠ [] ∧
      h.stop = h.start + h.value.length ∧
        ∃ i, h.start = pos + i ∧ skip ≤ i ∧ tokenAt inWord t i h.value := by
  induction t generalizing skip inWord pos with
  | nil => exact fun h hh => absurd hh not_mem_nil
  | cons c t ih =>
    -- a hit in the rest of the text
    have hlater : ∀ skip' h, h ∈ residualScan values skip' c.isAlphanum (pos + 1) t →
        skip ≤ skip' + 1 →
        h.value ∈ values ∧ h.value ≠ [] ∧ h.stop = h.start + h.value.length ∧
          ∃ i, h.start = pos + i ∧ skip ≤ i ∧ tokenAt inWord (c :: t) i h.value := by
      intro skip' h hh hskip
      obtain ⟨hmem, hne, hstop, i, hi, hle, htok⟩ := ih skip' c.isAlphanum (pos + 1) h hh
      exact ⟨hmem, hne, hstop, i + 1, by omega, by omega, htok⟩
    intro h hh
    cases skip with
    | succ skip => exact hlater skip h hh le_rfl
    | zero =>
      rw [residualScan] at hh
      cases hv : if inWord then none else residualAt values (c :: t) with
      | none =>
        rw [hv] at hh
        exact hlater 0 h hh (by omega)
      | some v =>
        rw [hv] at hh
        obtain ⟨hword, hat⟩ : inWord = false ∧ residualAt values (c :: t) = some v := by
          split_ifs at hv with hword
          exact ⟨by simpa using hword, hv⟩
        obtain ⟨hmem, hne, hpre⟩ := residualAt_some hat
        rcases mem_cons.1 hh with rfl | hh
        · exact ⟨hmem, hne, rfl, 0, rfl, le_rfl, tokenAt_zero.2 ⟨hword, hpre, residualAt_ends hat⟩⟩
        · exact hlater (v.length - 1) h hh (by omega)

lemma residualScan_covers (hw : w ∈ values) (hne : w ≠ []) (skip : ℕ)
    (inWord : Bool) (pos : ℕ) (t : Text) (hskip : skip ≤ i) (htok : tokenAt inWord t i w) :
    ∃ h ∈ residualScan values skip inWord pos t, h.start ≤ pos + i ∧ pos + i < h.stop ∧
      (h.start = pos + i → w.length ≤ h.value.length) := by
  induction t generalizing skip inWord pos i with
  | nil =>
    cases i with
    | zero => exact absurd (prefix_nil.1 (tokenAt_zero.1 htok).2.1) hne
    | succ i => cases htok
  | cons c t ih =>
    have hlater : ∀ skip' i', i = i' + 1 → skip' ≤ i' →
        ∃ h ∈ residualScan values skip' c.isAlphanum (pos + 1) t, h.start ≤ pos + i ∧
          pos + i < h.stop ∧ (h.start = pos + i → w.length ≤ h.value.length) := by
      intro skip' i' hi hskip'
      subst hi
      obtain ⟨h, hh, hrest⟩ := ih skip' c.isAlphanum (pos + 1) hskip' htok
      refine ⟨h, hh, ?_⟩
      have heq : pos + 1 + i' = pos + (i' + 1) := by omega
      rwa [heq] at hrest
    cases skip with
    | succ skip =>
      obtain ⟨i', rfl⟩ : ∃ i', i = i' + 1 := ⟨i - 1, by omega⟩
      exact hlater skip i' rfl (by omega)
    | zero =>
      rw [residualScan]
      cases hv : if inWord then none else residualAt values (c :: t) with
      | none =>
        cases i with
        | zero =>
          obtain ⟨hword, hpre, hend⟩ := tokenAt_zero.1 htok
          obtain ⟨v, hat, _⟩ := residualAt_of_token hw hne hpre hend
          rw [hword, if_neg Bool.false_ne_true, hat] at hv
          cases hv
        | succ i' => exact hlater 0 i' rfl (Nat.zero_le _)
      | some v =>
        by_cases hi : i < v.length
        · refine ⟨⟨pos, pos + v.length, v⟩, mem_cons_self, by dsimp only; omega,
            by dsimp only; omega, fun heq => ?_⟩
          obtain rfl : i = 0 := by
            dsimp only at heq
            omega
          obtain ⟨hword, hpre, hend⟩ := tokenAt_zero.1 htok
          obtain ⟨v', hat, hle⟩ := residualAt_of_token hw hne hpre hend
          rw [hword, if_neg Bool.false_ne_true, hat] at hv
          cases hv
          exact hle
        · have hat : residualAt values (c :: t) = some v := by
            split_ifs at hv
            exact hv
          have hpos : 0 < v.length := length_pos_of_ne_nil (residualAt_some hat).2.1
          obtain ⟨i', rfl⟩ : ∃ i', i = i' + 1 := ⟨i - 1, by omega⟩
          obtain ⟨h, hh, hrest⟩ := hlater (v.length - 1) i' rfl (by omega)
          exact ⟨h, mem_cons_of_mem _ hh, hrest⟩

/-! ### Masks -/

lemma mergeInto_clear {s e : ℕ} (hse : s < e) {cur : ℕ × ℕ} {rs : List (ℕ × ℕ)}
    (hcur : cur.2 ≤ s ∨ e ≤ cur.1) (hrs : ∀ r ∈ rs, r.2 ≤ s ∨ e ≤ r.1) :
    ∀ r ∈ mergeInto cur rs, r.2 ≤ s ∨ e ≤ r.1 := by
  induction rs generalizing cur with
  | nil =>
    intro r hr
    obtain rfl := mem_singleton.1 hr
    exact hcur
  | cons q rs ih =>
    have hq := hrs q mem_cons_self
    have hrest := fun r hr => hrs r (mem_cons_of_mem _ hr)
    rw [mergeInto]
    split_ifs with hle
    · refine ih ?_ hrest
      omega
    · intro r hr
      rcases mem_cons.1 hr with rfl | hr
      · exact hcur
      · exact ih hq hrest r hr

lemma Hit.not_masked_of_clear {masked : List (ℕ × ℕ)} {h : Hit} (hlt : h.start < h.stop)
    (hclear : ∀ r ∈ masked, r.2 ≤ h.start ∨ h.stop ≤ r.1) :
    h.isMasked (sortRanges masked) = false := by
  have hall : ∀ r ∈ sortRanges masked, r.2 ≤ h.start ∨ h.stop ≤ r.1 := by
    have hsorted : ∀ r ∈ masked.insertionSort RangeLe, r.2 ≤ h.start ∨ h.stop ≤ r.1 :=
      fun r hr => hclear r ((mem_insertionSort RangeLe).1 hr)
    unfold sortRanges
    cases hl : masked.insertionSort RangeLe with
    | nil => exact fun r hr => absurd hr not_mem_nil
    | cons q rs =>
      rw [hl] at hsorted
      exact mergeInto_clear hlt (hsorted q mem_cons_self) fun r hr =>
        hsorted r (mem_cons_of_mem _ hr)
  unfold Hit.isMasked
  cases hf : (sortRanges masked).find? fun r => decide (h.start < r.2) with
  | none => rfl
  | some q =>
    have hstart : h.start < q.2 := by simpa using find?_some hf
    have hq := hall q (mem_of_find?_eq_some hf)
    simp only [decide_eq_false_iff_not]
    omega

/-! ### Values that cover each other -/

/-- In some text both stand as whole tokens, the first reaching over the beginning of the second, or
beginning with it and longer. -/
def Covers (v w : Text) : Prop :=
  ∃ t a i, tokenAt false t a v ∧ tokenAt false t i w ∧ a ≤ i ∧ i < a + v.length ∧
    (a = i → w.length < v.length)

/-- A value that none of the values covers is found wherever it stands clear of the ranges. -/
lemma mem_findResiduals {text : Text} {ranges : List (ℕ × ℕ)}
    (hw : w ∈ values) (hne : w ≠ []) (hcovers : ∀ v ∈ values, ¬Covers v w)
    (htok : tokenAt false text i w) (hclear : ∀ r ∈ ranges, r.2 ≤ i ∨ i + w.length ≤ r.1) :
    ⟨i, i + w.length, w⟩ ∈ findResiduals values text ranges := by
  obtain ⟨h, hh, hle, hlt, hlonger⟩ :=
    residualScan_covers hw hne 0 false 0 text (Nat.zero_le i) htok
  obtain ⟨hmem, _, hstop, a, ha, _, hat⟩ := residualScan_tokenAt values 0 false 0 text h hh
  rw [zero_add] at hle hlt hlonger ha
  subst ha
  rw [hstop] at hlt
  have hcov := hcovers h.value hmem
  -- the hit does not cover the value, so it is the value
  have hsame : h.start = i := by
    by_contra hdiff
    exact hcov ⟨text, h.start, i, hat, htok, hle, hlt, fun heq => absurd heq hdiff⟩
  have hlen : h.value.length = w.length := by
    refine le_antisymm ?_ (hlonger hsame)
    by_contra hgt
    exact hcov ⟨text, h.start, i, hat, htok, hle, hlt, fun _ => not_le.1 hgt⟩
  have hvalue : h.value = w := by
    rw [hsame] at hat
    exact (prefix_of_prefix_length_le hat.isPrefix htok.isPrefix hlen.le).eq_of_length hlen
  have hhit : h = ⟨i, i + w.length, w⟩ := by
    cases h
    simp_all
  rw [← hhit]
  refine mem_filter.2 ⟨hh, ?_⟩
  rw [Hit.not_masked_of_clear]
  · rfl
  · rw [hstop, hvalue]
    omega
  · rw [hstop, hvalue, hsame]
    exact hclear

/-! ### A covered value is missed -/

/-- A text cut at the beginning of a token. -/
lemma tokenAt.cut {a : ℕ} (hv : tokenAt inWord t a v)
    (hw : tokenAt inWord t i w) (hai : a ≤ i) :
    tokenAt false (t.drop a) 0 v ∧ tokenAt false (t.drop a) (i - a) w := by
  induction a generalizing inWord t i with
  | zero =>
    obtain ⟨rfl, _⟩ := tokenAt_zero.1 hv
    exact ⟨hv, hw⟩
  | succ a ih =>
    obtain ⟨i, rfl⟩ : ∃ i', i = i' + 1 := ⟨i - 1, by omega⟩
    cases t with
    | nil => cases hv
    | cons c t =>
      rw [Nat.add_sub_add_right]
      exact ih hv hw (by omega)

lemma tokenAt.of_append {rest : Text} (h : tokenAt inWord (t ++ rest) i v)
    (hle : i + v.length ≤ t.length) : tokenAt inWord t i v := by
  induction i generalizing inWord t with
  | zero =>
    obtain ⟨hword, hpre, hend⟩ := tokenAt_zero.1 h
    rw [zero_add] at hle
    refine tokenAt_zero.2 ⟨hword, prefix_of_prefix_length_le hpre (prefix_append t rest) hle, ?_⟩
    rw [drop_append_of_le_length hle] at hend
    cases hd : t.drop v.length with
    | nil => rfl
    | cons c d =>
      rw [hd] at hend
      exact hend
  | succ i ih =>
    cases t with
    | nil =>
      rw [length_nil] at hle
      omega
    | cons c t =>
      refine ih h ?_
      rw [length_cons] at hle
      omega

lemma tokenAt.within {j : ℕ} (hw : tokenAt false t i w)
    (hv : tokenAt false t (i + j) v) (hle : j + v.length ≤ w.length) : tokenAt false w j v := by
  obtain ⟨hw, hv⟩ := hw.cut hv (Nat.le_add_right i j)
  rw [Nat.add_sub_cancel_left] at hv
  obtain ⟨rest, hrest⟩ := (tokenAt_zero.1 hw).2.1
  rw [← hrest] at hv
  exact hv.of_append hle

lemma findResiduals_covered (values : List Text)
    (hvalues : ∀ x ∈ values, x = v ∨ x = w) (hv : v ∈ values) (htv : tokenAt false t 0 v)
    (hi : i < v.length) (hlonger : i = 0 → w.length < v.length) :
    ∀ h ∈ findResiduals values t [(0, i), (i + w.length, t.length)],
      h.value = v ∧ i < h.start ∧ h.start + v.length ≤ i + w.length ∧
        tokenAt false t h.start h.value := by
  intro h hh
  obtain ⟨hscan, hmask⟩ := mem_filter.1 hh
  have hclear : ∀ r ∈ [(0, i), (i + w.length, t.length)], r.2 ≤ h.start ∨ h.stop ≤ r.1 :=
    fun r hr => Hit.clear_of_not_masked (by simpa using hmask) hr
  have hfirst := hclear (0, i) (by simp)
  have hsecond := hclear (i + w.length, t.length) (by simp)
  obtain ⟨hmem, hne, hstop, a, ha, _, hat⟩ := residualScan_tokenAt values 0 false 0 t h hscan
  rw [zero_add] at ha
  subst ha
  have hpos : 0 < h.value.length := length_pos_of_ne_nil hne
  have hroom : h.start + h.value.length ≤ t.length := by
    have := hat.isPrefix.length_le
    rw [length_drop] at this
    omega
  -- the scan takes a value at the beginning, and goes on behind it
  have hbehind : v.length ≤ h.start := by
    have hvne : v ≠ [] := ne_nil_of_length_pos (by omega)
    obtain ⟨-, hpre, hend⟩ := tokenAt_zero.1 htv
    obtain ⟨g, hg, hle⟩ := residualAt_of_token hv hvne hpre hend
    cases t with
    | nil =>
      rw [prefix_nil.1 hpre] at hi
      cases hi
    | cons c t =>
      rw [residualScan, if_neg Bool.false_ne_true, hg] at hscan
      rcases mem_cons.1 hscan with rfl | hscan
      · dsimp only at *
        omega
      · obtain ⟨_, _, _, b, hb, hskip, _⟩ := residualScan_tokenAt values _ _ 1 t h hscan
        omega
  rcases hvalues h.value hmem with hval | hval
  · rw [hval] at hstop hroom
    exact ⟨hval, by omega, by omega, hat⟩
  · rw [hval] at hstop hroom hpos
    omega

end Stoker
