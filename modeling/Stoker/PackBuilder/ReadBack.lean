import Stoker.PackBuilder.Rendering

/-!
# Rendered texts are read as the format they have

What `render` writes in a format, `infer` reads as that format again. `infer` tries the shapes in a
fixed order, so a rendered text has to miss every shape in front of its own: the first letter of a
mixed text is past those of hexadecimal numbers, and without letters a text is as good as the one
its template was read from. Hence a stand-in tells the format it was rendered in.
-/

open List

namespace Stoker

open Rewriting Positional

/-! ### Expressions -/

variable {t s : Text} {c : Char}

lemma beforeDollar_eq_self (h : '\n' ∉ t) : beforeDollar t = t :=
  if_neg fun hlast => h (mem_of_getLast? hlast)

lemma mem_beforeDollar (hc : c ∈ t) (hn : c ≠ '\n') : c ∈ beforeDollar t := by
  unfold beforeDollar
  split_ifs with hlast
  · obtain ⟨s, rfl⟩ := getLast?_eq_some_iff.1 hlast
    rw [dropLast_concat]
    rcases mem_append.1 hc with hc | hc
    · exact hc
    · exact absurd (mem_singleton.1 hc) hn
  · exact hc

/-- A character that some expression's class leaves out keeps a text from matching. -/
lemma not_all_of_mem {p : Char → Bool} (hc : c ∈ t) (hn : c ≠ '\n')
    (hp : p c = false) : (beforeDollar t).all p = false :=
  all_eq_false.2 ⟨c, mem_beforeDollar hc hn, by simp [hp]⟩

def guidPlace (i : ℕ) (c : Char) : Bool :=
  if i ∈ [8, 13, 18, 23] then c = '-' else isHexLower c || isHexUpper c

lemma guidRe_iff : guidRe t = true ↔
    (beforeDollar t).length = 36 ∧ ∀ i c, (beforeDollar t)[i]? = some c → guidPlace i c = true := by
  rw [guidRe, Bool.and_eq_true, decide_eq_true_iff, all_eq_true, Prod.forall]
  refine and_congr_right fun _ => ?_
  constructor
  · exact fun h i c hc => h c i (mem_zipIdx_iff_getElem?.2 hc)
  · exact fun h c i hc => h i c (mem_zipIdx_iff_getElem?.1 hc)

lemma guidRe_eq_false_of_mem (hc : c ∈ t) (hn : c ≠ '\n')
    (hplace : ∀ i, guidPlace i c = false) : guidRe t = false := by
  refine Bool.eq_false_iff.2 fun h => ?_
  obtain ⟨i, hi⟩ := mem_iff_getElem?.1 (mem_beforeDollar hc hn)
  have htrue := (guidRe_iff.1 h).2 i c hi
  rw [hplace i] at htrue
  cases htrue

/-! ### Texts that are alike -/

lemma Alike.eq_iff {d x : Char} (h : Alike c d)
    (hx : x ∉ decDigits ∧ x ∉ lowerLetters ∧ x ∉ upperLetters) : c = x ↔ d = x := by
  constructor
  · rintro rfl
    exact (h.other hx.1 hx.2.1 hx.2.2).symm
  · rintro rfl
    exact h.other (mt h.digit.1 hx.1) (mt h.lower.1 hx.2.1) (mt h.upper.1 hx.2.2)

lemma getLast_alike (h : List.Forall₂ Alike s t) :
    s.getLast? = some '\n' ↔ t.getLast? = some '\n' := by
  induction h with
  | nil => exact Iff.rfl
  | cons hcd htail ih =>
    cases htail with
    | nil =>
      rw [getLast?_singleton, getLast?_singleton, Option.some_inj, Option.some_inj]
      exact hcd.eq_iff (by decide)
    | cons _ _ =>
      exact ih

lemma beforeDollar_alike (h : List.Forall₂ Alike s t) :
    List.Forall₂ Alike (beforeDollar s) (beforeDollar t) := by
  unfold beforeDollar
  by_cases hs : s.getLast? = some '\n'
  · rw [if_pos hs, if_pos ((getLast_alike h).1 hs), dropLast_eq_take, dropLast_eq_take,
      h.length_eq]
    exact forall₂_take _ h
  · rw [if_neg hs, if_neg (mt (getLast_alike h).2 hs)]
    exact h

lemma digitsRe_alike (h : List.Forall₂ Alike s t) : digitsRe s = digitsRe t := by
  have hall : ∀ {s t : Text}, List.Forall₂ Alike s t →
      s.all Char.isDigit = t.all Char.isDigit := by
    intro s t h
    induction h with
    | nil => rfl
    | cons hcd _ ih =>
      have hdigit : Char.isDigit _ = Char.isDigit _ :=
        Bool.eq_iff_iff.2 (isDigit_iff.trans (hcd.digit.trans isDigit_iff.symm))
      rw [all_cons, all_cons, hdigit, ih]
  have hbefore := beforeDollar_alike h
  have hnil : beforeDollar s = [] ↔ beforeDollar t = [] := by
    rw [← length_eq_zero_iff, ← length_eq_zero_iff, hbefore.length_eq]
  rw [digitsRe, digitsRe, hall hbefore, decide_eq_decide.2 (not_congr hnil)]

/-! ### Mixed texts -/

def Letterless (t : Text) : Prop := ∀ c ∈ t, c ∉ lowerLetters ∧ c ∉ upperLetters

lemma Letterless.alike (hs : Letterless s) (h : List.Forall₂ Alike s t) : Letterless t := by
  induction h with
  | nil => exact hs
  | cons hcd _ ih =>
    rw [Letterless, forall_mem_cons] at hs ⊢
    exact ⟨⟨mt hcd.lower.2 hs.1.1, mt hcd.upper.2 hs.1.2⟩, ih hs.2⟩

lemma mem_of_mem_beforeDollar (h : c ∈ beforeDollar t) : c ∈ t := by
  unfold beforeDollar at h
  split_ifs at h
  · exact mem_of_mem_dropLast h
  · exact h

lemma guidRe_alike (hs : Letterless s) (h : List.Forall₂ Alike s t)
    (ht : guidRe t = true) : guidRe s = true := by
  obtain ⟨hlen, hplaces⟩ := guidRe_iff.1 ht
  have hbefore := beforeDollar_alike h
  refine guidRe_iff.2 ⟨hbefore.length_eq.trans hlen, fun i c hc => ?_⟩
  obtain ⟨hi, rfl⟩ := List.getElem?_eq_some_iff.1 hc
  have hi' : i < (beforeDollar t).length := hbefore.length_eq ▸ hi
  have halike : Alike (beforeDollar s)[i] (beforeDollar t)[i] :=
    (forall₂_iff_get.1 hbefore).2 i hi hi'
  have hplace := hplaces i _ (getElem?_eq_getElem hi')
  unfold guidPlace at hplace ⊢
  split_ifs at hplace ⊢ with hdash
  · exact decide_eq_true ((halike.eq_iff (by decide)).2 (of_decide_eq_true hplace))
  · obtain ⟨hlower, hupper⟩ := hs.alike h _ (mem_of_mem_beforeDollar (getElem_mem hi'))
    rcases mem_of_isHex (Bool.or_eq_true_iff.1 hplace) with hdigit | hletter | hletter
    · have hc' := isDigit_iff.2 (halike.digit.2 hdigit)
      simp [isHexLower, hc']
    · exact absurd hletter hlower
    · exact absurd hletter hupper

lemma hexRe_eq_false_of_letterless (h : Letterless t) :
    hexLowerRe t = false ∧ hexUpperRe t = false := by
  constructor
  · refine Bool.and_eq_false_imp.2 fun hany => ?_
    obtain ⟨c, hc, hrange⟩ := any_eq_true.1 hany
    exact absurd (mem_lower_of_hex (of_decide_eq_true hrange)) (h c (mem_of_mem_beforeDollar hc)).1
  · refine Bool.and_eq_false_imp.2 fun hany => ?_
    obtain ⟨c, hc, hrange⟩ := any_eq_true.1 hany
    exact absurd (mem_upper_of_hex (of_decide_eq_true hrange)) (h c (mem_of_mem_beforeDollar hc)).2

lemma PastHex.spec (h : PastHex c) :
    c ≠ '\n' ∧ c ≠ '-' ∧ isHexLower c = false ∧ isHexUpper c = false := by
  have hall : ∀ c ∈ mixedFirstLetter ++ mixedFirstLetter.map Char.toUpper,
      c ≠ '\n' ∧ c ≠ '-' ∧ isHexLower c = false ∧ isHexUpper c = false :=
    forall_mem_of_all (by decide)
  exact hall c (mem_append.2 h)

lemma hexRe_eq_false_of_pastHex (hc : c ∈ t) (h : PastHex c) :
    guidRe t = false ∧ hexLowerRe t = false ∧ hexUpperRe t = false := by
  obtain ⟨hnewline, hdash, hlower, hupper⟩ := h.spec
  refine ⟨guidRe_eq_false_of_mem hc hnewline fun i => ?_, ?_, ?_⟩
  · unfold guidPlace
    split_ifs
    · exact decide_eq_false hdash
    · rw [hlower, hupper]
      rfl
  · rw [hexLowerRe, not_all_of_mem hc hnewline hlower, Bool.and_false]
  · rw [hexUpperRe, not_all_of_mem hc hnewline hupper, Bool.and_false]

lemma infer_fill {picks : List ℕ} (hpicks : Picks (template false s) picks)
    (hdigits : digitsRe s = false)
    (hguid : guidRe s = true → ¬ ((s.filter Char.isAlpha).all Char.isLower = true ∨
      (s.filter Char.isAlpha).all Char.isUpper = true))
    (hvaries : (template false s).all Entry.isVerbatim = false) :
    infer (fill (template false s) picks) =
      { shape := .mixed, width := s.length, template := template false s } := by
  have halike := fill_alike hpicks
  set t := fill (template false s) picks with ht
  have hne : t ≠ [] := by
    rintro hnil
    rw [hnil, forall₂_nil_right_iff] at halike
    rw [halike] at hvaries
    cases hvaries
  have hearlier : ¬ (guidRe t = true ∧ ((t.filter Char.isAlpha).all Char.isLower = true ∨
      (t.filter Char.isAlpha).all Char.isUpper = true)) ∧ ¬ (hexLowerRe t = true ∨
      hexUpperRe t = true) := by
    by_cases hletters : ∃ c ∈ s, c ∈ lowerLetters ∨ c ∈ upperLetters
    · obtain ⟨c, hc, hpast⟩ := fill_pastHex hpicks hletters
      obtain ⟨h₁, h₂, h₃⟩ := hexRe_eq_false_of_pastHex hc hpast
      rw [h₁, h₂, h₃]
      simp
    · have hs : Letterless s := fun c hc =>
        not_or.1 fun hl => hletters ⟨c, hc, hl⟩
      have hnone : s.filter Char.isAlpha = [] := by
        refine filter_eq_nil_iff.2 fun c hc halpha =>
          hletters ⟨c, hc, mem_letters_of_isAlpha halpha⟩
      obtain ⟨h₂, h₃⟩ := hexRe_eq_false_of_letterless (hs.alike halike)
      refine ⟨fun h => ?_, by rw [h₂, h₃]; simp⟩
      exact hguid (guidRe_alike hs halike h.1) (by rw [hnone]; exact .inl rfl)
  have hverbatim : ¬ (template false t).all Entry.isVerbatim = true := by
    rw [← template_congr halike false, hvaries]
    exact Bool.false_ne_true
  rw [infer, if_neg hne,
    if_neg (by rw [← digitsRe_alike halike, hdigits]; exact Bool.false_ne_true),
    if_neg hearlier.1, if_neg hearlier.2, if_neg hverbatim, ← template_congr halike false,
    halike.length_eq]

/-! ### Digits, hexadecimal numbers and GUIDs -/

lemma isDigit_toDigits (n : ℕ) : ∀ c ∈ Nat.toDigits 10 n, c.isDigit = true :=
  fun _ hc => Nat.isDigit_of_mem_toDigits (by norm_num) (by norm_num) hc

lemma newline_not_mem_toDigits (n : ℕ) : '\n' ∉ Nat.toDigits 10 n :=
  fun h => absurd (isDigit_toDigits n _ h) (by decide)

variable {k w x : ℕ} {h span out : Text} {fmt : Format} {libs : Libs} {key : List UInt8}

lemma infer_digits (hw : 0 < w) (x : ℕ) :
    infer (Nat.toDigits 10 (10 ^ (w - 1) + x % (9 * 10 ^ (w - 1)))) =
      { shape := .digits, width := w } := by
  obtain ⟨w, rfl⟩ := Nat.exists_eq_succ_of_ne_zero hw.ne'
  rw [Nat.succ_eq_add_one, Nat.add_sub_cancel]
  set n := 10 ^ w + x % (9 * 10 ^ w) with hn
  have hlt : n < 10 ^ (w + 1) := by
    have := Nat.mod_lt x (show 0 < 9 * 10 ^ w by positivity)
    omega
  have hlen : (Nat.toDigits 10 n).length = w + 1 := by
    refine le_antisymm ((Nat.length_toDigits_le_iff (by norm_num) (by omega)).2 hlt) ?_
    by_contra hshort
    rcases Nat.eq_zero_or_pos w with rfl | hw
    · exact hshort Nat.length_toDigits_pos
    · have hle := (Nat.length_toDigits_le_iff (b := 10) (n := n) (by norm_num) hw).1 (by omega)
      omega
  have hre : digitsRe (Nat.toDigits 10 n) = true := by
    rw [digitsRe, beforeDollar_eq_self (newline_not_mem_toDigits n),
      all_eq_true.2 (isDigit_toDigits n)]
    simp [Nat.toDigits_ne_nil]
  rw [infer, if_neg Nat.toDigits_ne_nil, if_pos hre, hlen]

lemma dash_mem_of_guidRe (h : guidRe t = true) : '-' ∈ t := by
  obtain ⟨hlen, hplaces⟩ := guidRe_iff.1 h
  have hi : 8 < (beforeDollar t).length := by omega
  have hdash : (beforeDollar t)[8] = '-' := of_decide_eq_true (hplaces 8 _ (getElem?_eq_getElem hi))
  rw [← hdash]
  exact mem_of_mem_beforeDollar (getElem_mem hi)

lemma hexChar_spec (case : LetterCase) :
    ∀ n < 16, hexChar case n ≠ '\n' ∧ hexChar case n ≠ '-' := by
  cases case <;> decide

variable {case : LetterCase}

lemma hexDigits_chars :
    ∀ c ∈ (hexDigits w x).map (hexChar case), isHex case c = true ∧ c ≠ '\n' ∧ c ≠ '-' := by
  rw [forall_mem_map]
  exact fun n hn => ⟨isHex_hexChar case n (hexDigits_lt n hn),
    hexChar_spec case n (hexDigits_lt n hn)⟩

lemma hexRe_hexDigits (w x : ℕ) (case : LetterCase) :
    hexLowerRe ((hexDigits w x).map (hexChar case)) = true ∨
      hexUpperRe ((hexDigits w x).map (hexChar case)) = true := by
  have hself : beforeDollar ((hexDigits w x).map (hexChar case)) =
      (hexDigits w x).map (hexChar case) :=
    beforeDollar_eq_self fun h => (hexDigits_chars _ h).2.1 rfl
  have hall : ((hexDigits w x).map (hexChar case)).all (isHex case) = true :=
    all_eq_true.2 fun c hc => (hexDigits_chars c hc).1
  have hi := hexDigits_first w x
  rw [hexLowerRe, hexUpperRe, hself]
  cases case with
  | lower =>
    have hletter : ∀ i < 6, decide ('a' ≤ hexChar .lower (10 + i) ∧ hexChar .lower (10 + i) ≤ 'f') =
        true := by
      decide
    refine .inl (Bool.and_eq_true_iff.2 ⟨?_, hall⟩)
    exact any_eq_true.2 ⟨_, mem_cons_self, hletter _ hi⟩
  | upper =>
    have hletter : ∀ i < 6, decide ('A' ≤ hexChar .upper (10 + i) ∧ hexChar .upper (10 + i) ≤ 'F') =
        true := by
      decide
    refine .inr (Bool.and_eq_true_iff.2 ⟨?_, hall⟩)
    exact any_eq_true.2 ⟨_, mem_cons_self, hletter _ hi⟩

lemma infer_hex (w x : ℕ) (case : LetterCase) :
    infer ((hexDigits w x).map (hexChar case)) = { shape := .hex, width := w + 1 } := by
  have hi := hexDigits_first w x
  have hfirst : hexChar case (10 + x % (6 * 16 ^ w) / 16 ^ w) ∈ (hexDigits w x).map
      (hexChar case) :=
    mem_cons_self
  have hdigits : ¬ digitsRe ((hexDigits w x).map (hexChar case)) = true := by
    rw [digitsRe, not_all_of_mem hfirst (hexChar_spec case _ (by omega)).1
      (hexChar_letter case _ hi)]
    simp
  have hguid : ¬ guidRe ((hexDigits w x).map (hexChar case)) = true :=
    fun h => (hexDigits_chars _ (dash_mem_of_guidRe h)).2.2 rfl
  rw [infer, if_neg (ne_nil_of_mem hfirst), if_neg hdigits, if_neg fun h => hguid h.1,
    if_pos (hexRe_hexDigits w x case), length_map, hexDigits, length_cons, length_numeral]

/-- The characters of a piece of a GUID that starts at some place may stand there. -/
def Placed (k : ℕ) (t : Text) : Prop := ∀ i c, t[i]? = some c → guidPlace (k + i) c = true

lemma Placed.append (hs : Placed k s) (ht : Placed (k + s.length) t) :
    Placed k (s ++ t) := by
  intro i c hc
  rcases Nat.lt_or_ge i s.length with hi | hi
  · exact hs i c (by rwa [getElem?_append_left hi] at hc)
  · rw [getElem?_append_right hi] at hc
    have hplace := ht _ c hc
    rwa [add_assoc, Nat.add_sub_cancel' hi] at hplace

lemma Placed.cons (hc : guidPlace k c = true) (ht : Placed (k + 1) t) :
    Placed k (c :: t) := by
  intro i d hd
  cases i with
  | zero =>
    cases hd
    exact hc
  | succ i =>
    have hplace := ht i d hd
    rwa [add_assoc, Nat.add_comm 1 i] at hplace

lemma placed_digits (ht : ∀ c ∈ t, isHexLower c = true ∨ isHexUpper c = true)
    (hk : ∀ i < t.length, k + i ∉ [8, 13, 18, 23]) : Placed k t := by
  intro i c hc
  obtain ⟨hi, rfl⟩ := List.getElem?_eq_some_iff.1 hc
  rw [guidPlace, if_neg (hk i hi)]
  exact Bool.or_eq_true_iff.2 (ht _ (getElem_mem hi))

lemma mem_of_mem_slice {α : Type} {t : List α} {i j : ℕ} {c : α} (h : c ∈ slice t i j) : c ∈ t :=
  mem_of_mem_take (mem_of_mem_drop h)

lemma mem_dashed (hc : c ∈ dashed h) : c = '-' ∨ c ∈ h := by
  simp only [dashed, mem_append, mem_cons] at hc
  rcases hc with (((hc | rfl | hc) | rfl | hc) | rfl | hc) | rfl | hc
  all_goals first
    | exact .inl rfl
    | exact .inr (mem_of_mem_slice hc)

lemma placed_dashed (hlen : h.length = 32)
    (hhex : ∀ c ∈ h, isHexLower c = true ∨ isHexUpper c = true) : Placed 0 (dashed h) := by
  have hslice : ∀ {k i j : ℕ}, j ≤ 32 → (∀ n < j - i, k + n ∉ [8, 13, 18, 23]) →
      Placed k (slice h i j) := by
    intro k i j hj hk
    refine placed_digits (fun c hc => hhex c (mem_of_mem_slice hc)) ?_
    rwa [slice_length (hlen.symm ▸ hj)]
  have hslen : ∀ {i j : ℕ}, j ≤ 32 → (slice h i j).length = j - i := fun hj =>
    slice_length (hlen.symm ▸ hj)
  -- the pieces start at places 0, 9, 14, 19 and 24, with a dash in front of each but the first
  refine ((((hslice (by decide) (by decide)).append ?_).append ?_).append ?_).append ?_
  all_goals
    simp only [length_append, length_cons, hslen (show 8 ≤ 32 by decide),
      hslen (show 12 ≤ 32 by decide), hslen (show 16 ≤ 32 by decide),
        hslen (show 20 ≤ 32 by decide)]
    exact .cons (by decide) (hslice (by decide) (by decide))

lemma length_dashed (hlen : h.length = 32) : (dashed h).length = 36 := by
  simp [dashed, slice, hlen]

lemma isHexLower_or_isHexUpper (h : isHex case c = true) :
    isHexLower c = true ∨ isHexUpper c = true := by
  cases case with
  | lower => exact .inl h
  | upper => exact .inr h

lemma hexChar_isLower : ∀ n < 16, (hexChar .lower n).isAlpha = true →
    (hexChar .lower n).isLower = true := by
  decide

lemma hexChar_isUpper : ∀ n < 16, (hexChar .upper n).isAlpha = true →
    (hexChar .upper n).isUpper = true := by
  decide

lemma guid_chars (x : ℕ) (case : LetterCase) :
    ∀ c ∈ dashed ((guidDigits x).map (hexChar case)), c = '-' ∨ ∃ n < 16, c = hexChar case n := by
  intro c hc
  refine (mem_dashed hc).imp_right fun hc => ?_
  obtain ⟨n, hn, rfl⟩ := mem_map.1 hc
  exact ⟨n, guidDigits_lt n hn, rfl⟩

lemma newline_not_mem_guid (x : ℕ) (case : LetterCase) :
    '\n' ∉ dashed ((guidDigits x).map (hexChar case)) := by
  intro hc
  rcases guid_chars x case _ hc with heq | ⟨n, hn, heq⟩
  · exact absurd heq (by decide)
  · exact (hexChar_spec case n hn).1 heq.symm

lemma infer_guid (x : ℕ) (case : LetterCase) :
    infer (dashed ((guidDigits x).map (hexChar case))) = { shape := .guid } := by
  set h := (guidDigits x).map (hexChar case) with hh
  have hlen : h.length = 32 := by rw [hh, length_map, length_guidDigits]
  have hchars := guid_chars x case
  have hhex : ∀ c ∈ h, isHexLower c = true ∨ isHexUpper c = true := by
    intro c hc
    obtain ⟨n, hn, rfl⟩ := mem_map.1 hc
    exact isHexLower_or_isHexUpper (isHex_hexChar case n (guidDigits_lt n hn))
  have hdash : '-' ∈ dashed h := by simp [dashed]
  have hdigits : ¬ digitsRe (dashed h) = true := by
    rw [digitsRe, not_all_of_mem hdash (by decide) (by decide)]
    simp
  have hguid : guidRe (dashed h) = true := by
    rw [guidRe_iff, beforeDollar_eq_self (newline_not_mem_guid x case)]
    refine ⟨?_, fun i c hc => ?_⟩
    · exact length_dashed hlen
    · have hplace := placed_dashed hlen hhex i c hc
      rwa [Nat.zero_add] at hplace
  have hletters : ((dashed h).filter Char.isAlpha).all Char.isLower = true ∨
      ((dashed h).filter Char.isAlpha).all Char.isUpper = true := by
    have hall : ∀ p : Char → Bool,
        (∀ n < 16, (hexChar case n).isAlpha = true → p (hexChar case n) = true) →
        ((dashed h).filter Char.isAlpha).all p = true := by
      simp only [all_eq_true, mem_filter]
      rintro p hp c ⟨hc, halpha⟩
      rcases hchars c hc with rfl | ⟨n, hn, rfl⟩
      · cases halpha
      · exact hp n hn halpha
    cases case with
    | lower => exact .inl (hall _ hexChar_isLower)
    | upper => exact .inr (hall _ hexChar_isUpper)
  rw [infer, if_neg (ne_nil_of_mem hdash), if_neg hdigits, if_pos ⟨hguid, hletters⟩]

/-! ### Format classes -/

lemma infer_render (hf : Produced fmt) (hshape : fmt.shape ≠ .none) (x : ℕ) (case : LetterCase) :
    ∃ t, render fmt x case = some t ∧ infer t = fmt := by
  cases hf.known with
  | none => exact absurd rfl hshape
  | digits hw => exact ⟨_, rfl, infer_digits hw x⟩
  | @hex w hw =>
    obtain ⟨w, rfl⟩ := Nat.exists_eq_succ_of_ne_zero hw.ne'
    exact ⟨_, render_hex x case, infer_hex w x case⟩
  | guid => exact ⟨_, render_guid x case, infer_guid x case⟩
  | mixed hdigits hguid hvaries =>
    exact ⟨_, rfl, infer_fill (picks_of_mixedPicks (template_proper _ _) _) hdigits hguid hvaries⟩

lemma infer_pseudonym {widen : Option Format} (hw : ∀ fmt ∈ widen, Produced fmt)
    (h : pseudonym libs key widen span = some out) :
    infer out = standInFormat widen (libs.nfc span) := by
  have hf : Produced (standInFormat widen (libs.nfc span)) := by
    cases widen with
    | none => exact .infer _
    | some fmt => exact hw fmt rfl
  unfold pseudonym at h
  dsimp only at h
  split_ifs at h with _ hshape
  obtain ⟨t, ht, hinfer⟩ := infer_render hf hshape (libs.hmac key (libs.nfc span))
    (caseClass libs (libs.nfc span))
  rw [ht] at h
  cases h
  exact hinfer

/-- Every format that occurs is read back from what is rendered in it, so that texts with stand-ins
of different formats never have the same stand-in. -/
theorem format_classes_closed_and_disjoint :
    (∀ fmt, Produced fmt → fmt.shape ≠ .none → ∀ (x : ℕ) (case : LetterCase),
      ∃ t, render fmt x case = some t ∧ infer t = fmt) ∧
    ∀ (libs : Libs) (key key' : List UInt8) (widen widen' : Option Format) (span span' out : Text),
      (∀ fmt ∈ widen, Produced fmt) → (∀ fmt ∈ widen', Produced fmt) →
      pseudonym libs key widen span = some out → pseudonym libs key' widen' span' = some out →
      standInFormat widen (libs.nfc span) = standInFormat widen' (libs.nfc span') := by
  refine ⟨fun fmt hf hshape => infer_render hf hshape, ?_⟩
  intro libs key key' widen widen' span span' out hw hw' h h'
  rw [← infer_pseudonym hw h, infer_pseudonym hw' h']

/-- Two identifiers of two digits that a keyed hash happens to send to one number. -/
theorem format_classes_of_merged_digits :
    let libs : Libs :=
      { isAlpha := Char.isAlpha, isUpper := Char.isUpper, nfc := id, hmac := fun _ _ => 5,
        repr := id, jsonParses := fun _ => false,
        regex := fun _ => { groups := 0, finditer := fun _ => [], bounded := nofun } }
    (∃ t, render (infer "7f-Q") 5 .lower = some t ∧ infer t = infer "7f-Q") ∧
      standInFormat none (libs.nfc "12") = standInFormat none (libs.nfc "47") := by
  intro libs
  constructor
  · exact format_classes_closed_and_disjoint.1 _ (.infer _) (by decide) 5 .lower
  · exact format_classes_closed_and_disjoint.2 libs [] [] none none "12" "47" "15"
      nofun nofun (by decide +kernel) (by decide +kernel)

/-! ### The shape of a text -/

/-- A stand-in is as long as the text, and where the text has neither a letter nor a digit (of
ASCII, no others ever vary) the stand-in has the same character. -/
def ShapeKept (t out : Text) : Prop :=
  out.length = t.length ∧ ∀ (i : ℕ) (c : Char), t[i]? = some c → c.isAlphanum = false →
  out[i]? = some c

lemma isAlphanum_of_mem :
    ∀ c ∈ decDigits ++ lowerLetters ++ upperLetters, Char.isAlphanum c = true :=
  forall_mem_of_all (by decide)

lemma isAlphanum_of_isHex (h : isHexLower c = true ∨ isHexUpper c = true) :
    c.isAlphanum = true := by
  apply isAlphanum_of_mem
  simpa [or_assoc] using mem_of_isHex h

lemma infer_spec (t : Text) :
    match (infer t).shape with
    | .none => True
    | .mixed => infer t = { shape := .mixed, width := t.length, template := template false t }
    | .guid => guidRe t = true
    | _ => (infer t).width = t.length ∧ ∀ c ∈ beforeDollar t, c.isAlphanum = true := by
  unfold infer
  dsimp only
  split_ifs with _ hdigits hguid hhex
  · trivial
  · refine ⟨rfl, fun c hc => isAlphanum_of_isHex (.inl ?_)⟩
    simp [isHexLower, all_eq_true.1 (Bool.and_eq_true_iff.1 hdigits).2 c hc]
  · exact hguid.1
  · refine ⟨rfl, fun c hc => isAlphanum_of_isHex (hhex.imp ?_ ?_)⟩
    all_goals exact fun hre => all_eq_true.1 (Bool.and_eq_true_iff.1 hre).2 c hc
  · trivial
  · rfl

lemma shapeKept_of_alike (h : List.Forall₂ Alike t s) : ShapeKept t s := by
  refine ⟨h.length_eq.symm, fun i c hc hother => ?_⟩
  obtain ⟨hi, rfl⟩ := List.getElem?_eq_some_iff.1 hc
  have hi' : i < s.length := h.length_eq ▸ hi
  have halike : Alike t[i] s[i] := (forall₂_iff_get.1 h).2 i hi hi'
  have hfixed : t[i] ∉ decDigits ++ lowerLetters ++ upperLetters := fun hmem => by
    simp [isAlphanum_of_mem _ hmem] at hother
  simp only [mem_append, not_or] at hfixed
  rw [getElem?_eq_getElem hi', ← halike.other hfixed.1.1 hfixed.1.2 hfixed.2]

lemma shapeKept_of_guidRe (ht : guidRe t = true) (hs : guidRe s = true)
    (hplain : beforeDollar t = t) (hplain' : beforeDollar s = s) : ShapeKept t s := by
  rw [guidRe_iff, hplain] at ht
  rw [guidRe_iff, hplain'] at hs
  refine ⟨hs.1.trans ht.1.symm, fun i c hc hother => ?_⟩
  have hi : i < s.length := by
    rw [hs.1, ← ht.1]
    exact (List.getElem?_eq_some_iff.1 hc).1
  have hplace := ht.2 i c hc
  have hplace' := hs.2 i _ (getElem?_eq_getElem hi)
  unfold guidPlace at hplace hplace'
  split_ifs at hplace hplace' with hdash
  · rw [getElem?_eq_getElem hi, of_decide_eq_true hplace, of_decide_eq_true hplace']
  · simp [isAlphanum_of_isHex (Bool.or_eq_true_iff.1 hplace)] at hother

lemma newline_not_mem_render (hf : Produced fmt) (hmixed : fmt.shape ≠ .mixed)
    (h : render fmt x case = some t) : '\n' ∉ t := by
  cases hf.known with
  | none => cases h
  | digits _ =>
    cases h
    exact newline_not_mem_toDigits _
  | @hex w hw =>
    obtain ⟨w, rfl⟩ := Nat.exists_eq_succ_of_ne_zero hw.ne'
    rw [render_hex] at h
    cases h
    exact fun hn => (hexDigits_chars _ hn).2.1 rfl
  | guid =>
    rw [render_guid] at h
    cases h
    exact newline_not_mem_guid x case
  | mixed => exact absurd rfl hmixed

/-- A stand-in in the format of its text keeps the shape of the text, unless the text ends in a
newline and is read as digits, a hexadecimal number or a GUID: `$` matches in front of that
newline. -/
theorem pseudonym_keeps_shape_iff (h : pseudonym libs key none span = some out) :
    ShapeKept (libs.nfc span) out ↔
      (infer (libs.nfc span)).shape = .mixed ∨ (libs.nfc span).getLast? ≠ some '\n' := by
  have hsame : infer out = infer (libs.nfc span) := infer_pseudonym (by simp) h
  unfold pseudonym standInFormat at h
  dsimp only [Option.getD] at h
  split_ifs at h with _ hnone
  set t := libs.nfc span
  have ht := infer_spec t
  have hspec := infer_spec out
  rw [hsame] at hspec
  by_cases hmixed : (infer t).shape = .mixed
  · refine iff_of_true ?_ (.inl hmixed)
    rw [hmixed] at ht
    rw [ht] at h
    cases h
    exact shapeKept_of_alike (fill_alike (picks_of_mixedPicks (template_proper _ _) _))
  have hnewline := newline_not_mem_render (.infer t) hmixed h
  have hout := beforeDollar_eq_self hnewline
  rw [or_iff_right hmixed]
  constructor
  · intro hkept hlast
    rw [getLast?_eq_getElem?] at hlast
    exact hnewline (mem_of_getElem? (hkept.2 _ _ hlast (by decide)))
  · intro hlast
    have hplain : beforeDollar t = t := if_neg hlast
    cases hshape : (infer t).shape with rw [hshape] at ht hspec
    | none => exact absurd hshape hnone
    | mixed => exact absurd hshape hmixed
    | guid => exact shapeKept_of_guidRe ht hspec hplain hout
    | digits | hex =>
      refine ⟨hspec.1.symm.trans ht.1, fun i c hc hother => ?_⟩
      simp [ht.2 c (hplain.symm ▸ mem_of_getElem? hc)] at hother

/-- Libraries of plain ASCII, with a hash that is always 5. -/
def asciiLibs : Libs where
  isAlpha := Char.isAlpha
  isUpper := Char.isUpper
  nfc := id
  hmac _ _ := 5
  repr := id
  jsonParses _ := false
  regex _ := { groups := 0, finditer := fun _ => [], bounded := nofun }

theorem pseudonym_keeps_shape_of_address :
    pseudonym asciiLibs [] none "10.0" = some "00.5".toList ∧
      ShapeKept (asciiLibs.nfc "10.0") "00.5" := by
  have h : pseudonym asciiLibs [] none "10.0" = some "00.5".toList := by decide +kernel
  exact ⟨h, (pseudonym_keeps_shape_iff h).2 (.inl (by decide +kernel))⟩

/-- Two digits and the newline behind them become three digits. -/
theorem pseudonym_loses_newline :
    pseudonym asciiLibs [] none "12\n" = some "105".toList ∧
      ¬ ShapeKept (asciiLibs.nfc "12\n") "105" := by
  refine ⟨by decide +kernel, fun h => ?_⟩
  exact absurd (h.2 2 '\n' rfl (by decide)) (by decide)

end Stoker
