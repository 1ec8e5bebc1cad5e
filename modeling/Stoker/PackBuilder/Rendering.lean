import Stoker.Numerals.Positional
import Stoker.PackBuilder.Format

/-!
# Rendering tells numbers apart

What `render` promises: different numbers below `space` give different texts. This fails for GUIDs
only. Their space is counted as 2 ^ 122, and the six bits of the version and the variant are written
over bits of the number below that, so numbers that differ in these bits alone are rendered the
same.
-/

open List

namespace Stoker

open Rewriting Positional

/-! ### Formats that occur -/

/-- The formats that are inferred from some text or chosen for a field. -/
inductive Produced : Format → Prop where
  | infer (t : Text) : Produced (infer t)
  | widen {w : Widen} {fmt : Format} (h : widenFormat w = .ok fmt) : Produced fmt

/-- The formats by shape: a width is positive, and the template of a mixed format is that of a text
which no earlier shape fits. -/
inductive KnownFormat : Format → Prop where
  | none : KnownFormat formatNone
  | digits {w : ℕ} (hw : 0 < w) : KnownFormat { shape := .digits, width := w }
  | hex {w : ℕ} (hw : 0 < w) : KnownFormat { shape := .hex, width := w }
  | guid : KnownFormat { shape := .guid }
  | mixed {t : Text} (digits : digitsRe t = false)
      (guid : guidRe t = true → ¬ ((t.filter Char.isAlpha).all Char.isLower = true ∨
        (t.filter Char.isAlpha).all Char.isUpper = true))
      (varies : (template false t).all Entry.isVerbatim = false) :
      KnownFormat { shape := .mixed, width := t.length, template := template false t }

lemma infer_known (t : Text) : KnownFormat (infer t) := by
  unfold infer
  dsimp only
  split_ifs with hnil hdigits hguid hhex hverbatim
  · exact .none
  · exact .digits (length_pos_of_ne_nil hnil)
  · exact .guid
  · exact .hex (length_pos_of_ne_nil hnil)
  · exact .none
  · refine .mixed (by simpa using hdigits) (fun hg hl => hguid ⟨hg, hl⟩) (by simpa using hverbatim)

variable {fmt : Format} {c : Char} {picks : List ℕ} {entries : List Entry} {case case' : LetterCase}
    {w x y : ℕ}

lemma widenTo_ok {shape : Shape} {default floor : ℤ} {length : Option ℤ}
    (hf : 0 < floor) (h : widenTo shape default floor length = .ok fmt) :
    ∃ w, 0 < w ∧ fmt = { shape := shape, width := w } := by
  unfold widenTo at h
  dsimp only at h
  split_ifs at h with hn
  cases h
  exact ⟨_, by omega, rfl⟩

lemma widenFormat_known {w : Widen} (h : widenFormat w = .ok fmt) : KnownFormat fmt := by
  unfold widenFormat at h
  split at h
  · cases h
    exact .guid
  · obtain ⟨n, hn, rfl⟩ := widenTo_ok (by norm_num) h
    exact .digits hn
  · obtain ⟨n, hn, rfl⟩ := widenTo_ok (by norm_num) h
    exact .hex hn
  · cases h

lemma Produced.known (h : Produced fmt) : KnownFormat fmt := by
  cases h with
  | infer t => exact infer_known t
  | widen hw => exact widenFormat_known hw

/-! ### Characters -/

variable {t s h : Text} {d : Char} {rs : List ℕ}

/-- A fact about the characters of a text, by going through the text and not through all
characters. -/
lemma forall_mem_of_all {p : Char → Prop} [DecidablePred p]
    (h : t.all (fun c => decide (p c)) = true) : ∀ c ∈ t, p c :=
  fun c hc => of_decide_eq_true (all_eq_true.1 h c hc)

lemma mem_of_between {lo hi : Char} (hall : ∀ n < hi.toNat + 1, lo.toNat ≤ n → Char.ofNat n ∈ t)
    (h : lo ≤ c ∧ c ≤ hi) : c ∈ t := by
  rw [← Char.ofNat_toNat c]
  exact hall _ (Nat.lt_succ_of_le (UInt32.le_iff_toNat_le.1 h.2)) (UInt32.le_iff_toNat_le.1 h.1)

lemma isDigit_iff : c.isDigit = true ↔ c ∈ decDigits := by
  constructor
  · intro h
    obtain ⟨hlo, hhi⟩ := Bool.and_eq_true_iff.1 h
    exact mem_of_between (by decide) ⟨of_decide_eq_true hlo, of_decide_eq_true hhi⟩
  · intro h
    have hall : ∀ d ∈ decDigits, d.isDigit = true := forall_mem_of_all (by decide)
    exact hall c h

lemma mem_letters_of_isAlpha (h : c.isAlpha = true) : c ∈ lowerLetters ∨ c ∈ upperLetters := by
  rcases Bool.or_eq_true_iff.1 h with h | h
  · obtain ⟨hlo, hhi⟩ := of_decide_eq_true h
    exact .inr (mem_of_between (by decide) ⟨hlo, hhi⟩)
  · obtain ⟨hlo, hhi⟩ := Bool.and_eq_true_iff.1 h
    exact .inl (mem_of_between (by decide) ⟨of_decide_eq_true hlo, of_decide_eq_true hhi⟩)

lemma mem_lower_of_hex (h : 'a' ≤ c ∧ c ≤ 'f') : c ∈ lowerLetters := mem_of_between (by decide) h

lemma mem_upper_of_hex (h : 'A' ≤ c ∧ c ≤ 'F') : c ∈ upperLetters := mem_of_between (by decide) h

lemma mem_of_isHex (h : isHexLower c = true ∨ isHexUpper c = true) :
    c ∈ decDigits ∨ c ∈ lowerLetters ∨ c ∈ upperLetters := by
  rcases h with h | h <;> rcases Bool.or_eq_true_iff.1 h with h | h
  · exact .inl (isDigit_iff.1 h)
  · exact .inr (.inl (mem_lower_of_hex (of_decide_eq_true h)))
  · exact .inl (isDigit_iff.1 h)
  · exact .inr (.inr (mem_upper_of_hex (of_decide_eq_true h)))

/-- Characters that a template treats alike: both digits, both letters of the same case, or one
character that is neither. -/
structure Alike (c d : Char) : Prop where
  digit : c ∈ decDigits ↔ d ∈ decDigits
  lower : c ∈ lowerLetters ↔ d ∈ lowerLetters
  upper : c ∈ upperLetters ↔ d ∈ upperLetters
  other : c ∉ decDigits → c ∉ lowerLetters → c ∉ upperLetters → c = d

lemma Alike.refl (c : Char) : Alike c c := ⟨Iff.rfl, Iff.rfl, Iff.rfl, fun _ _ _ => rfl⟩

lemma not_letter_of_digit : ∀ c ∈ decDigits, c ∉ lowerLetters ∧ c ∉ upperLetters :=
  forall_mem_of_all (by decide)

lemma not_upper_of_lower : ∀ c ∈ lowerLetters, c ∉ decDigits ∧ c ∉ upperLetters :=
  forall_mem_of_all (by decide)

lemma not_lower_of_upper : ∀ c ∈ upperLetters, c ∉ decDigits ∧ c ∉ lowerLetters :=
  forall_mem_of_all (by decide)

lemma alike_of_digits (hc : c ∈ decDigits) (hd : d ∈ decDigits) : Alike c d where
  digit := iff_of_true hc hd
  lower := iff_of_false (not_letter_of_digit c hc).1 (not_letter_of_digit d hd).1
  upper := iff_of_false (not_letter_of_digit c hc).2 (not_letter_of_digit d hd).2
  other h := absurd hc h

lemma alike_of_lower (hc : c ∈ lowerLetters) (hd : d ∈ lowerLetters) : Alike c d where
  digit := iff_of_false (not_upper_of_lower c hc).1 (not_upper_of_lower d hd).1
  lower := iff_of_true hc hd
  upper := iff_of_false (not_upper_of_lower c hc).2 (not_upper_of_lower d hd).2
  other _ h := absurd hc h

lemma alike_of_upper (hc : c ∈ upperLetters) (hd : d ∈ upperLetters) : Alike c d where
  digit := iff_of_false (not_lower_of_upper c hc).1 (not_lower_of_upper d hd).1
  lower := iff_of_false (not_lower_of_upper c hc).2 (not_lower_of_upper d hd).2
  upper := iff_of_true hc hd
  other _ _ h := absurd hc h

lemma template_congr (h : List.Forall₂ Alike s t) (used : Bool) :
    template used s = template used t := by
  induction h generalizing used with
  | nil => rfl
  | @cons c d s t hcd _ ih =>
    rw [template, template]
    by_cases h₁ : c ∈ decDigits
    · rw [if_pos h₁, if_pos (hcd.digit.1 h₁), ih]
    rw [if_neg h₁, if_neg (mt hcd.digit.2 h₁)]
    by_cases h₂ : c ∈ lowerLetters
    · rw [if_pos h₂, if_pos (hcd.lower.1 h₂), ih]
    rw [if_neg h₂, if_neg (mt hcd.lower.2 h₂)]
    by_cases h₃ : c ∈ upperLetters
    · rw [if_pos h₃, if_pos (hcd.upper.1 h₃), ih]
    rw [if_neg h₃, if_neg (mt hcd.upper.2 h₃), hcd.other h₁ h₂ h₃, ih]

/-! ### Mixed texts -/

/-- An alphabet holds as many letters as its radix says, each once. -/
def Entry.Proper : Entry → Prop
  | .verbatim _ => True
  | .choice radix alphabet => 0 < radix ∧ alphabet.length = radix ∧ alphabet.Nodup

/-- Whatever an entry is filled with has a property. -/
def Entry.Draws (P : Char → Prop) : Entry → Prop
  | .verbatim c => P c
  | .choice _ alphabet => ∀ d ∈ alphabet, P d

/-- A letter of the alphabets that a first letter is drawn from. -/
def PastHex (c : Char) : Prop := c ∈ mixedFirstLetter ∨ c ∈ mixedFirstLetter.map Char.toUpper

lemma lower_of_first : ∀ c ∈ mixedFirstLetter, c ∈ lowerLetters :=
  forall_mem_of_all (by decide)

lemma upper_of_first : ∀ c ∈ mixedFirstLetter.map Char.toUpper, c ∈ upperLetters :=
  forall_mem_of_all (by decide)

lemma template_cons (used : Bool) (c : Char) (s : Text) :
    ∃ e, e.Proper ∧ e.Draws (Alike c) ∧
      ((c ∉ lowerLetters ∧ c ∉ upperLetters ∧ template used (c :: s) = e :: template used s) ∨
        ((used = false → e.Draws PastHex) ∧ template used (c :: s) = e :: template true s)) := by
  rw [template]
  by_cases h₁ : c ∈ decDigits
  · refine ⟨.choice 10 decDigits, ⟨by decide, by decide, by decide⟩,
      fun d hd => alike_of_digits h₁ hd,
      .inl ⟨(not_letter_of_digit c h₁).1, (not_letter_of_digit c h₁).2, if_pos h₁⟩⟩
  rw [if_neg h₁]
  by_cases h₂ : c ∈ lowerLetters
  · rw [if_pos h₂]
    cases used with
    | true =>
      exact ⟨.choice 26 lowerLetters, ⟨by decide, by decide, by decide⟩,
        fun d hd => alike_of_lower h₂ hd, .inr ⟨nofun, rfl⟩⟩
    | false =>
      exact ⟨.choice 20 mixedFirstLetter, ⟨by decide, by decide, by decide⟩,
        fun d hd => alike_of_lower h₂ (lower_of_first d hd), .inr ⟨fun _ d hd => .inl hd, rfl⟩⟩
  rw [if_neg h₂]
  by_cases h₃ : c ∈ upperLetters
  · rw [if_pos h₃]
    cases used with
    | true =>
      exact ⟨.choice 26 upperLetters, ⟨by decide, by decide, by decide⟩,
        fun d hd => alike_of_upper h₃ hd, .inr ⟨nofun, rfl⟩⟩
    | false =>
      exact ⟨.choice 20 (mixedFirstLetter.map Char.toUpper), ⟨by decide, by decide, by decide⟩,
        fun d hd => alike_of_upper h₃ (upper_of_first d hd), .inr ⟨fun _ d hd => .inr hd, rfl⟩⟩
  · exact ⟨.verbatim c, trivial, Alike.refl c, .inl ⟨h₂, h₃, if_neg h₃⟩⟩

lemma template_proper (used : Bool) (t : Text) : ∀ e ∈ template used t, e.Proper := by
  induction t generalizing used with
  | nil => exact fun e he => absurd he not_mem_nil
  | cons c t ih =>
    obtain ⟨e, hproper, -, ⟨-, -, heq⟩ | ⟨-, heq⟩⟩ := template_cons used c t
    all_goals
      rw [heq, forall_mem_cons]
      exact ⟨hproper, ih _⟩

/-- The picks of a template: one below each radix. -/
def Picks (entries : List Entry) (picks : List ℕ) : Prop :=
  List.Forall₂ (· < ·) picks (radices entries)

lemma Picks.choice {radix : ℕ} {alphabet : Text}
    (h : Picks (.choice radix alphabet :: entries) picks) :
    ∃ p ps, picks = p :: ps ∧ p < radix ∧ Picks entries ps := by
  cases h with
  | cons hlt hps => exact ⟨_, _, rfl, hlt, hps⟩

lemma radices_pos (h : ∀ e ∈ entries, e.Proper) :
    ∀ r ∈ radices entries, 0 < r := by
  intro r hr
  obtain ⟨e, he, heq⟩ := mem_filterMap.1 hr
  cases e with
  | verbatim c => cases heq
  | choice radix alphabet =>
    cases heq
    exact (h _ he).1

lemma mixedPicks_lt (h : ∀ r ∈ rs, 0 < r) (v : ℕ) :
    List.Forall₂ (· < ·) (mixedPicks rs v) rs := by
  induction rs with
  | nil => exact .nil
  | cons r rs ih =>
    refine .cons (Nat.mod_lt _ (h r mem_cons_self)) (ih fun r' hr' => h r' ?_)
    exact mem_cons_of_mem _ hr'

lemma mod_prod_of_mixedPicks {v v' : ℕ} (h : mixedPicks rs v = mixedPicks rs v') :
    v % rs.prod = v' % rs.prod := by
  induction rs with
  | nil => simp [Nat.mod_one]
  | cons r rs ih =>
    rw [mixedPicks, mixedPicks, cons.injEq] at h
    rw [prod_cons, Nat.mul_comm, Nat.mod_mul, Nat.mod_mul, ih h.2, h.1]

/-- What is filled in tells the picks apart. -/
lemma fill_injective (hp : ∀ e ∈ entries, e.Proper) {picks' : List ℕ}
    (h : Picks entries picks) (h' : Picks entries picks')
    (heq : fill entries picks = fill entries picks') : picks = picks' := by
  induction entries generalizing picks picks' with
  | nil =>
    cases h
    cases h'
    rfl
  | cons e entries ih =>
    have hrest : ∀ e ∈ entries, e.Proper := fun e he => hp e (mem_cons_of_mem _ he)
    cases e with
    | verbatim c =>
      rw [fill, fill, cons.injEq] at heq
      exact ih hrest h h' heq.2
    | choice radix alphabet =>
      obtain ⟨_, rfl, hnodup⟩ := hp _ mem_cons_self
      obtain ⟨p, ps, rfl, hlt, hps⟩ := h.choice
      obtain ⟨p', ps', rfl, hlt', hps'⟩ := h'.choice
      rw [fill, fill, cons.injEq] at heq
      have hget : alphabet[p] = alphabet[p'] := by
        rw [getElem_eq_getD '0', getElem_eq_getD '0', heq.1]
      rw [hnodup.getElem_inj_iff.1 hget, ih hrest hps hps' heq.2]

lemma fill_cons {e : Entry} (he : e.Proper)
    (h : Picks (e :: entries) picks) :
    ∃ d ps, fill (e :: entries) picks = d :: fill entries ps ∧ Picks entries ps ∧
      ∀ P : Char → Prop, e.Draws P → P d := by
  cases e with
  | verbatim c => exact ⟨c, picks, rfl, h, fun P hP => hP⟩
  | choice radix alphabet =>
    obtain ⟨-, rfl, -⟩ := he
    obtain ⟨p, ps, rfl, hlt, hps⟩ := h.choice
    refine ⟨_, ps, rfl, hps, fun P hP => hP _ ?_⟩
    rw [← getElem_eq_getD (h := hlt) '0']
    exact getElem_mem hlt

lemma fill_alike {used : Bool} (h : Picks (template used s) picks) :
    List.Forall₂ Alike s (fill (template used s) picks) := by
  induction s generalizing used picks with
  | nil => exact .nil
  | cons c s ih =>
    obtain ⟨e, hproper, halike, ⟨-, -, heq⟩ | ⟨-, heq⟩⟩ := template_cons used c s
    all_goals
      rw [heq] at h ⊢
      obtain ⟨d, ps, hfill, hps, hdraws⟩ := fill_cons hproper h
      rw [hfill]
      exact .cons (hdraws _ halike) (ih hps)

/-- The first letter of a filled-in template is past those of hexadecimal numbers. -/
lemma fill_pastHex (h : Picks (template false s) picks)
    (hletter : ∃ c ∈ s, c ∈ lowerLetters ∨ c ∈ upperLetters) :
    ∃ c ∈ fill (template false s) picks, PastHex c := by
  induction s generalizing picks with
  | nil =>
    obtain ⟨c, hc, -⟩ := hletter
    exact absurd hc not_mem_nil
  | cons c s ih =>
    obtain ⟨e, hproper, -, hcase⟩ := template_cons false c s
    rcases hcase with ⟨hlower, hupper, heq⟩ | ⟨hpast, heq⟩
    all_goals
      rw [heq] at h ⊢
      obtain ⟨d, ps, hfill, hps, hdraws⟩ := fill_cons hproper h
      rw [hfill]
    · have hrest : ∃ c ∈ s, c ∈ lowerLetters ∨ c ∈ upperLetters := by
        obtain ⟨l, hl, hl'⟩ := hletter
        rcases mem_cons.1 hl with rfl | hl
        · exact absurd hl' (not_or.2 ⟨hlower, hupper⟩)
        · exact ⟨l, hl, hl'⟩
      obtain ⟨l, hl, hlpast⟩ := ih hps hrest
      exact ⟨l, mem_cons_of_mem _ hl, hlpast⟩
    · exact ⟨d, mem_cons_self, hdraws _ (hpast rfl)⟩

/-! ### Numbers in base 16 -/

/-- A digit of a number in base 16, in one case or the other. -/
def hexChar (case : LetterCase) (n : ℕ) : Char :=
  match case with
  | .lower => Nat.digitChar n
  | .upper => (Nat.digitChar n).toUpper

def isHex (case : LetterCase) (c : Char) : Bool :=
  match case with
  | .lower => isHexLower c
  | .upper => isHexUpper c

lemma applyCase_digits (case : LetterCase) (ns : List ℕ) :
    applyCase case (ns.map Nat.digitChar) = ns.map (hexChar case) := by
  cases case with
  | lower => rfl
  | upper => exact map_map

lemma isHex_hexChar (case : LetterCase) : ∀ n < 16, isHex case (hexChar case n) = true := by
  cases case <;> decide

lemma hexChar_letter (case : LetterCase) : ∀ i < 6, (hexChar case (10 + i)).isDigit = false := by
  cases case <;> decide

lemma hexChar_injOn (case : LetterCase) : Set.InjOn (hexChar case) (Set.Iio 16) := by
  have hall : ∀ m < 16, ∀ n < 16, hexChar case m = hexChar case n → m = n := by
    cases case <;> decide
  exact fun m hm n hn h => hall m hm n hn h

lemma map_hexChar_injective {ms ns : List ℕ} (hm : ∀ m ∈ ms, m < 16)
    (hn : ∀ n ∈ ns, n < 16) (h : ms.map (hexChar case) = ns.map (hexChar case)) : ms = ns := by
  induction ms generalizing ns with
  | nil => exact (map_eq_nil_iff.1 h.symm).symm
  | cons m ms ih =>
    cases ns with
    | nil => cases h
    | cons n ns =>
      rw [forall_mem_cons] at hm hn
      rw [map_cons, map_cons, cons.injEq] at h
      rw [hexChar_injOn case hm.1 hn.1 h.1, ih hm.2 hn.2 h.2]

/-- The digits of a stand-in in base 16: the first one is a letter. -/
def hexDigits (w x : ℕ) : List ℕ :=
  (10 + x % (6 * 16 ^ w) / 16 ^ w) :: numeral 16 w (x % (6 * 16 ^ w) % 16 ^ w)

lemma hexDigits_first (w x : ℕ) : x % (6 * 16 ^ w) / 16 ^ w < 6 := by
  rw [Nat.div_lt_iff_lt_mul (by positivity)]
  exact Nat.mod_lt _ (by positivity)

lemma hexDigits_lt : ∀ d ∈ hexDigits w x, d < 16 := by
  intro d hd
  rcases mem_cons.1 hd with rfl | hd
  · have := hexDigits_first w x
    omega
  · exact lt_of_mem_numeral (by norm_num) hd

lemma hexPadded_eq {n : ℕ} (h : n < 16 ^ w) (hw : 0 < w) :
    hexPadded w n = (numeral 16 w n).map Nat.digitChar :=
  leftpad_toDigits (by norm_num) hw h

lemma render_hex (x : ℕ) (case : LetterCase) :
    render { shape := .hex, width := w + 1 } x case =
      some ((hexDigits w x).map (hexChar case)) := by
  have hfirst : ∀ i < 6, hexFirst.getD i '0' = Nat.digitChar (10 + i) := by decide
  have hrest : (if 1 < w + 1 then hexPadded w (x % (6 * 16 ^ w) % 16 ^ w) else []) =
      (numeral 16 w (x % (6 * 16 ^ w) % 16 ^ w)).map Nat.digitChar := by
    rcases Nat.eq_zero_or_pos w with rfl | hw
    · rfl
    · rw [if_pos (by omega), hexPadded_eq (Nat.mod_lt _ (by positivity)) hw]
  rw [← applyCase_digits]
  simp only [render, Nat.add_sub_cancel]
  rw [hfirst _ (hexDigits_first w x), hrest]
  rfl

lemma hexDigits_injOn (w : ℕ) : Set.InjOn (hexDigits w) (Set.Iio (6 * 16 ^ w)) := by
  intro x hx y hy h
  rw [hexDigits, hexDigits, Nat.mod_eq_of_lt hx, Nat.mod_eq_of_lt hy, cons.injEq] at h
  obtain ⟨hfirst, hrest⟩ := h
  have hlow : x % 16 ^ w = y % 16 ^ w :=
    numeral_injOn 16 w (Nat.mod_lt _ (by positivity)) (Nat.mod_lt _ (by positivity)) hrest
  rw [← Nat.div_add_mod x (16 ^ w), ← Nat.div_add_mod y (16 ^ w), hlow, Nat.add_left_cancel hfirst]

/-! ### GUIDs -/

def dashed (h : Text) : Text :=
  slice h 0 8 ++ '-' :: slice h 8 12 ++ '-' :: slice h 12 16 ++ '-' :: slice h 16 20 ++
    '-' :: slice h 20 32

/-- The digits of a GUID, two for a byte. -/
def guidDigits (x : ℕ) : List ℕ := (guidBytes x).flatMap (numeral 16 2)

/-- What is left of a number in a GUID: the bits that neither the version nor the variant is written
over. -/
def guidFree (x : ℕ) : ℕ × ℕ × ℕ := (x % 2 ^ 62, x / 2 ^ 64 % 2 ^ 12, x / 2 ^ 80 % 2 ^ 48)

lemma map_slice {α β : Type} (f : α → β) (t : List α) (i j : ℕ) :
    (slice t i j).map f = slice (t.map f) i j := by
  rw [slice, slice, map_drop, map_take]

lemma applyCase_dashed (case : LetterCase) (h : Text) :
    applyCase case (dashed h) = dashed (applyCase case h) := by
  cases case with
  | lower => rfl
  | upper =>
    have hdash : '-'.toUpper = '-' := by decide
    simp only [applyCase, dashed, map_append, map_cons, map_slice, hdash]

lemma join_slices (hlen : h.length = 32) :
    slice h 0 8 ++ slice h 8 12 ++ slice h 12 16 ++ slice h 16 20 ++ slice h 20 32 = h := by
  have hzero : slice h 0 8 = h.take 8 := rfl
  rw [hzero, take_append_slice (by norm_num), take_append_slice (by norm_num),
    take_append_slice (by norm_num), take_append_slice (by norm_num), ← hlen, take_length]

lemma dashed_injective {h' : Text} (hlen : h.length = 32) (hlen' : h'.length = 32)
    (heq : dashed h = dashed h') : h = h' := by
  have hsame : ∀ {i j : ℕ}, j ≤ 32 → (slice h i j).length = (slice h' i j).length := by
    intro i j hj
    rw [slice_length (hlen.symm ▸ hj), slice_length (hlen'.symm ▸ hj)]
  obtain ⟨heq, h₅⟩ := append_inj' heq (congrArg (· + 1) (hsame (by norm_num)))
  obtain ⟨heq, h₄⟩ := append_inj' heq (congrArg (· + 1) (hsame (by norm_num)))
  obtain ⟨heq, h₃⟩ := append_inj' heq (congrArg (· + 1) (hsame (by norm_num)))
  obtain ⟨h₁, h₂⟩ := append_inj' heq (congrArg (· + 1) (hsame (by norm_num)))
  rw [← join_slices hlen, ← join_slices hlen', h₁, (cons.inj h₂).2, (cons.inj h₃).2,
    (cons.inj h₄).2, (cons.inj h₅).2]

/-- The bytes of a GUID: the version is written over the upper half of the seventh, the variant over
two bits of the ninth. -/
lemma guidBytes_eq (x : ℕ) :
    guidBytes x = numeral 256 6 (x / 2 ^ 80) ++
      ([x / 2 ^ 72 % 16 + 64, x / 2 ^ 64 % 256, x / 2 ^ 56 % 64 + 128] ++ numeral 256 7 x) := by
  have hbytes : (range 16).map (fun i => x % 2 ^ 128 / 256 ^ (15 - i) % 256) =
      numeral 256 6 (x / 2 ^ 80) ++
        ([x / 2 ^ 72 % 256, x / 2 ^ 64 % 256, x / 2 ^ 56 % 256] ++ numeral 256 7 x) := by
    calc (range 16).map (fun i => x % 256 ^ 16 / 256 ^ (15 - i) % 256)
      _ = numeral 256 16 (x % 256 ^ 16) := (numeral_eq_map 256 16 _).symm
      _ = numeral 256 (6 + (3 + 7)) x := numeral_mod 256 16 x
      _ = _ := by
        simp [numeral, Nat.div_div_eq_div_mul]
  have hmarked : ∀ bs bs' : List ℕ, bs.length = 6 → ∀ b₀ b₁ b₂ : ℕ,
      ((bs ++ ([b₀, b₁, b₂] ++ bs')).modify 6 fun b => b % 16 + 64).modify 8
        (fun b => b % 64 + 128) =
        bs ++ ([b₀ % 16 + 64, b₁, b₂ % 64 + 128] ++ bs') := by
    intro bs bs' hlen b₀ b₁ b₂
    have hsix : ∃ a₀ a₁ a₂ a₃ a₄ a₅, [a₀, a₁, a₂, a₃, a₄, a₅] = bs := by
      simpa [length_eq_succ_iff, length_eq_zero_iff] using hlen
    obtain ⟨a₀, a₁, a₂, a₃, a₄, a₅, rfl⟩ := hsix
    rfl
  rw [guidBytes, hbytes, hmarked _ _ (length_numeral 256 6 _), Nat.mod_mod_of_dvd _ (by norm_num),
    Nat.mod_mod_of_dvd _ (by norm_num)]

lemma length_guidBytes (x : ℕ) : (guidBytes x).length = 16 := by
  simp [guidBytes]

lemma guidBytes_lt : ∀ b ∈ guidBytes x, b < 256 := by
  intro b hb
  rw [guidBytes_eq, mem_append, mem_append] at hb
  rcases hb with hb | hb | hb
  · exact lt_of_mem_numeral (by norm_num) hb
  · simp only [mem_cons, not_mem_nil, or_false] at hb
    omega
  · exact lt_of_mem_numeral (by norm_num) hb

lemma flatMap_numeral_injective {bs bs' : List ℕ} (h : ∀ b ∈ bs, b < 256) (h' : ∀ b ∈ bs', b < 256)
    (heq : bs.flatMap (numeral 16 2) = bs'.flatMap (numeral 16 2)) : bs = bs' := by
  induction bs generalizing bs' with
  | nil =>
    cases bs' with
    | nil => rfl
    | cons b' bs' => cases heq
  | cons b bs ih =>
    cases bs' with
    | nil => cases heq
    | cons b' bs' =>
      rw [forall_mem_cons] at h h'
      obtain ⟨hfirst, hrest⟩ := append_inj heq rfl
      rw [numeral_injOn 16 2 h.1 h'.1 hfirst, ih h.2 h'.2 hrest]

/-- Two numbers have the same bytes in a GUID if and only if they agree in the bits that are
left. -/
lemma guidBytes_eq_iff : guidBytes x = guidBytes y ↔ guidFree x = guidFree y := by
  have hlow : x % 2 ^ 62 = y % 2 ^ 62 ↔
      x % 256 ^ 7 = y % 256 ^ 7 ∧ x / 2 ^ 56 % 64 = y / 2 ^ 56 % 64 :=
    mod_mul_eq_iff (a := 2 ^ 56) (c := 2 ^ 6)
  have hmid : x / 2 ^ 64 % 2 ^ 12 = y / 2 ^ 64 % 2 ^ 12 ↔
      x / 2 ^ 64 % 256 = y / 2 ^ 64 % 256 ∧ x / 2 ^ 72 % 16 = y / 2 ^ 72 % 16 := by
    rw [show 2 ^ 72 = 2 ^ 64 * 256 from rfl, ← Nat.div_div_eq_div_mul, ← Nat.div_div_eq_div_mul]
    exact mod_mul_eq_iff (a := 2 ^ 8) (c := 2 ^ 4)
  have hhigh : x / 2 ^ 80 % 2 ^ 48 = y / 2 ^ 80 % 2 ^ 48 ↔
      numeral 256 6 (x / 2 ^ 80) = numeral 256 6 (y / 2 ^ 80) := by
    rw [numeral_eq_iff, show 2 ^ 48 = 256 ^ 6 by norm_num]
  rw [guidFree, guidFree, Prod.mk.injEq, Prod.mk.injEq, hlow, hmid, hhigh, guidBytes_eq,
    guidBytes_eq, append_eq_append_iff_of_size_eq_left (by simp)]
  simp only [cons_append, nil_append, cons.injEq, Nat.add_right_cancel_iff,
    numeral_eq_iff]
  tauto

lemma length_guidDigits (x : ℕ) : (guidDigits x).length = 32 := by
  simp [guidDigits, length_flatMap, length_guidBytes]

lemma guidDigits_lt : ∀ d ∈ guidDigits x, d < 16 := by
  intro d hd
  obtain ⟨b, -, hd⟩ := mem_flatMap.1 hd
  exact lt_of_mem_numeral (by norm_num) hd

lemma render_guid (x : ℕ) (case : LetterCase) :
    render { shape := .guid } x case = some (dashed ((guidDigits x).map (hexChar case))) := by
  have hbytes : (guidBytes x).flatMap (hexPadded 2) = (guidDigits x).map Nat.digitChar := by
    rw [guidDigits, map_flatMap]
    refine flatMap_congr fun b hb => ?_
    exact hexPadded_eq (guidBytes_lt b hb) (by norm_num)
  rw [← applyCase_digits, ← hbytes, ← applyCase_dashed]
  rfl

lemma render_guid_eq_iff :
    render { shape := .guid } x case = render { shape := .guid } y case ↔
    guidFree x = guidFree y := by
  rw [render_guid, render_guid, ← guidBytes_eq_iff, Option.some_inj]
  constructor
  · intro h
    have hchars := dashed_injective (by simp [length_guidDigits]) (by simp [length_guidDigits]) h
    have hdigits := map_hexChar_injective guidDigits_lt guidDigits_lt hchars
    exact flatMap_numeral_injective guidBytes_lt guidBytes_lt hdigits
  · intro h
    rw [guidDigits, guidDigits, h]

/-! ### Different numbers, different texts -/

lemma render_digits_injective
    (hx : x < 9 * 10 ^ (w - 1)) (hy : y < 9 * 10 ^ (w - 1))
    (h : render { shape := .digits, width := w } x case =
      render { shape := .digits, width := w } y case') : x = y := by
  have htext : Nat.toDigits 10 (10 ^ (w - 1) + x) = Nat.toDigits 10 (10 ^ (w - 1) + y) := by
    simpa [render, Nat.mod_eq_of_lt hx, Nat.mod_eq_of_lt hy] using h
  have hread := congrArg (Nat.ofDigitChars 10 · 0) htext
  rw [Nat.ofDigitChars_ten_toDigits, Nat.ofDigitChars_ten_toDigits] at hread
  exact Nat.add_left_cancel hread

lemma render_hex_injective
    (hx : x < 6 * 16 ^ w) (hy : y < 6 * 16 ^ w)
    (h : render { shape := .hex, width := w + 1 } x case =
      render { shape := .hex, width := w + 1 } y case) : x = y := by
  rw [render_hex, render_hex, Option.some_inj] at h
  exact hexDigits_injOn w hx hy (map_hexChar_injective hexDigits_lt hexDigits_lt h)

lemma picks_of_mixedPicks (h : ∀ e ∈ entries, e.Proper) (v : ℕ) :
    Picks entries (mixedPicks (radices entries) v) :=
  mixedPicks_lt (radices_pos h) v

lemma render_mixed_injective
    (hp : ∀ e ∈ entries, e.Proper)
    (hx : x < (radices entries).prod) (hy : y < (radices entries).prod)
    (h : render { shape := .mixed, width := w, template := entries } x case =
      render { shape := .mixed, width := w, template := entries } y case') : x = y := by
  have hfill : fill entries (mixedPicks (radices entries) x) =
      fill entries (mixedPicks (radices entries) y) := by
    simpa [render, space, Nat.mod_eq_of_lt hx, Nat.mod_eq_of_lt hy] using h
  have hpicks := fill_injective hp (picks_of_mixedPicks hp x) (picks_of_mixedPicks hp y) hfill
  have hmod := mod_prod_of_mixedPicks hpicks
  rwa [Nat.mod_eq_of_lt hx, Nat.mod_eq_of_lt hy] at hmod

/-- The case of the letters does not merge numbers either: the first digit of a hexadecimal number
is a letter. -/
lemma render_injective_cases (hf : Produced fmt) (hguid : fmt.shape ≠ .guid)
    (hnone : fmt.shape ≠ .none) (hx : x < space fmt)
    (hy : y < space fmt) (h : render fmt x case = render fmt y case') : x = y := by
  cases hf.known with
  | none => exact absurd rfl hnone
  | guid => exact absurd rfl hguid
  | digits hw => exact render_digits_injective hx hy h
  | mixed _ _ _ => exact render_mixed_injective (template_proper _ _) hx hy h
  | @hex w hw =>
    obtain ⟨w, rfl⟩ := Nat.exists_eq_succ_of_ne_zero hw.ne'
    have hletter : ∀ i < 6, ∀ j < 6, ∀ case case', hexChar case (10 + i) = hexChar case' (10 + j) →
        case = case' := by
      intro i hi j hj case case'
      revert i j
      cases case <;> cases case' <;> decide
    have hcase : case = case' := by
      have htext := h
      rw [render_hex, render_hex, Option.some_inj, hexDigits, hexDigits, map_cons, map_cons,
        cons.injEq] at htext
      exact hletter _ (hexDigits_first w x) _ (hexDigits_first w y) _ _ htext.1
    rw [hcase] at h
    exact render_hex_injective hx hy h

/-- Rendering merges two numbers of a format's space for GUIDs only, and there if and only if they
agree in all bits but those of the version and the variant. -/
theorem render_eq_iff {fmt : Format} (hf : Produced fmt) (case : LetterCase) {x y : ℕ}
    (hx : x < space fmt) (hy : y < space fmt) :
    render fmt x case = render fmt y case ↔
      x = y ∨ (fmt.shape = .guid ∧ guidFree x = guidFree y) := by
  constructor
  · intro h
    cases hf.known with
    | none =>
      have hx' : x < 1 := hx
      have hy' : y < 1 := hy
      exact .inl (by omega)
    | guid => exact .inr ⟨rfl, render_guid_eq_iff.1 h⟩
    | digits _ | hex _ | mixed _ _ _ => exact .inl (render_injective_cases hf nofun nofun hx hy h)
  · rintro (rfl | ⟨hshape, hfree⟩)
    · rfl
    · cases hf.known with
      | guid => exact render_guid_eq_iff.2 hfree
      | none | digits _ | hex _ | mixed _ _ _ => cases hshape

theorem render_eq_iff_counters :
    render { shape := .guid } 0 .lower ≠ render { shape := .guid } 1 .lower := by
  intro h
  have hguid : Produced { shape := .guid } := .widen (w := { shape := .guid }) rfl
  rcases (render_eq_iff hguid .lower (by decide) (by decide)).1 h with h | ⟨-, h⟩
  · exact absurd h (by decide)
  · exact absurd h (by decide)

/-- Two numbers below 2 ^ 122 that are the same GUID: they differ in a bit of the variant. -/
theorem render_merges_guids :
    Produced { shape := .guid } ∧ 0 < space { shape := .guid } ∧ 2 ^ 62 < space { shape := .guid } ∧
      render { shape := .guid } 0 .lower = render { shape := .guid } (2 ^ 62) .lower :=
  ⟨.widen (w := { shape := .guid }) rfl, by decide, by decide, render_guid_eq_iff.2 (by decide)⟩

end Stoker
