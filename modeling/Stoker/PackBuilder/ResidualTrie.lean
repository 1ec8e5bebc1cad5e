import Mathlib.Computability.Language
import Mathlib.Data.List.Sort
import Stoker.PackBuilder.Format

/-!
# The trie of the residual scan

`_trie_pattern` of `server/packbuilder/pseudonym.py` puts the originals into a trie and
`_trie_to_regex` writes the trie as one pattern. `readPattern` says what the engine of Python takes
such a text to mean: characters, groups, alternatives and optional groups.
-/

open List

namespace Stoker

/-! ### Patterns -/

/-- The characters that `re.escape` puts a backslash in front of. -/
def specialChars : List Char :=
  ['(', ')', '[', ']', '{', '}', '?', '*', '+', '-', '|', '^', '$', '\\', '.', '&', '~', '#',
    ' ', '\t', '\n', '\r', '\x0b', '\x0c']

def reEscape (ch : Char) : Text := if ch ∈ specialChars then ['\\', ch] else [ch]

/-- The language of a pattern, read from left to right: `alts` is that of the alternatives already
read of the innermost group, `seq` that of the one being read, and `groups` holds both for the
groups around it. A pattern that has anything else in it is not read. -/
noncomputable def readPattern (groups : List (Language Char × Language Char))
    (alts seq : Language Char) : Text → Option (Language Char)
  | [] => if groups = [] then some (alts + seq) else none
  | ch :: t =>
    if ch ∉ specialChars then readPattern groups alts (seq * {[ch]}) t
    else match ch, t, groups with
      | '\\', ch :: t, _ => if ch ∈ specialChars then readPattern groups alts (seq * {[ch]}) t
          else none
      | '(', '?' :: ':' :: t, _ => readPattern ((alts, seq) :: groups) 0 1 t
      | '|', t, _ => readPattern groups (alts + seq) 1 t
      | ')', '?' :: t, (alts', seq') :: groups =>
          readPattern groups alts' (seq' * (1 + (alts + seq))) t
      | ')', t, (alts', seq') :: groups => readPattern groups alts' (seq' * (alts + seq)) t
      | _, _, _ => none

noncomputable def patternLanguage (pattern : Text) : Option (Language Char) :=
  readPattern [] 0 1 pattern

/-- A text that is read as one language wherever it stands, unless a question mark follows. -/
def ReadsAs (text : Text) (L : Language Char) : Prop :=
  ∀ groups alts seq rest, rest.head? ≠ some '?' →
    readPattern groups alts seq (text ++ rest) = readPattern groups alts (seq * L) rest

lemma ReadsAs.nil : ReadsAs [] 1 := by
  intro groups alts seq rest _
  rw [nil_append, mul_one]

variable {ch : Char}

section Reading

variable (groups : List (Language Char × Language Char)) (alts seq alts' seq' : Language Char)
  (t : Text)

lemma readPattern_char (h : ch ∉ specialChars) :
    readPattern groups alts seq (ch :: t) = readPattern groups alts (seq * {[ch]}) t := by
  rw [readPattern.eq_def]
  exact if_pos h

lemma readPattern_escaped (h : ch ∈ specialChars) :
    readPattern groups alts seq ('\\' :: ch :: t) = readPattern groups alts (seq * {[ch]}) t :=
      if_pos h

lemma readPattern_open :
    readPattern groups alts seq ('(' :: '?' :: ':' :: t) =
      readPattern ((alts, seq) :: groups) 0 1 t := rfl

lemma readPattern_bar :
    readPattern groups alts seq ('|' :: t) = readPattern groups (alts + seq) 1 t := rfl

lemma readPattern_optional :
    readPattern ((alts', seq') :: groups) alts seq (')' :: '?' :: t) =
      readPattern groups alts' (seq' * (1 + (alts + seq))) t := rfl

lemma readPattern_close (h : t.head? ≠ some '?') :
    readPattern ((alts', seq') :: groups) alts seq (')' :: t) =
      readPattern groups alts' (seq' * (alts + seq)) t := by
  cases t with
  | nil => rfl
  | cons c t =>
    have hc : c ≠ '?' := by simpa using h
    rw [readPattern.eq_def]
    refine (if_neg (not_not_intro (by simp [specialChars]))).trans ?_
    split <;> simp_all

end Reading

variable {L : Language Char} {text : Text}

lemma ReadsAs.reEscape (ch : Char) (h : ReadsAs text L) :
    ReadsAs (reEscape ch ++ text) ({[ch]} * L) := by
  intro groups alts seq rest hrest
  have hch : readPattern groups alts seq (Stoker.reEscape ch ++ (text ++ rest)) =
      readPattern groups alts (seq * {[ch]}) (text ++ rest) := by
    by_cases hs : ch ∈ specialChars
    · simp [Stoker.reEscape, hs, readPattern_escaped]
    · simp [Stoker.reEscape, hs, readPattern_char]
  rw [append_assoc, hch, h _ _ _ _ hrest, mul_assoc]

variable {β : Type*} {f : β → Text} {l : List β}

/-- Alternatives, up to the end of their group. -/
lemma readPattern_alternatives {L : β → Language Char} (hne : l ≠ [])
    (h : ∀ b ∈ l, ReadsAs (f b) (L b)) (groups : List (Language Char × Language Char))
    (alts : Language Char) :
    ∃ alts' seq', alts' + seq' = alts + (l.map L).sum ∧ ∀ t,
      readPattern groups alts 1 (intercalate ['|'] (l.map f) ++ ')' :: t) =
        readPattern groups alts' seq' (')' :: t) := by
  induction l generalizing alts with
  | nil => exact absurd rfl hne
  | cons b l ih =>
    obtain ⟨hb, hl⟩ := forall_mem_cons.1 h
    cases l with
    | nil =>
      refine ⟨alts, L b, by simp, fun t => ?_⟩
      have hread := hb groups alts 1 (')' :: t) (by simp)
      simpa using hread
    | cons c l =>
      obtain ⟨alts', seq', hsum, hread⟩ := ih (cons_ne_nil _ _) hl (alts + L b)
      refine ⟨alts', seq', by simp [hsum, add_assoc], fun t => ?_⟩
      have hfirst := hb groups alts 1 ('|' :: (intercalate ['|'] ((c :: l).map f) ++ ')' :: t))
          (by simp)
      rw [one_mul, readPattern_bar, hread] at hfirst
      simpa [intercalate] using hfirst

def group (body : Text) : Text := "(?:" ++ body ++ [')']

lemma ReadsAs.group {L : β → Language Char} (hne : l ≠ []) (h : ∀ b ∈ l, ReadsAs (f b) (L b)) :
    ReadsAs (group (intercalate ['|'] (l.map f))) (l.map L).sum := by
  intro groups alts seq rest hrest
  obtain ⟨alts', seq', hsum, hread⟩ := readPattern_alternatives hne h ((alts, seq) :: groups) 0
  have hopen := readPattern_open groups alts seq (intercalate ['|'] (l.map f) ++ ')' :: rest)
  rw [hread, readPattern_close _ _ _ _ _ _ hrest, hsum, zero_add] at hopen
  simpa [Stoker.group] using hopen

lemma ReadsAs.optional (h : ReadsAs text L) : ReadsAs (Stoker.group text ++ ['?']) (1 + L) := by
  intro groups alts seq rest _
  have hopen := readPattern_open groups alts seq (text ++ ')' :: '?' :: rest)
  rw [h _ _ _ _ (by simp), readPattern_optional, zero_add, one_mul] at hopen
  simpa [Stoker.group] using hopen

lemma ReadsAs.patternLanguage (h : ReadsAs text L) : patternLanguage text = some L := by
  have hread := h [] 0 1 [] (by simp)
  simpa [Stoker.patternLanguage, readPattern] using hread

/-! ### The trie -/

/-- A node: its children by character, as they were added, and behind them whether a value ends here
(the key `""`). -/
inductive Trie where
  | stop (terminal : Bool)
  | child (ch : Char) (node others : Trie)

namespace Trie

def terminal : Trie → Bool
  | stop terminal => terminal
  | child _ _ others => others.terminal

def setTerminal : Trie → Trie
  | stop _ => stop true
  | child ch node others => child ch node others.setTerminal

/-- Change the child of a character, which `setdefault` adds where it is missing. -/
def atChild (ch : Char) (f : Trie → Trie) : Trie → Trie
  | stop terminal => child ch (f (stop false)) (stop terminal)
  | child c node others =>
    if c = ch then child c (f node) others else child c node (atChild ch f others)

def add : Text → Trie → Trie
  | [], node => node.setTerminal
  | ch :: value, node => node.atChild ch (add value)

end Trie

/-- How `_trie_to_regex` puts the patterns of the children of a node together. -/
def nodePattern (terminal : Bool) (parts : List (Char × Text)) : Text :=
  match (parts.insertionSort fun a b => a.1 ≤ b.1).map Prod.snd with
  | [] => []
  | part :: rest =>
    let body := if rest = [] then part else group (intercalate ['|'] (part :: rest))
    if terminal then group body ++ ['?'] else body

/-- The patterns of the children. -/
def childPatterns : Trie → List (Char × Text)
  | .stop _ => []
  | .child ch node others =>
    (ch, reEscape ch ++ nodePattern node.terminal (childPatterns node)) :: childPatterns others

def trieToRegex (node : Trie) : Text := nodePattern node.terminal (childPatterns node)

def buildTrie (values : List Text) :
    Trie := values.foldl (fun root value => root.add value) (.stop false)

def triePattern (values : List Text) : Text := trieToRegex (buildTrie values)

namespace Trie

def children : Trie → List (Char × Trie)
  | stop _ => []
  | child ch node others => (ch, node) :: others.children

/-- The words that end at or below a node. -/
def words : Trie → Language Char
  | stop terminal => if terminal then 1 else 0
  | child ch node others => {[ch]} * node.words + others.words

lemma words_eq (t : Trie) :
    t.words = (if t.terminal then 1 else 0) +
      (t.children.map fun p => {[p.1]} * p.2.words).sum := by
  induction t with
  | stop terminal => cases terminal <;> simp [words, Trie.terminal, children]
  | child ch node others _ ih =>
    rw [words, ih, children, map_cons, sum_cons, Trie.terminal]
    exact add_left_comm _ _ _

lemma childPatterns_eq (t : Trie) :
    childPatterns t = t.children.map fun p => (p.1, reEscape p.1 ++ trieToRegex p.2) := by
  induction t with
  | stop terminal => rfl
  | child ch node others _ ih => simp [childPatterns, children, trieToRegex, ih]

/-- Below a node, every node without children ends a word. -/
def Dense : Trie → Prop
  | stop _ => True
  | child _ node others => node ≠ stop false ∧ node.Dense ∧ others.Dense

variable {t : Trie}

lemma terminal_of_childless (ht : t ≠ stop false) (h : t.children = []) :
    t.terminal = true := by
  cases t with
  | stop terminal => cases terminal <;> simp_all [terminal]
  | child ch node others => cases h

lemma readsAs_of_children (ht : t ≠ stop false)
    (h : ∀ p ∈ t.children, ReadsAs (trieToRegex p.2) p.2.words) :
    ReadsAs (trieToRegex t) t.words := by
  set sorted := t.children.insertionSort fun p q => p.1 ≤ q.1 with hsorted
  have hperm : sorted ~ t.children := perm_insertionSort _ _
  have hparts : ((childPatterns t).insertionSort fun a b => a.1 ≤ b.1).map Prod.snd =
      sorted.map fun p => reEscape p.1 ++ trieToRegex p.2 := by
    rw [childPatterns_eq, ← map_insertionSort (fun p q => p.1 ≤ q.1) _ _ _ (fun a _ b _ => Iff.rfl),
      map_map]
    rfl
  have hread : ∀ p ∈ sorted, ReadsAs (reEscape p.1 ++ trieToRegex p.2) ({[p.1]} * p.2.words) :=
    fun p hp => (h p (hperm.mem_iff.1 hp)).reEscape p.1
  rw [words_eq, ← (hperm.map fun p => {[p.1]} * p.2.words).sum_eq, trieToRegex, nodePattern, hparts]
  cases hl : sorted with
  | nil =>
    have hnil : t.children = [] := (hl ▸ hperm).nil_eq.symm
    have hterm : t.terminal = true := terminal_of_childless ht hnil
    simpa [hterm] using ReadsAs.nil
  | cons p l =>
    rw [hl] at hread
    have hbody : ReadsAs
        (if l.map (fun p => reEscape p.1 ++ trieToRegex p.2) = [] then reEscape p.1 ++
          trieToRegex p.2
          else group (intercalate ['|'] ((p :: l).map fun p => reEscape p.1 ++ trieToRegex p.2)))
        ((p :: l).map fun p => {[p.1]} * p.2.words).sum := by
      cases l with
      | nil => simpa using hread p
      | cons q l => simpa using ReadsAs.group (cons_ne_nil p _) hread
    cases t.terminal with
    | true => exact hbody.optional
    | false => simpa using hbody

lemma readsAs_children (ht : t.Dense) :
    ∀ p ∈ t.children, ReadsAs (trieToRegex p.2) p.2.words := by
  induction t with
  | stop terminal => simp [children]
  | child ch node others ihNode ihOthers =>
    obtain ⟨hne, hnode, hothers⟩ := ht
    rw [children, forall_mem_cons]
    exact ⟨readsAs_of_children hne (ihNode hnode), ihOthers hothers⟩

/-! ### Building it -/

/-- One value was added. -/
structure Grown (value : Text) (t t' : Trie) : Prop where
  words : t'.words = {value} + t.words
  dense : t.Dense → t'.Dense
  ne_stop : t' ≠ stop false

lemma grown_setTerminal (t : Trie) : Grown [] t t.setTerminal := by
  induction t with
  | stop terminal =>
    refine ⟨?_, id, by simp [setTerminal]⟩
    change 1 = 1 + words (stop terminal)
    cases terminal <;> simp [words]
  | child ch node others _ ih =>
    refine ⟨?_, fun h => ⟨h.1, h.2.1, ih.dense h.2.2⟩, by simp [setTerminal]⟩
    rw [setTerminal, words, words, ih.words, add_left_comm]

lemma grown_atChild {value : Text} {f : Trie → Trie} (hf : ∀ t, Grown value t (f t))
    (t : Trie) : Grown (ch :: value) t (t.atChild ch f) := by
  have hcons : ({[ch]} * {value} : Language Char) = {ch :: value} := Set.image2_singleton
  induction t with
  | stop terminal =>
    refine ⟨?_, fun h => ⟨(hf _).ne_stop, (hf _).dense trivial, h⟩, by simp [atChild]⟩
    simp [atChild, words, (hf _).words, hcons]
  | child c node others _ ih =>
    by_cases hc : c = ch
    · subst hc
      rw [atChild, if_pos rfl]
      refine ⟨?_, fun h => ⟨(hf _).ne_stop, (hf _).dense h.2.1, h.2.2⟩, by simp⟩
      rw [words, words, (hf _).words, mul_add, hcons, add_assoc]
    · rw [atChild, if_neg hc]
      refine ⟨?_, fun h => ⟨h.1, h.2.1, ih.dense h.2.2⟩, by simp⟩
      rw [words, words, ih.words, add_left_comm]

lemma grown_add (value : Text) (t : Trie) : Grown value t (t.add value) := by
  induction value generalizing t with
  | nil => exact grown_setTerminal t
  | cons ch value ih => exact grown_atChild ih t

end Trie

lemma buildTrie_spec (values : List Text) :
    (buildTrie values).words = {w | w ∈ values} ∧ (buildTrie values).Dense ∧
      (values ≠ [] → buildTrie values ≠ .stop false) := by
  induction values using List.reverseRecOn with
  | nil => exact ⟨by simp [buildTrie, Trie.words]; rfl, trivial, fun h => absurd rfl h⟩
  | append_singleton values value ih =>
    obtain ⟨hwords, hdense, -⟩ := ih
    have hadd : buildTrie (values ++ [value]) = (buildTrie values).add value := by
      simp [buildTrie]
    have hgrown := Trie.grown_add value (buildTrie values)
    rw [hadd]
    refine ⟨?_, hgrown.dense hdense, fun _ => hgrown.ne_stop⟩
    rw [hgrown.words, hwords]
    ext w
    change w = value ∨ w ∈ values ↔ w ∈ values ++ [value]
    rw [mem_append, mem_singleton, or_comm]

/-- The pattern written for the trie of some values is read as the language of exactly these
values. -/
theorem triePattern_language (values : List Text) (h : values ≠ []) :
    patternLanguage (triePattern values) = some {w | w ∈ values} := by
  obtain ⟨hwords, hdense, hne⟩ := buildTrie_spec values
  have hread := Trie.readsAs_of_children (hne h) (Trie.readsAs_children hdense)
  rw [hwords] at hread
  exact hread.patternLanguage

theorem triePattern_language_prefixes :
    patternLanguage "1(?:2(?:(?:\\.3|4))?)?" =
      some {w | w ∈ ["1".toList, "12".toList, "12.3".toList, "124".toList]} :=
  triePattern_language ["1", "12", "12.3", "124"] (cons_ne_nil _ _)

/-- Without values the pattern is empty, and matches the empty text. -/
theorem triePattern_nil : patternLanguage (triePattern []) ≠ some {w | w ∈ ([] : List Text)} := by
  have hnil : patternLanguage (triePattern []) = some 1 := ReadsAs.nil.patternLanguage
  rw [hnil]
  intro h
  have hmem : ([] : Text) ∈ ({w | w ∈ ([] : List Text)} : Language Char) :=
    Option.some.inj h ▸ Language.nil_mem_one
  exact not_mem_nil hmem

end Stoker
