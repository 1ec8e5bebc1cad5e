import Stoker.Packs.Conf

/-!
# Packs of untrusted repos

An untrusted pack that is indexed without errors should stay in its sandbox: no plugin, and no file
read outside the pack. The two checks look at each stanza as it is written, with `[DEFAULT]` behind
it, and step over the sections `[global]` and `[default]`, whose settings the stanzas inherit. They
know the token types `file` and `mvfile` but not `seqfile`, they resolve a replacement with its
column still on it, and the host token is not looked at. What they do look at is contained, so the
pack is sandboxed if and only if the rest is.
-/

open List

namespace Stoker

/-! ### Token keys -/

variable {key idx : Text} {host : Host} {own : Options} {c : Conf} {pack : RepoPack}
    {s : Text × Options}

lemma tokenIndex_eq_some {setting : Text} :
    tokenIndex host setting key = some idx ↔
      key = tokenKey idx setting ∧ idx ≠ [] ∧ idx.all host.isDigit := by
  constructor
  · intro h
    unfold tokenIndex at h
    split at h
    · cases h
    · rename_i rest hrest
      split at h
      · cases h
      · rename_i i hi
        split at h
        · rename_i hdigits
          cases h
          obtain ⟨p, rfl, hp⟩ := dropPrefix?_eq_some_iff.mp hrest
          obtain ⟨q, rfl, hq⟩ := dropSuffix?_eq_some_iff.mp hi
          rw [eq_of_beq hp, eq_of_beq hq]
          exact ⟨(append_assoc _ _ _).symm, hdigits⟩
        · cases h
  · rintro ⟨rfl, hdigits⟩
    have hrest : (tokenKey idx setting).dropPrefix? "token." = some (idx ++ '.' :: setting) :=
      dropPrefix?_eq_some_iff.mpr
        ⟨"token.", append_assoc _ _ _, beq_self_eq_true _⟩
    have hidx : (idx ++ '.' :: setting).dropSuffix? ('.' :: setting) = some idx :=
      dropSuffix?_eq_some_iff.mpr ⟨_, rfl, beq_self_eq_true _⟩
    simp only [tokenIndex, hrest, hidx]
    exact if_pos hdigits

/-! ### What the checks look at -/

lemma Options.get_isSome {o : Options} : (o.get key).isSome ↔ key ∈ o.keys := by
  simp [Options.get, Options.keys, lookup_isSome_iff]

lemma Conf.mem_options :
    key ∈ c.options own ↔ (c.get own key).isSome := by
  simp only [Conf.options, Conf.get, mem_append, mem_filter, decide_eq_true_eq,
    Option.isSome_or, Bool.or_eq_true, Options.get_isSome]
  tauto

/-- A dict filled key by key, where only one key gives an index. -/
lemma lookup_filterMap_of_unique (index : Text → Option Text) (value : Text → Text)
    {keys : List Text} (hmem : key ∈ keys)
    (h : ∀ k, index k = some idx ↔ k = key) :
    (keys.filterMap fun k => (index k).map fun i => (i, value k)).lookup idx =
      some (value key) := by
  induction keys with
  | nil => cases hmem
  | cons k rest ih =>
    by_cases hk : k = key
    · subst hk
      simp [(h k).mpr rfl]
    · have hrest := ih ((mem_cons.mp hmem).resolve_left (Ne.symm hk))
      cases hi : index k with
      | none => simpa [hi] using hrest
      | some i =>
        have hne : (idx == i) = false := by
          refine beq_eq_false_iff_ne.mpr ?_
          rintro rfl
          exact hk ((h k).mp hi)
        simpa [hi, lookup_cons, hne] using hrest

lemma lookup_tokenRepls
    (hidx : idx ≠ [] ∧ idx.all host.isDigit)
    (hkey : (c.get own (tokenKey idx replacementKey)).isSome) :
    (tokenRepls host c own).lookup idx =
      some ((c.get own (tokenKey idx replacementKey)).join.getD []) := by
  refine lookup_filterMap_of_unique (tokenIndex host replacementKey)
    (fun k => (c.get own k).join.getD []) (Conf.mem_options.mpr hkey) ?_
  intro k
  rw [tokenIndex_eq_some]
  exact ⟨fun h => h.1, fun h => ⟨h, hidx⟩⟩

lemma mem_tokenTypes
    (hidx : idx ≠ [] ∧ idx.all host.isDigit)
    (hkey : (c.get own (tokenKey idx replacementTypeKey)).isSome) :
    (idx, host.lower (host.strip ((c.get own (tokenKey idx replacementTypeKey)).join.getD []))) ∈
      tokenTypes host c own := by
  refine mem_filterMap.mpr ⟨_, Conf.mem_options.mpr hkey, ?_⟩
  simp [tokenIndex_eq_some.mpr ⟨rfl, hidx⟩]

/-! ### What they leave -/

namespace Conf

/-- The check sees a token as eventgen does: both its settings stand in the stanza (or `[DEFAULT]`),
its type is one the check knows, and eventgen opens the very path that was resolved. -/
def Checked (host : Host) (c : Conf) (own : Options) : SampleToken → Prop
  | .numbered idx =>
    ((c.get own (tokenKey idx replacementTypeKey)).isSome ∧
      host.lower (c.tokenType host own idx) ∈ checkedTokenTypes) ∧
    (c.get own (tokenKey idx replacementKey)).isSome ∧
    ∀ replacement ∈ c.fileReplacement host own (.numbered idx),
      openedPath host replacement = host.strip replacement
  | .host => False

instance (host : Host) (c : Conf) (own : Options) : DecidablePred (c.Checked host own)
  | .numbered _ => inferInstanceAs (Decidable ((_ ∧ _) ∧ _ ∧ _))
  | .host => isFalse id

end Conf

/-- What the checks leave is contained: a stanza without a `generator` inherits no plugin from
`[global]` or `[default]`, and no token that the check does not see as eventgen does reads a file
outside the pack. -/
def RepoPack.UncheckedContained (host : Host) (pack : RepoPack) : Prop :=
  ∀ c ∈ pack.conf, ∀ s ∈ c.stanzas host,
    (c.get s.2 generatorKey = none →
      isCustomGenerator host (c.packGlobals host generatorKey) = false) ∧
    ∀ t ∈ c.tokens host s.2, ¬ c.Checked host s.2 t →
      ∀ replacement ∈ c.fileReplacement host s.2 t,
        pathEscapes host pack.dir (openedPath host replacement) = false

lemma Conf.mergedStanzaOptions_of_own
    (h : (c.get own key).isSome) : c.mergedStanzaOptions host own key = c.get own key := by
  obtain ⟨v, hv⟩ := Option.isSome_iff_exists.mp h
  simp [Conf.mergedStanzaOptions, hv]

lemma Conf.mergedStanzaOptions_of_inherited
    (h : c.get own key = none) : c.mergedStanzaOptions host own key = c.packGlobals host key := by
  simp [Conf.mergedStanzaOptions, h]

/-- What an index without errors says of an untrusted pack. -/
lemma indexPack_errors_nil
    (h : (indexPack host false pack).errors = []) (hc : pack.conf = some c) :
    generatorStanzas host c = [] ∧ ∀ s ∈ c.stanzas host, ∀ t ∈ tokenTypes host c s.2,
      tokenError host pack.dir c s t.1 t.2 = none := by
  have h' : customCodeErrors host pack = [] ∧ tokenPathEscapeErrors host pack = [] := by
    simp only [indexPack, Bool.false_eq_true, if_false, append_eq_nil_iff] at h
    exact ⟨h.1.2, h.2⟩
  constructor
  · have hcode := (append_eq_nil_iff.mp h'.1).2
    simp only [hc] at hcode
    by_contra hne
    rw [if_neg hne] at hcode
    cases hcode
  · have hpaths := h'.2
    simp only [tokenPathEscapeErrors, hc, flatMap_eq_nil_iff, filterMap_eq_nil_iff] at hpaths
    exact hpaths

lemma tokenError_none {dir : Text}
    {ttype path : Text} (h : tokenError host dir c s idx ttype = none)
    (htype : ttype ∈ checkedTokenTypes) (hpath : (tokenRepls host c s.2).lookup idx = some path)
    (hne : path ≠ []) : pathEscapes host dir (host.strip path) = false := by
  unfold tokenError at h
  rw [if_neg (not_not.mpr htype)] at h
  simp only [hpath, if_neg hne] at h
  by_contra hesc
  rw [if_pos (by simpa using hesc)] at h
  cases h

/-- The check of token paths covers the tokens it sees. -/
lemma Conf.Checked.contained
    {t : SampleToken} {replacement : Text} (h : (indexPack host false pack).errors = [])
    (hc : pack.conf = some c) (hs : s ∈ c.stanzas host) (ht : t ∈ c.tokens host s.2)
    (hchecked : c.Checked host s.2 t) (hrepl : replacement ∈ c.fileReplacement host s.2 t) :
    pathEscapes host pack.dir (openedPath host replacement) = false := by
  cases t with
  | host => exact absurd hchecked id
  | numbered idx =>
    obtain ⟨⟨htype, hknown⟩, hown, hopened⟩ := hchecked
    rw [hopened replacement hrepl]
    -- The index comes from some key, of whichever section, so it is a number.
    have hidx : idx ≠ [] ∧ idx.all host.isDigit := by
      have hmem : idx ∈ (c.mergedKeys host s.2).filterMap (tokenIndex host replacementTypeKey) := by
        simpa [Conf.tokens] using ht
      obtain ⟨key, -, hkey⟩ := mem_filterMap.mp hmem
      exact (tokenIndex_eq_some.mp hkey).2
    have hvalue : (c.get s.2 (tokenKey idx replacementKey)).join = some replacement ∧
        replacement ≠ [] := by
      simp only [Conf.fileReplacement, Conf.mergedStanzaOptions_of_own hown] at hrepl
      split at hrepl
      · simpa [Option.filter_eq_some_iff] using hrepl
      · cases hrepl
    have hlookup := lookup_tokenRepls hidx hown
    rw [hvalue.1, Option.getD_some] at hlookup
    have herror := (indexPack_errors_nil h hc).2 s hs _ (mem_tokenTypes hidx htype)
    rw [Conf.tokenType, Conf.mergedStanzaOptions_of_own htype] at hknown
    exact tokenError_none herror hknown hlookup hvalue.2

/-- The check of generators covers the stanzas that have one. -/
lemma generator_contained
    (h : (indexPack host false pack).errors = []) (hc : pack.conf = some c)
    (hs : s ∈ c.stanzas host) (hown : (c.get s.2 generatorKey).isSome) :
    isCustomGenerator host (c.mergedStanzaOptions host s.2 generatorKey) = false := by
  rw [Conf.mergedStanzaOptions_of_own hown]
  have hnone := (indexPack_errors_nil h hc).1
  rw [generatorStanzas, filterMap_eq_nil_iff] at hnone
  have := hnone s hs
  by_contra hcustom
  rw [if_pos (by simpa using hcustom)] at this
  cases this

theorem sandboxed_iff_uncheckedContained {host : Host} {pack : RepoPack}
    (h : (indexPack host false pack).errors = []) :
    pack.Sandboxed host ↔ pack.UncheckedContained host := by
  constructor
  · intro hsandboxed c hc s hs
    obtain ⟨hgen, htokens⟩ := hsandboxed c hc s hs
    refine ⟨fun hown => ?_, fun t ht _ => htokens t ht⟩
    rwa [Conf.mergedStanzaOptions_of_inherited hown] at hgen
  · intro hcontained c hc s hs
    obtain ⟨hgen, htokens⟩ := hcontained c hc s hs
    constructor
    · by_cases hown : c.get s.2 generatorKey = none
      · rw [Conf.mergedStanzaOptions_of_inherited hown]
        exact hgen hown
      · exact generator_contained h hc hs (Option.isSome_iff_ne_none.mpr hown)
    · intro t ht replacement hrepl
      by_cases hchecked : c.Checked host s.2 t
      · exact hchecked.contained h hc hs ht hrepl
      · exact htokens t ht hchecked replacement hrepl

/-! ### Packs on a disk with one link -/

instance (host : Host) (pack : RepoPack) : Decidable (pack.Sandboxed host) :=
  inferInstanceAs (Decidable (∀ c ∈ pack.conf, ∀ s ∈ c.stanzas host, _ ∧ ∀ t ∈ c.tokens host s.2,
    ∀ replacement ∈ c.fileReplacement host s.2 t, _))

instance (host : Host) (pack : RepoPack) : Decidable (pack.UncheckedContained host) :=
  inferInstanceAs (Decidable (∀ c ∈ pack.conf, ∀ s ∈ c.stanzas host, (_ → _) ∧
    ∀ t ∈ c.tokens host s.2, _ → ∀ replacement ∈ c.fileReplacement host s.2 t, _))

/-- A host where `/packs/p/link` is a link to `/etc`, and every other path is its own real path. -/
def linkedHost : Host where
  strip t := t
  lower t := t.map Char.toLower
  int t := if t.all Char.isDigit then some (t.foldl (fun n c => 10 * n + (c.toNat - 48)) 0)
    else none
  repr t := t
  isDigit := Char.isDigit
  realpath t :=
    match t.dropPrefix? "/packs/p/link" with
    | some [] => "/etc"
    | some ('/' :: rest) => "/etc/" ++ rest
    | _ => t
  pathParser t := t

def sectionOf (settings : List (String × String))
    (nodup : ((settings.map fun kv => (kv.1.toList, some kv.2.toList)).map Prod.fst).Nodup :=
      by decide) : Options :=
  { entries := settings.map fun kv => (kv.1.toList, some kv.2.toList), nodup }

/-- A pack whose conf has a `[global]` section and one stanza. -/
def packWith (globals stanza : Options) : RepoPack where
  dir := "/packs/p"
  conf := some { defaults := sectionOf [],
                 sections := [("global", globals), ("web", stanza)] }

/-- Inherits the default generator, and its `seqfile` token stays in the pack. -/
def tamePack : RepoPack :=
  packWith (sectionOf [("generator", "default"), ("token.1.replacementType", "seqfile")])
    (sectionOf [("token.0.replacementType", "file"), ("token.0.replacement", "samples/users"),
      ("token.1.replacement", "samples/steps")])

theorem tamePack_sandboxed :
    (indexPack linkedHost false tamePack).errors = [] ∧ tamePack.Sandboxed linkedHost :=
  ⟨by decide +kernel, (sandboxed_iff_uncheckedContained (by decide +kernel)).mpr
    (by decide +kernel)⟩

/-- A plugin for all stanzas; a token for all stanzas; the type or the path of a token for all
stanzas; a `seqfile`; a link with a column; a host token. -/
def leakyPacks : List RepoPack :=
  [packWith (sectionOf [("generator", "plugin")]) (sectionOf []),
   packWith (sectionOf [("token.0.replacementType", "file"),
     ("token.0.replacement", "/etc/passwd")])
     (sectionOf []),
   packWith (sectionOf [("token.0.replacementType", "file")])
     (sectionOf [("token.0.replacement", "/etc/passwd")]),
   packWith (sectionOf [("token.0.replacement", "/etc/passwd")])
     (sectionOf [("token.0.replacementType", "mvfile")]),
   packWith (sectionOf [])
     (sectionOf [("token.0.replacementType", "seqfile"), ("token.0.replacement", "/etc/passwd")]),
   packWith (sectionOf [])
     (sectionOf [("token.0.replacementType", "mvfile"), ("token.0.replacement", "link:1")]),
   packWith (sectionOf []) (sectionOf [("host.replacement", "/etc/passwd")])]

/-- Each is indexed without errors, and none is sandboxed. -/
theorem leakyPacks_indexed :
    (leakyPacks.map fun pack => (indexPack linkedHost false pack).errors) = replicate 7 [] ∧
    (leakyPacks.map fun pack => decide (pack.Sandboxed linkedHost)) = replicate 7 false := by
  decide +kernel

end Stoker
