import Stoker.Packs.Conf

/-!
# A conf in memory

The `RawConfigParser` that the conf rewrite of a worker changes in place and the sharding check of
the server reads. Sections have distinct names, as keys of a dictionary; an option is read from the
section and then from `[DEFAULT]`. Numbers are what Python's `float` makes of a text: exact where
they are finite.
-/

open List

namespace Stoker

/-! ### Numbers -/

/-- The exceptions of Python that the code around a conf raises. -/
inductive PyError where
  | attributeError (text : Text)
  | overflowError (text : Text)
  | valueError (text : Text)
  | confRewriteError (text : Text)
  deriving DecidableEq

inductive PyFloat where
  | num (q : ℚ)
  | inf
  | negInf
  | nan
  deriving DecidableEq

namespace PyFloat

/-- `x > 0`. -/
def pos : PyFloat → Bool
  | num q => 0 < q
  | inf => true
  | negInf | nan => false

/-- `x < 0`. -/
def neg : PyFloat → Bool
  | num q => q < 0
  | negInf => true
  | inf | nan => false

def ofSign (positive : Bool) : PyFloat := if positive then inf else negInf

def add : PyFloat → PyFloat → PyFloat
  | num a, num b => num (a + b)
  | nan, _ | _, nan | inf, negInf | negInf, inf => nan
  | inf, _ | _, inf => inf
  | negInf, _ | _, negInf => negInf

def mul : PyFloat → PyFloat → PyFloat
  | num a, num b => num (a * b)
  | num a, inf | inf, num a => if a = 0 then nan else ofSign (0 < a)
  | num a, negInf | negInf, num a => if a = 0 then nan else ofSign (a < 0)
  | nan, _ | _, nan => nan
  | inf, inf | negInf, negInf => inf
  | inf, negInf | negInf, inf => negInf

/-- Division, of which no caller divides by zero. -/
def div : PyFloat → PyFloat → PyFloat
  | num a, num b => num (a / b)
  | num _, inf | num _, negInf => num 0
  | inf, num b => ofSign (0 ≤ b)
  | negInf, num b => ofSign (b < 0)
  | _, _ => nan

def sum (l : List PyFloat) : PyFloat := l.foldl add (num 0)

/-- The value of a float that is known to be finite. -/
def value : PyFloat → ℚ
  | num q => q
  | _ => 0

end PyFloat

/-- A rational without its fraction. -/
def truncate (q : ℚ) : ℤ := if 0 ≤ q then ⌊q⌋ else ⌈q⌉

def PyFloat.int : PyFloat → Except PyError ℤ
  | num q => .ok (truncate q)
  | nan => .error (.valueError "cannot convert float NaN to integer")
  | inf | negInf => .error (.overflowError "cannot convert float infinity to integer")

/-- What the code around a conf takes from outside: as for indexing, and `float`, which reads the
digits of a natural number as that number. -/
structure ConfHost extends Host where
  float : Text → Option PyFloat
  float_digits : ∀ n : ℕ, float (Nat.toDigits 10 n) = some (.num n)

def digitsHost : ConfHost where
  strip := id
  lower := id
  int := fun _ => none
  repr := id
  isDigit := Char.isDigit
  realpath := id
  pathParser := id
  float := fun t => if t ≠ [] ∧ t.all Char.isDigit then some (.num (Nat.ofDigitChars 10 t 0))
    else none
  float_digits := by
    intro n
    have hdigits : (Nat.toDigits 10 n).all Char.isDigit = true :=
      all_eq_true.2 fun c hc => Nat.isDigit_of_mem_toDigits (by norm_num) (by norm_num) hc
    rw [if_pos ⟨Nat.toDigits_ne_nil, hdigits⟩, Nat.ofDigitChars_ten_toDigits]

/-! ### Options -/

section Lookup

variable {V : Type} {e : Text × V} {l : List (Text × V)} {k : Text}

lemma lookup_cons_eq (h : k = e.1) : (e :: l).lookup k = some e.2 := by
  rw [lookup_cons, h, beq_self_eq_true]

lemma lookup_cons_ne (h : k ≠ e.1) : (e :: l).lookup k = l.lookup k := by
  rw [lookup_cons, beq_eq_false_iff_ne.2 h]

end Lookup

/-- A key of a dictionary is set in its place, or behind the others. -/
def setEntry (key : Text) (value : Option Text) :
    List (Text × Option Text) → List (Text × Option Text)
  | [] => [(key, value)]
  | e :: l => if e.1 = key then (key, value) :: l else e :: setEntry key value l

variable {value : Option Text} {l : List (Text × Option Text)}

lemma mem_keys_setEntry {key k : Text} (h : k ∈ (setEntry key value l).map Prod.fst) :
    k = key ∨ k ∈ l.map Prod.fst := by
  induction l with
  | nil =>
    left
    simpa [setEntry] using h
  | cons e l ih =>
    unfold setEntry at h
    split_ifs at h with he
    · rw [map_cons, mem_cons] at h ⊢
      exact h.imp id .inr
    · rw [map_cons, mem_cons] at h ⊢
      rcases h with h | h
      · exact .inr (.inl h)
      · exact (ih h).imp id .inr

lemma nodup_keys_setEntry {key : Text} (h : (l.map Prod.fst).Nodup) :
    ((setEntry key value l).map Prod.fst).Nodup := by
  induction l with
  | nil => exact nodup_singleton _
  | cons e l ih =>
    rw [map_cons, nodup_cons] at h
    unfold setEntry
    split_ifs with he
    · rw [map_cons, nodup_cons]
      exact ⟨he ▸ h.1, h.2⟩
    · rw [map_cons, nodup_cons]
      refine ⟨fun hmem => ?_, ih h.2⟩
      exact (mem_keys_setEntry hmem).elim he h.1

lemma lookup_setEntry (key k : Text) (value : Option Text) (l : List (Text × Option Text)) :
    (setEntry key value l).lookup k = if k = key then some value else l.lookup k := by
  induction l with
  | nil =>
    split_ifs with hk
    · exact lookup_cons_eq hk
    · exact lookup_cons_ne hk
  | cons e l ih =>
    unfold setEntry
    split_ifs with he hk hk
    · exact lookup_cons_eq hk
    · rw [lookup_cons_ne hk, lookup_cons_ne (fun h => hk (h.trans he))]
    · rw [lookup_cons_ne (fun h => he (h.symm.trans hk)), ih, if_pos hk]
    · rw [lookup_cons, lookup_cons, ih, if_neg hk]

variable {keep : Text → Bool}

lemma lookup_filter_keys {key : Text} (h : keep key = true)
    (l : List (Text × Option Text)) : (l.filter fun e => keep e.1).lookup key = l.lookup key := by
  induction l with
  | nil => rfl
  | cons e l ih =>
    by_cases he : key = e.1
    · have hkeep : keep e.1 = true := he ▸ h
      rw [filter_cons, if_pos hkeep, lookup_cons_eq he, lookup_cons_eq he]
    · rw [filter_cons]
      split_ifs
      · rw [lookup_cons_ne he, lookup_cons_ne he, ih]
      · rw [lookup_cons_ne he, ih]

namespace Options

/-- The options with a key that is kept. -/
def filter (o : Options) (keep : Text → Bool) : Options where
  entries := o.entries.filter fun e => keep e.1
  nodup := o.nodup.sublist (filter_sublist.map Prod.fst)

def remove (o : Options) (key : Text) : Options := o.filter (· ≠ key)

def set (o : Options) (key : Text) (value : Option Text) : Options where
  entries := setEntry key value o.entries
  nodup := nodup_keys_setEntry o.nodup

variable {o : Options} {key : Text}

lemma get_filter (h : keep key = true) :
    (o.filter keep).get key = o.get key := lookup_filter_keys h o.entries

lemma get_remove {key' : Text} (h : key ≠ key') : (o.remove key').get key = o.get key :=
  get_filter (by simpa using h)

lemma get_set (key' : Text) (value : Option Text) :
    (o.set key' value).get key = if key = key' then some value else o.get key :=
  lookup_setEntry key' key value o.entries

end Options

/-! ### Sections -/

structure Parser extends Conf where
  distinct : (sections.map Prod.fst).Nodup

namespace Parser

def names (p : Parser) : List Text := p.sections.map Prod.fst

def own (p : Parser) (name : Text) : Option Options := p.sections.lookup name

/-- `parser.get(section, option)`, none where the fallback applies. -/
def get (p : Parser) (name key : Text) : Option (Option Text) :=
  (p.own name).bind fun o => p.toConf.get o key

/-- Every section is changed on its own. -/
def update (p : Parser) (f : Text → Options → Options) : Parser :=
  { p with
    sections := p.sections.map fun s => (s.1, f s.1 s.2)
    distinct := by simpa [Function.comp_def] using p.distinct }

def filterDefaults (p : Parser) (keep : Text → Bool) : Parser :=
  { p with defaults := p.defaults.filter keep }

def getFloat (host : ConfHost) (p : Parser) (name key : Text) : Option PyFloat :=
  (p.get name key).join.bind host.float

def sampleSections (host : ConfHost) (p : Parser) : List Text :=
  p.names.filter fun name => !isGlobal host.toHost name

variable {p : Parser} {f : Text → Options → Options}

@[simp] lemma names_update : (p.update f).names = p.names := by
  simp [names, update, Function.comp_def]

@[simp] lemma names_filterDefaults (keep : Text → Bool) :
    (p.filterDefaults keep).names = p.names := rfl

lemma own_update (name : Text) : (p.update f).own name = (p.own name).map (f name) := by
  unfold own update
  dsimp only
  induction p.sections with
  | nil => rfl
  | cons s l ih =>
    rw [map_cons]
    by_cases hs : name = s.1
    · rw [lookup_cons_eq (e := s) hs, lookup_cons_eq (e := (s.1, f s.1 s.2)) hs, hs,
        Option.map_some]
    · rw [lookup_cons_ne (e := s) hs, lookup_cons_ne (e := (s.1, f s.1 s.2)) hs, ih]

variable {name : Text}

lemma exists_own (h : name ∈ p.names) : ∃ o, p.own name = some o := by
  unfold own
  obtain ⟨s, hs, rfl⟩ := mem_map.1 h
  cases hl : p.sections.lookup s.1 with
  | none =>
    rw [lookup_eq_none_iff] at hl
    exact absurd (hl s hs) (by simp)
  | some o => exact ⟨o, rfl⟩

variable {key : Text}

/-- An option that a change of its section keeps is read as before. -/
lemma get_update_of (h : ∀ o : Options, (f name o).get key = o.get key) :
    (p.update f).get name key = p.get name key := by
  unfold get
  rw [own_update]
  cases p.own name with
  | none => rfl
  | some o =>
    change ((f name o).get key).or (p.defaults.get key) = (o.get key).or (p.defaults.get key)
    rw [h o]

lemma get_update_set (hname : name ∈ p.names) (h : ∀ o : Options, (f name o).get key = some value) :
    (p.update f).get name key = some value := by
  obtain ⟨o, ho⟩ := exists_own hname
  unfold get
  rw [own_update, ho]
  change ((f name o).get key).or _ = some value
  rw [h o]
  rfl

lemma get_filterDefaults (h : keep key = true) :
    (p.filterDefaults keep).get name key = p.get name key := by
  refine congrArg _ (funext fun o => ?_)
  change (o.get key).or ((p.defaults.filter keep).get key) = _
  rw [Options.get_filter h]
  rfl

end Parser

end Stoker
