import Stoker.Grouping.Ranked
import Stoker.PackBuilder.Build
import Stoker.PackBuilder.Rendering
import Stoker.PackBuilder.Rotation

/-!
# How long a rotation lasts

`rotation_tables` numbers the values of a format class over all rotating fields of the written
events; `rotation_capacity` divides a class's space by the number of values that the build counted
for one field, and reports the least of these quotients. The number of passes is safe for a class
exactly when one of the quotients, times the number of the class's values, is within its space. Two
fields that share a class have their values numbered together and counted apart, so that identities
come back before the reported limit.
-/

open List

namespace Stoker

open Rewriting Positional Transition Grouping

/-! ### Configs -/

inductive EventOrder where
  | sequential
  | random
  deriving DecidableEq

/-- What an operator sends as rotation settings. -/
structure RawRotation where
  scope : Option RotationScope := none
  period : Option ℤ := none
  deriving DecidableEq

/-- Why `_validate_rotation` refuses a config. -/
inductive RotationError where
  | randomOrder
  | period
  deriving DecidableEq

def Token.rotates (t : Token) : Bool :=
  match t.replacement with
  | .pseudonym _ _ => t.enabled && t.rotate
  | _ => false

def validateRotation (rotation : Option RawRotation) (tokens : List Token) (order : EventOrder) :
    Except RotationError (Option PackRotation) :=
  let rotating := tokens.filter Token.rotates
  if rotating = [] then .ok none
  else if order = .random then .error .randomOrder
  else
    let raw := rotation.getD {}
    let fields := rotating.map (·.field)
    match raw.scope.getD .pass with
    | .pass => .ok (some { scope := .pass, fields := fields })
    | .window =>
      let period := raw.period.getD 60
      if 1 ≤ period ∧ period ≤ 86400 then
        .ok (some { scope := .window, fields := fields, period := some period })
      else .error .period

def rotatingFields (cfg : Config) : List PseudonymField :=
  pseudonymFields { cfg with tokens := cfg.tokens.filter (·.rotate) }

/-! ### What the build counts -/

/-- A text that the build replaced: the field, the format of the stand-in, and the text
normalised. -/
structure Seen where
  field : Text
  format : Format
  original : Text
  deriving DecidableEq

section

variable (libs : Libs) (key : List UInt8)

def seenMatch (event : Text) (c : Compiled) (m : Match) : Option Seen :=
  match c.rx.locate m with
  | none => none
  | some (s, e) =>
    if e ≤ s then none
    else if pseudonym libs key c.widen (slice event s e) = none then none
    else
      let normalised := libs.nfc (slice event s e)
      some ⟨c.row.field, standInFormat c.widen normalised, normalised⟩

/-- `seen` of `pseudonymise_events`, for events that it gets through. -/
def seenIn (compiled : List Compiled) (events : List Text) : List Seen :=
  events.flatMap fun event => compiled.flatMap fun c =>
    (c.rx.finditer event).filterMap (seenMatch libs key event c)

end

/-- A class of a field as the report gives it. -/
structure ClassRow where
  shape : Shape
  width : ℕ
  distinct : ℕ
  space : ℕ
  deriving DecidableEq

structure TokenRow where
  field : Text
  classes : List ClassRow
  deriving DecidableEq

/-- The place of a shape's name in the alphabet. -/
def Shape.rank : Shape → ℕ
  | .digits => 0
  | .guid => 1
  | .hex => 2
  | .mixed => 3
  | .none => 4

def classValues (seen : List Seen) (field : Text) (cls : Shape × ℕ) : List Text :=
  ((seen.filter fun s => s.field = field ∧ (s.format.shape, s.format.width) = cls).map
    (·.original)).dedup

def classRow (values : List Text) (cls : Shape × ℕ) : ClassRow where
  shape := cls.1
  width := cls.2
  distinct := values.length
  space :=
    if cls.1 = .mixed then ((values.map fun v => space (infer v)).min?).getD 0
    else space { shape := cls.1, width := cls.2 }

def classRows (seen : List Seen) (field : Text) : List ClassRow :=
  let classes := ((seen.filter (·.field = field)).map fun s =>
      (s.format.shape, s.format.width)).dedup
  let sorted := classes.insertionSort fun a b =>
    a.1.rank < b.1.rank ∨ (a.1.rank = b.1.rank ∧ a.2 ≤ b.2)
  sorted.map fun cls => classRow (classValues seen field cls) cls

def tokenRows (compiled : List Compiled) (seen : List Seen) : List TokenRow :=
  compiled.map fun c => { field := c.row.field, classes := classRows seen c.row.field }

/-! ### Tables and capacity -/

/-- Put a text into the list of its class, unless it is there. -/
def enterText (fmt : Format) (text : Text) : List (Format × List Text) → List (Format × List Text)
  | [] => [(fmt, [text])]
  | (fmt', texts) :: order =>
    if fmt' = fmt then (fmt', if text ∈ texts then texts else texts ++ [text]) :: order
    else (fmt', texts) :: enterText fmt text order

/-- The texts that rotate, with the formats they are rendered in: event by event, field by field and
match by match. -/
def rotatedTexts (fields : List Compiled) (events : List Text) : List (Format × Text) :=
  events.flatMap fun event => fields.flatMap fun c => (c.rx.finditer event).filterMap fun m =>
    match c.rx.locate m with
    | none => none
    | some (s, e) =>
      let text := slice event s e
      let fmt := c.widen.getD (infer text)
      if fmt.shape = .none then none else some (fmt, text)

/-- A value of a class: its place and the number of values. -/
structure Place where
  text : Text
  k : ℕ
  distinct : ℕ
  deriving DecidableEq

def places (texts : List Text) : List Place :=
  texts.zipIdx.map fun (text, k) => ⟨text, k, texts.length⟩

/-- `rotation_tables`, for compiled fields. Formats stand for their `_class_key`, which spells them
out. -/
def rotationTables (fields : List Compiled) (events : List Text) : List (Format × List Place) :=
  let order := (rotatedTexts fields events).foldl (fun order p => enterText p.1 p.2 order) []
  order.map fun (fmt, texts) => (fmt, places texts)

/-- The passes that a class of a field allows. -/
structure Allowance where
  passes : ℕ
  tightest : ClassRow
  field : Text
  deriving DecidableEq

def allowances (rotating : List Text) (rows : List TokenRow) : List Allowance :=
  (rows.filter (·.field ∈ rotating)).flatMap fun row =>
    row.classes.map fun cls => ⟨cls.space / max 1 cls.distinct, cls, row.field⟩

def tighter (best : Option Allowance) (a : Allowance) : Option Allowance :=
  match best with
  | none => some a
  | some b => if a.passes < b.passes then some a else some b

structure Capacity extends Allowance where
  events : ℕ
  scope : RotationScope
  deriving DecidableEq

/-- `rotation_capacity`, of the config with the written events. -/
def rotationCapacity (cfg : Config) (rows : List TokenRow) : Option Capacity :=
  match cfg.rotation with
  | none => none
  | some rotation =>
    match (allowances ((rotatingFields cfg).map (·.field)) rows).foldl tighter none with
    | none => none
    | some best =>
      some { best with
        events := best.passes * (if cfg.events.length = 0 then 1 else cfg.events.length)
        scope := rotation.scope }

/-- A build with what is said about its rotation. -/
structure RotationPlan where
  written : List Text
  seen : List Seen
  capacity : Option Capacity
  tables : List (Format × List Place)
  deriving DecidableEq

/-- Build a config, as `write_pack` does, and make out its rotation as the preview does. -/
def rotationPlan (libs : Libs) (cfg : Config) (key : List UInt8) (already : List Text) :
    Except BuilderError RotationPlan :=
  match applyPseudonyms libs cfg (some key) already,
      (pseudonymFields cfg).mapM (PseudonymField.compile libs),
      (rotatingFields cfg).mapM (PseudonymField.compile libs) with
  | .ok out, .ok compiled, .ok rotating =>
    let seen := seenIn libs key compiled (cfg.events.filter (· ∉ already))
    .ok {
      written := out.events
      seen := seen
      capacity := rotationCapacity { cfg with events := out.events } (tokenRows compiled seen)
      tables := rotationTables rotating out.events }
  | .error e, _, _ => .error e
  | _, .error e, _ => .error (.pseudonym e)
  | _, _, .error e => .error (.pseudonym e)

/-! ### The limit that is reported -/

lemma foldl_tighter {as : List Allowance} {r : Allowance} (h : as.foldl tighter none = some r) :
    r ∈ as ∧ ∀ a ∈ as, r.passes ≤ a.passes := by
  rw [foldl_best (fun a : Allowance => OrderDual.toDual a.passes) (fun _ => rfl)
    (fun _ _ hlt => if_pos hlt) (fun _ _ hle => if_neg (not_lt.2 hle))] at h
  exact mem_peaks.1 (mem_of_mem_head? h)

variable {cfg : Config} {fmt : Format} {events texts already : List Text} {libs : Libs} {s : Seen}
    {key : List UInt8} {c : Compiled} {compiled : List Compiled} {seen : List Seen}
    {plan : RotationPlan} {cap : Capacity}

/-- The reported passes are the fewest that a class of a rotating field allows. -/
lemma rotationCapacity_le_iff {rows : List TokenRow} (h : rotationCapacity cfg rows = some cap)
    (n size : ℕ) :
    cap.passes * n ≤ size ↔
      ∃ a ∈ allowances ((rotatingFields cfg).map (·.field)) rows, a.passes * n ≤ size := by
  unfold rotationCapacity at h
  cases hrot : cfg.rotation with
  | none =>
    rw [hrot] at h
    cases h
  | some rotation =>
    rw [hrot] at h
    cases hbest : (allowances ((rotatingFields cfg).map (·.field)) rows).foldl tighter none with
    | none =>
      rw [hbest] at h
      cases h
    | some best =>
      rw [hbest] at h
      cases h
      obtain ⟨hmem, hleast⟩ := foldl_tighter hbest
      refine ⟨fun hle => ⟨best, hmem, hle⟩, ?_⟩
      rintro ⟨a, ha, hle⟩
      exact (Nat.mul_le_mul_right n (hleast a ha)).trans hle

/-! ### Tables -/

lemma enterText_map {ks : List Format} (hks : ks.Nodup) (f : Format → List Text) (text : Text) :
    enterText fmt text (ks.map fun k => (k, f k)) =
      if fmt ∈ ks then
        ks.map fun k => (k, if k = fmt ∧ text ∉ f k then f k ++ [text] else f k)
      else ks.map (fun k => (k, f k)) ++ [(fmt, [text])] := by
  induction ks with
  | nil => rfl
  | cons k ks ih =>
    obtain ⟨hk, hks⟩ := nodup_cons.1 hks
    rw [map_cons, enterText]
    by_cases hsame : k = fmt
    · subst hsame
      have hrest : ks.map (fun k' => (k', if k' = k ∧ text ∉ f k' then f k' ++ [text] else f k')) =
          ks.map fun k' => (k', f k') := by
        refine map_congr_left fun k' hk' => ?_
        have hother : ¬(k' = k ∧ text ∉ f k') := fun h => hk (h.1 ▸ hk')
        rw [if_neg hother]
      rw [if_pos rfl, if_pos mem_cons_self, map_cons, hrest]
      by_cases hmem : text ∈ f k <;> simp [hmem]
    · have hhead : ¬(k = fmt ∧ text ∉ f k) := fun h => hsame h.1
      have hmem : fmt ∈ k :: ks ↔ fmt ∈ ks := by simp [Ne.symm hsame]
      rw [if_neg hsame, ih hks, map_cons, if_neg hhead]
      simp only [hmem]
      split_ifs <;> rfl

/-- Entering texts one by one groups them: the formats as they first come up, and under each its
texts as they first come up. -/
lemma foldl_enterText (ps : List (Format × Text)) :
    ps.foldl (fun order p => enterText p.1 p.2 order) [] =
      (keysOf Prod.fst ps).map fun k => (k, keysOf Prod.snd (under Prod.fst k ps)) := by
  induction ps using reverseRecOn with
  | nil => rfl
  | append_singleton ps p ih =>
    have hunder : ∀ k, under Prod.fst k [p] = if p.1 = k then [p] else [] := by
      intro k
      simp [under, filter_cons]
    rw [foldl_append, ih, foldl_cons, foldl_nil, enterText_map (nodup_keysOf _ _), keysOf_concat]
    split_ifs with hold
    · refine map_congr_left fun k _ => ?_
      rw [under_append, hunder]
      by_cases hk : k = p.1
      · rw [if_pos hk.symm, keysOf_concat]
        by_cases hmem : p.2 ∈ keysOf Prod.snd (under Prod.fst k ps) <;> simp [hk.symm, hmem]
      · rw [if_neg fun h => hk h.1, if_neg (Ne.symm hk), append_nil]
    · have hnone : under Prod.fst p.1 ps = [] :=
        filter_eq_nil_iff.2 fun q hq h => hold (mem_keysOf.2 ⟨q, hq, of_decide_eq_true h⟩)
      rw [map_append, map_singleton, under_append, hunder, if_pos rfl, hnone]
      refine congrArg (· ++ _) (map_congr_left fun k hk => ?_)
      have hother : p.1 ≠ k := fun h => hold (h ▸ hk)
      rw [under_append, hunder, if_neg hother, append_nil]

variable {table : List Place}

lemma mem_rotationTables {fields : List Compiled} :
    (fmt, table) ∈ rotationTables fields events ↔
      (∃ t, (fmt, t) ∈ rotatedTexts fields events) ∧
        table = places (keysOf Prod.snd (under Prod.fst fmt (rotatedTexts fields events))) := by
  rw [rotationTables, foldl_enterText, map_map]
  simp [mem_keysOf, eq_comm]

variable {t : Text}

lemma mem_rotatedTexts {fields : List Compiled} (h : (fmt, t) ∈ rotatedTexts fields events) :
    fmt.shape ≠ .none ∧ ∃ c ∈ fields, fmt = c.widen.getD (infer t) := by
  obtain ⟨event, -, h⟩ := mem_flatMap.1 h
  obtain ⟨c, hc, h⟩ := mem_flatMap.1 h
  obtain ⟨m, -, h⟩ := mem_filterMap.1 h
  cases hl : c.rx.locate m with
  | none =>
    rw [hl] at h
    cases h
  | some place =>
    rw [hl] at h
    dsimp only at h
    split_ifs at h with hnone
    cases h
    exact ⟨hnone, c, hc, rfl⟩

lemma mem_places {p : Place} (h : p ∈ places texts) :
    p.k < texts.length ∧ p.distinct = texts.length := by
  obtain ⟨⟨text, k⟩, hmem, rfl⟩ := mem_map.1 h
  exact ⟨(List.getElem?_eq_some_iff.1 (mem_zipIdx_iff_getElem?.1 hmem)).1, rfl⟩

lemma exists_place {k : ℕ} (hk : k < texts.length) : ∃ p ∈ places texts, p.k = k :=
  ⟨_, mem_map.2 ⟨(texts.get ⟨k, hk⟩, k), mem_zipIdx_iff_getElem?.2 (getElem?_eq_getElem hk), rfl⟩,
    rfl⟩

/-! ### Values that are counted -/

lemma mem_seenIn (h : s ∈ seenIn libs key compiled events) :
    ∃ c ∈ compiled, s.field = c.row.field := by
  obtain ⟨event, -, h⟩ := mem_flatMap.1 h
  obtain ⟨c, hc, h⟩ := mem_flatMap.1 h
  obtain ⟨m, -, h⟩ := mem_filterMap.1 h
  refine ⟨c, hc, ?_⟩
  unfold seenMatch at h
  cases hl : c.rx.locate m with
  | none =>
    rw [hl] at h
    cases h
  | some place =>
    rw [hl] at h
    dsimp only at h
    split_ifs at h
    cases h
    rfl

/-- What the classes of the rotating fields allow: a field with a class was seen, so the report has
a row of it. -/
lemma exists_allowance_iff {rotating : List Text} {P : ℕ → Prop} :
    (∃ a ∈ allowances rotating (tokenRows compiled (seenIn libs key compiled events)), P a.passes) ↔
      ∃ f ∈ rotating, ∃ cls ∈ classRows (seenIn libs key compiled events) f,
        P (cls.space / max 1 cls.distinct) := by
  constructor
  · rintro ⟨a, ha, hP⟩
    obtain ⟨row, hrow, ha⟩ := mem_flatMap.1 ha
    obtain ⟨hrow, hfield⟩ := mem_filter.1 hrow
    obtain ⟨c, -, rfl⟩ := mem_map.1 hrow
    obtain ⟨cls, hcls, rfl⟩ := mem_map.1 ha
    exact ⟨c.row.field, of_decide_eq_true hfield, cls, hcls, hP⟩
  · rintro ⟨f, hf, cls, hcls, hP⟩
    obtain ⟨k, hk, -⟩ := mem_map.1 hcls
    rw [mem_insertionSort, mem_dedup] at hk
    obtain ⟨s, hs, -⟩ := mem_map.1 hk
    obtain ⟨hs, hfield⟩ := mem_filter.1 hs
    obtain ⟨c, hc, hrow⟩ := mem_seenIn hs
    obtain rfl := hrow.symm.trans (of_decide_eq_true hfield)
    refine ⟨⟨cls.space / max 1 cls.distinct, cls, c.row.field⟩, mem_flatMap.2 ⟨_,
      mem_filter.2 ⟨mem_map.2 ⟨c, hc, rfl⟩, decide_eq_true hf⟩, ?_⟩, hP⟩
    exact mem_map.2 ⟨cls, hcls, rfl⟩

variable {fields : List PseudonymField}

lemma compile_widen (h : fields.mapM (PseudonymField.compile libs) = .ok compiled)
    (hc : c ∈ compiled) (hfmt : c.widen = some fmt) : ∃ w, widenFormat w = .ok fmt := by
  obtain ⟨f, -, hf⟩ := exists_of_mem_mapM h c hc
  unfold PseudonymField.compile at hf
  cases hw : f.widen with
  | none =>
    rw [hw] at hf
    cases hf
    cases hfmt
  | some w =>
    rw [hw] at hf
    obtain ⟨fmt', hfmt', hf⟩ := bind_ok hf
    cases hf
    cases hfmt
    exact ⟨w, hfmt'⟩

/-- The last value of the last pass has the greatest counter. -/
lemma counters_lt_iff {passes size : ℕ} (hne : texts ≠ []) :
    (∀ p ∈ places texts, ∀ pass < passes, rotateIdent pass 1 0 p.distinct p.k < size) ↔
      passes * texts.length ≤ size := by
  have hpos := length_pos_of_ne_nil hne
  have hmax : max 1 texts.length = texts.length := max_eq_right hpos
  constructor
  · intro h
    cases passes with
    | zero => simp
    | succ passes =>
      obtain ⟨p, hp, hk⟩ := exists_place (Nat.sub_lt hpos Nat.one_pos)
      have hlast := h p hp passes (Nat.lt_succ_self _)
      rw [rotateIdent, (mem_places hp).2, hk, hmax, max_self, mul_one, add_zero] at hlast
      rw [Nat.succ_mul]
      omega
  · intro h p hp pass hpass
    obtain ⟨hk, hdistinct⟩ := mem_places hp
    rw [rotateIdent, hdistinct, hmax, max_self, mul_one, add_zero]
    calc pass * texts.length + p.k
      _ < pass * texts.length + texts.length := by omega
      _ = (pass + 1) * texts.length := by ring
      _ ≤ passes * texts.length := Nat.mul_le_mul_right _ hpass
      _ ≤ size := h

lemma rotationPlan_ok (h : rotationPlan libs cfg key already = .ok plan) :
    ∃ out compiled rotating, applyPseudonyms libs cfg (some key) already = .ok out ∧
      (pseudonymFields cfg).mapM (PseudonymField.compile libs) = .ok compiled ∧
      (rotatingFields cfg).mapM (PseudonymField.compile libs) = .ok rotating ∧
      plan.written = out.events ∧
      plan.seen = seenIn libs key compiled (cfg.events.filter (· ∉ already)) ∧
      plan.capacity =
        rotationCapacity { cfg with events := out.events } (tokenRows compiled plan.seen) ∧
      plan.tables = rotationTables rotating out.events := by
  unfold rotationPlan at h
  cases hout : applyPseudonyms libs cfg (some key) already with
  | error e =>
    rw [hout] at h
    cases h
  | ok out =>
    cases hc : (pseudonymFields cfg).mapM (PseudonymField.compile libs) with
    | error e =>
      rw [hout, hc] at h
      cases h
    | ok compiled =>
      cases hr : (rotatingFields cfg).mapM (PseudonymField.compile libs) with
      | error e =>
        rw [hout, hc, hr] at h
        cases h
      | ok rotating =>
        rw [hout, hc, hr] at h
        cases h
        exact ⟨out, compiled, rotating, rfl, rfl, rfl, rfl, rfl, rfl, rfl⟩

/-- The different texts of a format that the rotating fields match in some events. -/
def classTexts (libs : Libs) (cfg : Config) (events : List Text) (fmt : Format) : List Text :=
  match (rotatingFields cfg).mapM (PseudonymField.compile libs) with
  | .ok rotating => keysOf Prod.snd (under Prod.fst fmt (rotatedTexts rotating events))
  | .error _ => []

/-- A class of a rotating field allows few enough passes: its space, divided by the number of values
that the build counted there, times the number of texts of the format in the written events, is
within the space of the format. -/
def FewEnough (libs : Libs) (cfg : Config) (plan : RotationPlan) (fmt : Format) : Prop :=
  ∃ f ∈ (rotatingFields cfg).map (·.field), ∃ cls ∈ classRows plan.seen f,
    cls.space / max 1 cls.distinct * (classTexts libs cfg plan.written fmt).length ≤ space fmt

lemma passes_mul_le_iff (h : rotationPlan libs cfg key already = .ok plan)
    (hcap : plan.capacity = some cap) (fmt : Format) :
    cap.passes * (classTexts libs cfg plan.written fmt).length ≤ space fmt ↔
      FewEnough libs cfg plan fmt := by
  obtain ⟨out, compiled, rotating, -, -, -, -, hseen, hcapacity, -⟩ := rotationPlan_ok h
  rw [rotationCapacity_le_iff (hcapacity ▸ hcap), FewEnough, hseen]
  exact exists_allowance_iff (P := fun passes =>
    passes * (classTexts libs cfg plan.written fmt).length ≤ space fmt)

/-- Every class of a plan's tables lists the texts of a format that occurs. -/
lemma plan_classes (h : rotationPlan libs cfg key already = .ok plan)
    (htable : (fmt, table) ∈ plan.tables) :
    table = places (classTexts libs cfg plan.written fmt) ∧
      classTexts libs cfg plan.written fmt ≠ [] ∧ Produced fmt ∧ fmt.shape ≠ .none := by
  obtain ⟨out, -, rotating, -, -, hrotating, hwritten, -, -, htables⟩ := rotationPlan_ok h
  obtain ⟨⟨t, ht⟩, htable⟩ := mem_rotationTables.1 (htables ▸ htable)
  have htexts : classTexts libs cfg plan.written fmt =
      keysOf Prod.snd (under Prod.fst fmt (rotatedTexts rotating out.events)) := by
    rw [classTexts, hrotating, hwritten]
  rw [htexts]
  refine ⟨htable, ne_nil_of_mem (mem_keysOf.2 ⟨(fmt, t), mem_under.2 ⟨ht, rfl⟩, rfl⟩), ?_⟩
  obtain ⟨hnone, c, hc, hfmt⟩ := mem_rotatedTexts ht
  refine ⟨?_, hnone⟩
  rw [hfmt]
  cases hw : c.widen with
  | none => exact .infer t
  | some fmt' =>
    obtain ⟨w, hw'⟩ := compile_widen hrotating hc hw
    exact .widen hw'

/-- Two patterns of digits behind a letter, and a hash that reads a digit. -/
def digitLibs : Libs where
  isAlpha := Char.isAlpha
  isUpper := Char.isUpper
  nfc := id
  hmac := fun _ t => Nat.ofDigitChars 10 t 0
  repr := id
  jsonParses := fun _ => false
  regex := fun pattern => keyedRegex (pattern.take 2) fun t => t.takeWhile Char.isDigit

def digitConfig (events : List String) (rotateB : Bool) : Config where
  name := "ids"
  events := events.map String.toList
  tokens :=
    [{ field := "a", pattern := "a=(\\d+)", replacement := .pseudonym none false,
       rotate := true },
     { field := "b", pattern := "b=(\\d+)", replacement := .pseudonym none false,
       rotate := rotateB }]
  rotation := some { scope := .pass, fields := if rotateB then ["a", "b"] else ["a"] }

/-- One rotating field with three values of one digit. -/
def oneFieldPlan : RotationPlan where
  written := ["a=2 b=5", "a=3 b=6", "a=4 b=7"]
  seen := [⟨"a", { shape := .digits, width := 1 }, "1"⟩,
    ⟨"b", { shape := .digits, width := 1 }, "4"⟩,
    ⟨"a", { shape := .digits, width := 1 }, "2"⟩,
    ⟨"b", { shape := .digits, width := 1 }, "5"⟩,
    ⟨"a", { shape := .digits, width := 1 }, "3"⟩,
    ⟨"b", { shape := .digits, width := 1 }, "6"⟩]
  capacity := some { passes := 3, tightest := ⟨.digits, 1, 3, 9⟩, field := "a", events := 9,
                     scope := .pass }
  tables := [({ shape := .digits, width := 1 },
    [⟨"2", 0, 3⟩, ⟨"3", 1, 3⟩, ⟨"4", 2, 3⟩])]

end Stoker
