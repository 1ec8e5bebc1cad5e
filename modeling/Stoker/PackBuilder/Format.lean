import Stoker.Rewriting.Patched

/-!
# Formats of stand-ins

The format table of `server/packbuilder/pseudonym.py`: what shape a matched text has (`infer`), how
many texts there are of that shape (`space`), the text of that shape that a number stands for
(`render`), and from these the stand-in of a text (`pseudonym`). A text is a list of characters.

Unicode's tables, the normalisation, the keyed hash and regular expressions are taken from outside.
-/

namespace Stoker

open Rewriting

abbrev Text := List Char

instance : LawfulBEq Text := List.instLawfulBEq

instance : Coe String Text := ⟨String.toList⟩

/-- The order of texts in Python, by the numbers of their characters. -/
def textLe (a b : Text) : Bool := !b.lex a fun c d => c.toNat < d.toNat

inductive Shape where
  | digits
  | hex
  | guid
  | mixed
  | none
  deriving DecidableEq

/-- One position of a mixed text: copied, or drawn from an alphabet. -/
inductive Entry where
  | verbatim (c : Char)
  | choice (radix : ℕ) (alphabet : Text)
  deriving DecidableEq

structure Format where
  shape : Shape
  width : ℕ := 0
  template : List Entry := []
  deriving DecidableEq

def formatNone : Format := { shape := .none }

inductive LetterCase where
  | lower
  | upper
  deriving DecidableEq

/-- A match of a regular expression: its place, and that of its first group if that took part. -/
structure Match where
  start : ℕ
  stop : ℕ
  group : Option (ℕ × ℕ) := none
  deriving DecidableEq

/-- A compiled regular expression: how many groups it has, and what `finditer` finds in a text. -/
structure Regex where
  groups : ℕ
  finditer : Text → List Match
  bounded : ∀ t, ∀ m ∈ finditer t, m.stop ≤ t.length ∧ ∀ g ∈ m.group, g.2 ≤ t.length

/-- What the module takes from Python's libraries: `str`, `unicodedata`, `hmac` (the digest read as
a number), `repr`, `json` and `re`. -/
structure Libs where
  isAlpha : Char → Bool
  isUpper : Char → Bool
  nfc : Text → Text
  hmac : List UInt8 → Text → ℕ
  repr : Text → Text
  jsonParses : Text → Bool
  regex : Text → Regex

/-! ### Reading a text's format -/

def hexFirst : Text := "abcdef"
def mixedFirstLetter : Text := "ghijklmnopqrstuvwxyz"
def lowerLetters : Text := "abcdefghijklmnopqrstuvwxyz"
def upperLetters : Text := "ABCDEFGHIJKLMNOPQRSTUVWXYZ"
def decDigits : Text := "0123456789"

/-- What stands in front of the place where `$` matches: everything, or everything but a newline at
the very end. -/
def beforeDollar (t : Text) : Text := if t.getLast? = some '\n' then t.dropLast else t

def isHexLower (c : Char) : Bool := c.isDigit || decide ('a' ≤ c ∧ c ≤ 'f')
def isHexUpper (c : Char) : Bool := c.isDigit || decide ('A' ≤ c ∧ c ≤ 'F')

def digitsRe (t : Text) : Bool := beforeDollar t ≠ [] && (beforeDollar t).all Char.isDigit

def guidRe (t : Text) : Bool :=
  (beforeDollar t).length = 36 && (beforeDollar t).zipIdx.all fun (c, i) =>
    if i ∈ [8, 13, 18, 23] then c = '-' else isHexLower c || isHexUpper c

def hexLowerRe (t : Text) : Bool :=
  (beforeDollar t).any (fun c => decide ('a' ≤ c ∧ c ≤ 'f')) && (beforeDollar t).all isHexLower

def hexUpperRe (t : Text) : Bool :=
  (beforeDollar t).any (fun c => decide ('A' ≤ c ∧ c ≤ 'F')) && (beforeDollar t).all isHexUpper

def caseClass (libs : Libs) (t : Text) : LetterCase :=
  let letters := t.filter libs.isAlpha
  if letters ≠ [] ∧ letters.all libs.isUpper = true then .upper else .lower

/-- The template of a mixed text. The first letter is drawn from the letters that no hexadecimal
number has. -/
def template : Bool → Text → List Entry
  | _, [] => []
  | used, c :: t =>
    if c ∈ decDigits then .choice 10 decDigits :: template used t
    else if c ∈ lowerLetters then
      (if used then .choice 26 lowerLetters else .choice 20 mixedFirstLetter) :: template true t
    else if c ∈ upperLetters then
      (if used then .choice 26 upperLetters else .choice 20 (mixedFirstLetter.map Char.toUpper)) ::
        template true t
    else .verbatim c :: template used t

def Entry.isVerbatim : Entry → Bool
  | .verbatim _ => true
  | .choice _ _ => false

/-- `infer`. The letters of a GUID are of one case, or it is read on as something else. -/
def infer (t : Text) : Format :=
  let letters := t.filter Char.isAlpha
  if t = [] then formatNone
  else if digitsRe t then { shape := .digits, width := t.length }
  else if guidRe t ∧ (letters.all Char.isLower ∨ letters.all Char.isUpper) then { shape := .guid }
  else if hexLowerRe t ∨ hexUpperRe t then { shape := .hex, width := t.length }
  else if (template false t).all Entry.isVerbatim then formatNone
  else { shape := .mixed, width := t.length, template := template false t }

/-! ### Rendering -/

/-- The sizes of a template's alphabets. -/
def radices (entries : List Entry) : List ℕ :=
  entries.filterMap fun
    | .verbatim _ => none
    | .choice radix _ => some radix

def space (fmt : Format) : ℕ :=
  match fmt.shape with
  | .digits => 9 * 10 ^ (fmt.width - 1)
  | .hex => 6 * 16 ^ (fmt.width - 1)
  | .guid => 2 ^ 122
  | .mixed => (radices fmt.template).prod
  | .none => 1

/-- A number in base 16, padded with zeros on the left. -/
def hexPadded (width n : ℕ) : Text := (Nat.toDigits 16 n).leftpad width '0'

def applyCase (case : LetterCase) (t : Text) : Text :=
  match case with
  | .upper => t.map Char.toUpper
  | .lower => t

/-- The bytes of a number, the highest first, marked as a random GUID. -/
def guidBytes (x : ℕ) : List ℕ :=
  let bytes := (List.range 16).map fun i => x % 2 ^ 128 / 256 ^ (15 - i) % 256
  (bytes.modify 6 fun b => b % 16 + 64).modify 8 fun b => b % 64 + 128

/-- The digits of a number in mixed radix, the first one the most significant. -/
def mixedPicks : List ℕ → ℕ → List ℕ
  | [], _ => []
  | radix :: rest, v => v / rest.prod % radix :: mixedPicks rest v

def fill : List Entry → List ℕ → Text
  | [], _ => []
  | .verbatim c :: entries, picks => c :: fill entries picks
  | .choice _ alphabet :: entries, pick :: picks => alphabet.getD pick '0' :: fill entries picks
  | .choice _ _ :: _, [] => []

def render (fmt : Format) (x : ℕ) (case : LetterCase) : Option Text :=
  let w := fmt.width
  match fmt.shape with
  | .none => none
  | .digits => some (Nat.toDigits 10 (10 ^ (w - 1) + x % (9 * 10 ^ (w - 1))))
  | .hex =>
    let v := x % (6 * 16 ^ (w - 1))
    let rest := if 1 < w then hexPadded (w - 1) (v % 16 ^ (w - 1)) else []
    some (applyCase case (hexFirst.getD (v / 16 ^ (w - 1)) '0' :: rest))
  | .guid =>
    let h := (guidBytes x).flatMap (hexPadded 2)
    some (applyCase case (slice h 0 8 ++ '-' :: slice h 8 12 ++ '-' :: slice h 12 16 ++
      '-' :: slice h 16 20 ++ '-' :: slice h 20 32))
  | .mixed => some (fill fmt.template (mixedPicks (radices fmt.template) (x % space fmt)))

/-! ### Stand-ins -/

/-- Why a build is refused. -/
inductive PseudonymError where
  | widenShape
  | widenLength (shape : Shape)
  | groupMissing (label : Text) (event : ℕ)
  | merged (label standIn : Text)
  | overlap (label label' : Text) (event : ℕ)
  | notJson (event : ℕ)
  deriving DecidableEq

/-- A field's own shape and length for its stand-ins. -/
structure Widen where
  shape : Shape
  length : Option ℤ := none
  deriving DecidableEq

def widenMax : ℤ := 48

/-- `widen_format`, for the shapes that have a length of their own: `WIDEN_DEFAULTS` and
`WIDEN_FLOORS`. -/
def widenTo (shape : Shape) (default floor : ℤ) (length : Option ℤ) :
    Except PseudonymError Format :=
  let n := length.getD default
  if floor ≤ n ∧ n ≤ widenMax then .ok { shape := shape, width := n.toNat }
  else .error (.widenLength shape)

def widenFormat (widen : Widen) : Except PseudonymError Format :=
  match widen.shape with
  | .guid => .ok { shape := .guid }
  | .digits => widenTo .digits 15 12 widen.length
  | .hex => widenTo .hex 16 16 widen.length
  | _ => .error .widenShape

def standInFormat (widen : Option Format) (normalised : Text) : Format :=
  widen.getD (infer normalised)

def pseudonym (libs : Libs) (key : List UInt8) (widen : Option Format) (span : Text) :
    Option Text :=
  if span = [] then none
  else
    let normalised := libs.nfc span
    let fmt := standInFormat widen normalised
    if fmt.shape = .none then none
    else render fmt (libs.hmac key normalised) (caseClass libs normalised)

end Stoker
