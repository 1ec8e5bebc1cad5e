import Stoker.PackBuilder.Build
import Stoker.Framing.Cuts

/-!
# Events of several lines

With an event breaker an event may have several lines: it runs from one match of the breaker to the
next. This is `check_breaker`, `break_events`, the part of `validate_config` that is about the
events, and the part of `write_pack` that writes the sample and the builder config.
-/

namespace Stoker

open Rewriting Transition

/-- A breaker as `re.compile` makes it, with `re.M`: the matches come from left to right and do not
overlap. -/
structure Breaker extends Regex where
  forward : ∀ t, ∀ m ∈ finditer t, m.start ≤ m.stop
  apart : ∀ t, (finditer t).Pairwise fun m m' => m.stop ≤ m'.start

/-- What the splitting of events takes from Python: `str.isspace`, and `re.compile`, which may
raise. -/
structure SplitLibs where
  isSpace : Char → Bool
  compile : Text → Except Text Breaker
  space_newline : isSpace '\n' = true
  space_return : isSpace '\r' = true

/-- A builder config with its event breaker. -/
structure SampleConfig extends Config where
  breaker : Option Text := none
  deriving DecidableEq

def maxEvents : ℕ := 5000
def maxEventBytes : ℕ := 64 * 1024
def maxTotalBytes : ℕ := 2 * 1024 * 1024
def maxBreakerLen : ℕ := 200

/-- Why the events of a config or its breaker are refused; events are counted from one. -/
inductive SampleError where
  | noEvents
  | tooManyEvents (count : ℕ)
  | breakerNotText
  | breakerLines
  | breakerInvalid (exc : Text)
  | breakerEmptyMatch
  | eventEmpty (event : ℕ)
  | eventLines (event : ℕ)
  | eventSize (event : ℕ)
  | totalSize
  | notSurviving (event : ℕ)
  deriving DecidableEq

/-- `text.replace("\r\n", "\n")`. -/
def unifyLineEnds : Text → Text
  | [] => []
  | '\r' :: '\n' :: t => '\n' :: unifyLineEnds t
  | c :: t => c :: unifyLineEnds t

section

variable (S : SplitLibs)

/-- Not `text.strip()`. -/
def SplitLibs.isBlank (text : Text) : Bool := text.all S.isSpace

def checkBreaker (breaker : Text) : Except SampleError Breaker :=
  if S.isBlank breaker then .error .breakerNotText
  else if maxBreakerLen < breaker.length ∨ '\n' ∈ breaker ∨ '\r' ∈ breaker then .error .breakerLines
  else
    match S.compile breaker with
    | .error exc => .error (.breakerInvalid exc)
    | .ok rx => if rx.finditer [] ≠ [] then .error .breakerEmptyMatch else .ok rx

/-- One match of `break_events`; a match at offset 0 does not open an empty event. -/
def breakStep (text : Text) (st : List Text × ℕ) (m : Match) : Except SampleError (List Text × ℕ) :=
  if m.stop = m.start then .error .breakerEmptyMatch
  else if m.start ≠ 0 then .ok (st.1 ++ [slice text st.2 m.start], m.start)
  else .ok st

def breakEvents (text breaker : Text) : Except SampleError (List Text) := do
  let rx ← checkBreaker S breaker
  let text := unifyLineEnds text
  let st ← (rx.finditer text).foldlM (breakStep text) ([], 0)
  return ((st.1 ++ [text.drop st.2]).filter fun p => !S.isBlank p).map
    fun p => p.rdropWhile fun c => c = '\r' ∨ c = '\n'

/-- `len(ev.encode("utf-8"))`. -/
def utf8Length (text : Text) : ℕ := (text.map Char.utf8Size).sum

/-- One event in `validate_config`. -/
def cleanEvent (breaker : Option Text) (index : ℕ) (event : Text) : Except SampleError Text :=
  if S.isBlank event then .error (.eventEmpty (index + 1))
  else
    let event := (unifyLineEnds event).rdropWhile fun c => c = '\n'
    if '\r' ∈ event ∨ ('\n' ∈ event ∧ breaker = none) then .error (.eventLines (index + 1))
    else if maxEventBytes < utf8Length event then .error (.eventSize (index + 1))
    else .ok event

/-- How many leading events of two lists are the same. -/
def firstDifference : List Text → List Text → ℕ
  | a :: as, b :: bs => if a = b then firstDifference as bs + 1 else 0
  | _, _ => 0

def joinEvents (events : List Text) : Text := ("\n".toList).intercalate events

/-- The breaker has to give back the events. -/
def checkResplit (clean : List Text) (breaker : Text) : Except SampleError Unit := do
  let resplit ← breakEvents S (joinEvents clean) breaker
  if resplit = clean then .ok () else .error (.notSurviving (firstDifference resplit clean + 1))

def validateEvents (events : List Text) (breaker : Option Text) : Except SampleError (List Text) :=
  if events = [] then .error .noEvents
  else if maxEvents < events.length then .error (.tooManyEvents events.length)
  else do
    let _ ← breaker.mapM (checkBreaker S)
    let clean ← events.zipIdx.mapM fun (event, index) => cleanEvent S breaker index event
    if maxTotalBytes < (clean.map utf8Length).sum then .error .totalSize
    else do
      let _ ← breaker.mapM (checkResplit S clean)
      return clean

/-- `validate_config`, as far as it goes into the sample; an empty breaker is none. -/
def validateConfig (cfg : SampleConfig) : Except SampleError SampleConfig := do
  let breaker := cfg.breaker.filter fun b => b ≠ []
  let events ← validateEvents S cfg.events breaker
  return { cfg with events := events, breaker := breaker }

end

/-- What `write_pack` leaves on disk of the sample: the sample file and the builder config. -/
structure WrittenPack where
  sample : Text
  builder : SampleConfig
  deriving DecidableEq

def sampleText (events : List Text) : Text := joinEvents events ++ "\n"

def writePack (libs : Libs) (cfg : SampleConfig) (subkey : Option (List UInt8))
    (already : List Text) :
    Except BuilderError WrittenPack := do
  let out ← applyPseudonyms libs cfg.toConfig subkey already
  return { sample := sampleText out.events, builder := { cfg with events := out.events } }

end Stoker
