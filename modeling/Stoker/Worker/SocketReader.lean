import Mathlib.Data.List.DropRight
import Stoker.Framing.Lines
import Stoker.Server.Rows
import Stoker.Worker.Hec

/-!
# The reader of the agent's socket

`SocketServer._read_stream`. One thread reads a connection to its end: what a read brings is joined
to what was left of the one before, the lines that are complete are taken up, and the rest is kept
for the next read. In the `stoker` envelope the lines are decoded and passed on one by one, and a
rest beyond the limit is discarded; in the `hec` envelope the lines of one read are passed on in
batches, and nothing limits the rest.

The token bucket and the HEC client stand behind a sink that says how many lines a call lets
through, none when the run drains. `handed` is a history variable: the lines taken up so far.
-/

open List

namespace Stoker

open Framing

/-! ### Lines -/

def newline : UInt8 := 10

def isSpace (b : UInt8) : Bool := b = 32 || (9 ≤ b && b ≤ 13)

def stripLine (line : Line) : Line := (line.dropWhile isSpace).rdropWhile isSpace

/-- What decoding comes to, with the check for an event and the filling in of metadata; `raised` is
an exception that nothing catches, such as the `RecursionError` of a line nested too deep. -/
inductive Decoded (E : Type) where
  | event (e : E)
  | malformed
  | raised

section

variable {E : Type} (decode : Line → Decoded E) (env : Envelope)

/-- What a stripped line comes to. Decoding is taken from outside; a HEC line is only looked at from
both ends. -/
def outcomeOf (line : Line) : Decoded (Payload E) :=
  match env with
  | .stoker =>
    match decode line with
    | .event e => .event (.envelope e)
    | .malformed => .malformed
    | .raised => .raised
  | .hec =>
    if line.head? = some 123 ∧ line.getLast? = some 125 then .event (.bytes line) else .malformed

/-- What a stripped line is passed on as, if it is well formed. -/
def itemOf (line : Line) : Option (Payload E) :=
  match outcomeOf decode env line with
  | .event item => some item
  | _ => none

end

/-! ### The reader -/

def maxBuffer : ℕ := 4 * 1024 * 1024

/-- How much one read brings at most. -/
def recvSize : ℕ := 65536

/-- The bucket and the client: of so many lines, how many the next call lets through. -/
structure Sink where
  grant : ℕ → ℕ → ℕ
  grant_le : ∀ call n, grant call n ≤ n

structure Reader (E : Type) where
  buf : Line := []
  passed : List (Payload E) := []
  calls : ℕ := 0
  malformed : ℕ := 0
  received : ℕ := 0
  handed : List Line := []

/-- What a read of the connection comes to. -/
inductive Recv where
  | data (chunk : Line)
  | timeout
  | lost
  | eof
  | stopped

section

variable {E : Type} (decode : Line → Decoded E) (sink : Sink) (env : Envelope)

/-- Queue the lines that were let through. -/
def Reader.pass (items : List (Payload E)) (r : Reader E) : Reader E :=
  { r with
    passed := r.passed ++ items
    calls := r.calls + 1
    received := r.received + items.length }

/-- `_handle_line`, with `_handle_hec_line`; says whether to go on, which the thread does not after
an exception. -/
def handleLine (r : Reader E) (raw : Line) : Reader E × Bool :=
  let taken := { r with handed := r.handed ++ [raw] }
  let line := stripLine raw
  if line = [] then (taken, true)
  else
    match outcomeOf decode env line with
    | .raised => (r, false)
    | .malformed => ({ taken with malformed := r.malformed + 1 }, true)
    | .event item =>
      if sink.grant r.calls 1 = 0 then ({ taken with calls := r.calls + 1 }, false)
      else (taken.pass [item], true)

/-- The loop over the lines of a read, up to the one that says to stop. -/
def handleLines : Reader E → List Line → Reader E × Bool
  | r, [] => (r, true)
  | r, raw :: lines =>
    if (handleLine decode sink env r raw).2 then
      handleLines (handleLine decode sink env r raw).1 lines
    else ((handleLine decode sink env r raw).1, false)

/-- The loop of `_handle_hec_lines`: every call lets some lines through, so there are no more calls
than lines. -/
def passGood : ℕ → Reader E → List (Payload E) → Reader E × Bool
  | 0, r, _ => (r, true)
  | _ + 1, r, [] => (r, true)
  | fuel + 1, r, item :: good =>
    let granted := sink.grant r.calls (item :: good).length
    if granted = 0 then ({ r with calls := r.calls + 1 }, false)
    else passGood fuel (r.pass ((item :: good).take granted)) ((item :: good).drop granted)

def filled (lines : List Line) : List Line := (lines.map stripLine).filter (· ≠ [])

def handleHecLines (r : Reader E) (lines : List Line) : Reader E × Bool :=
  let good := (filled lines).filterMap (itemOf decode .hec)
  passGood sink good.length
    { r with
      handed := r.handed ++ lines
      malformed := r.malformed + ((filled lines).length - good.length) } good

/-- One read that brought something. -/
def readChunk (r : Reader E) (chunk : Line) : Reader E × Bool :=
  let (lines, rest) := cut newline (r.buf ++ chunk)
  let r := { r with buf := rest }
  match env with
  | .hec => handleHecLines decode sink r lines
  | .stoker =>
    let (r, more) := handleLines decode sink .stoker r lines
    if more = false then (r, false)
    else if maxBuffer < r.buf.length then ({ r with buf := [], malformed := r.malformed + 1 }, true)
    else (r, true)

/-- One turn of the loop of `_read_stream`; nothing is read any more once it has returned. -/
def readOnce (st : Reader E × Bool) (x : Recv) : Reader E × Bool :=
  if st.2 = false then st
  else
    match x with
    | .timeout => st
    | .lost | .stopped => (st.1, false)
    | .eof =>
      if stripLine st.1.buf = [] then (st.1, false)
      else ((handleLine decode sink env st.1 st.1.buf).1, false)
    | .data chunk => readChunk decode sink env st.1 chunk

def readStream (reads : List Recv) : Reader E × Bool :=
  reads.foldl (readOnce decode sink env) ({}, true)

end

/-! ### Streams -/

/-- The bytes that some reads bring. -/
def Recv.bytes : Recv → Line
  | .data chunk => chunk
  | _ => []

def bytesRead (reads : List Recv) : Line := reads.flatMap Recv.bytes

/-- A read that brings something brings no more than it asks for, and the others are as they are. -/
def Recv.Fits : Recv → Prop
  | .data chunk => chunk ≠ [] ∧ chunk.length ≤ recvSize
  | _ => True

/-- Reads that bring a stream and then its end; in between, some may time out. -/
structure Cuts (stream : Line) (reads : List Recv) : Prop where
  bytes : bytesRead reads = stream
  fits : ∀ x ∈ reads, x.Fits
  plain : ∀ x ∈ reads, x = .timeout ∨ ∃ chunk, x = .data chunk

/-- A run that does not drain: every call lets something through. -/
def Sink.Open (sink : Sink) : Prop := ∀ call n, 0 < n → 0 < sink.grant call n

/-- The lines of a stream that are taken up: those that end, and the rest if it is not blank. -/
def streamLines (stream : Line) : List Line :=
  (cut newline stream).1 ++
    if stripLine (cut newline stream).2 = [] then [] else [(cut newline stream).2]

/-- No line is longer than the limit. -/
def WithinLimit (stream : Line) : Prop := ∀ l ∈ lines newline stream, l.length ≤ maxBuffer

section

variable {E : Type} (decode : Line → Decoded E) (env : Envelope) (stream : Line)

/-- If no line is longer than the limit, the lines of the stream are taken up in order, and what
they are passed on as is passed on, however the stream is cut. -/
def FramesExactly : Prop :=
  WithinLimit stream → ∀ sink : Sink, sink.Open → ∀ reads, Cuts stream reads →
    (readStream decode sink env (reads ++ [.eof])).1.handed = streamLines stream ∧
      (readStream decode sink env (reads ++ [.eof])).1.passed =
        (filled (streamLines stream)).filterMap (itemOf decode env)

/-- Whatever the reads come to while they bring no more than the stream, no more is held than the
limit and one read. -/
def HoldsWithin : Prop :=
  ∀ (sink : Sink) (reads : List Recv), (∀ x ∈ reads, x.Fits) → bytesRead reads <+: stream →
    (readStream decode sink env reads).1.buf.length ≤ maxBuffer + recvSize

end

/-! ### Lines that are passed on -/

section

variable {E : Type} {decode : Line → Decoded E} {sink : Sink} {env : Envelope}

@[simp] lemma Reader.pass_buf (items : List (Payload E)) (r : Reader E) :
    (r.pass items).buf = r.buf := rfl

@[simp] lemma Reader.pass_passed (items : List (Payload E)) (r : Reader E) :
    (r.pass items).passed = r.passed ++ items := rfl

lemma filled_append (a b : List Line) : filled (a ++ b) = filled a ++ filled b := by
  rw [filled, map_append, filter_append]
  rfl

lemma filled_cons (raw : Line) (ls : List Line) : filled (raw :: ls) = filled [raw] ++ filled ls :=
  filled_append [raw] ls

variable {raw : Line}

lemma filled_of_blank (h : stripLine raw = []) : filled [raw] = [] := by
  simp [filled, h]

lemma filled_of_not_blank (h : stripLine raw ≠ []) : filled [raw] = [stripLine raw] := by
  simp [filled, h]

/-- No line of these raises an exception. -/
def Decodes (decode : Line → Decoded E) (env : Envelope) (ls : List Line) : Prop :=
  ∀ l ∈ filled ls, outcomeOf decode env l ≠ .raised

lemma decodes_append {a b : List Line} :
    Decodes decode env (a ++ b) ↔ Decodes decode env a ∧ Decodes decode env b := by
  simp only [Decodes, filled_append, forall_mem_append]

lemma decodes_hec (decode : Line → Decoded E) (ls : List Line) : Decodes decode .hec ls := by
  intro l _ h
  rw [outcomeOf] at h
  split_ifs at h

/-- What some lines leave behind in a run that does not drain: they were taken up, and what they are
passed on as was passed on. -/
structure Took (decode : Line → Decoded E) (env : Envelope) (ls : List Line) (r r' : Reader E) :
    Prop where
  buf : r'.buf = r.buf
  handed : r'.handed = r.handed ++ ls
  passed : r'.passed = r.passed ++ (filled ls).filterMap (itemOf decode env)

variable {r : Reader E} {sofar stream : Line}

lemma Took.cons {ls : List Line} {r₁ r₂ : Reader E} (h : Took decode env [raw] r r₁)
    (h' : Took decode env ls r₁ r₂) : Took decode env (raw :: ls) r r₂ := by
  refine ⟨h'.buf.trans h.buf, ?_, ?_⟩
  · rw [h'.handed, h.handed, append_assoc, singleton_append]
  · rw [h'.passed, h.passed, filled_cons raw ls, filterMap_append, append_assoc]

lemma handleLine_took (hs : sink.Open) (r : Reader E) (hraw : Decodes decode env [raw]) :
    (handleLine decode sink env r raw).2 = true ∧
      Took decode env [raw] r (handleLine decode sink env r raw).1 := by
  unfold handleLine
  by_cases hblank : stripLine raw = []
  · rw [if_pos hblank]
    exact ⟨rfl, rfl, rfl, by simp [filled_of_blank hblank]⟩
  · rw [if_neg hblank]
    rw [Decodes, filled_of_not_blank hblank, forall_mem_singleton] at hraw
    cases hitem : outcomeOf decode env (stripLine raw) with
    | raised => exact absurd hitem hraw
    | malformed => exact ⟨rfl, rfl, rfl, by simp [filled_of_not_blank hblank, itemOf, hitem]⟩
    | event item =>
      dsimp only
      rw [if_neg (hs r.calls 1 one_pos).ne']
      exact ⟨rfl, rfl, rfl, by simp [filled_of_not_blank hblank, itemOf, hitem]⟩

lemma handleLines_took (hs : sink.Open) (ls : List Line) (r : Reader E)
    (hls : Decodes decode env ls) :
    (handleLines decode sink env r ls).2 = true ∧
      Took decode env ls r (handleLines decode sink env r ls).1 := by
  induction ls generalizing r with
  | nil => exact ⟨rfl, rfl, by simp [handleLines], by simp [handleLines, filled]⟩
  | cons raw ls ih =>
    rw [← singleton_append, decodes_append] at hls
    obtain ⟨hmore, htook⟩ := handleLine_took hs r hls.1
    obtain ⟨hmore', htook'⟩ := ih (handleLine decode sink env r raw).1 hls.2
    rw [handleLines, if_pos hmore]
    exact ⟨hmore', htook.cons htook'⟩

lemma passGood_all (hs : sink.Open) {fuel : ℕ} {good : List (Payload E)}
    (hfuel : good.length ≤ fuel) (r : Reader E) :
    (passGood sink fuel r good).2 = true ∧ (passGood sink fuel r good).1.buf = r.buf ∧
      (passGood sink fuel r good).1.handed = r.handed ∧
      (passGood sink fuel r good).1.passed = r.passed ++ good := by
  induction fuel generalizing r good with
  | zero =>
    rw [length_eq_zero_iff.1 (Nat.le_zero.1 hfuel)]
    simp [passGood]
  | succ fuel ih =>
    cases good with
    | nil => simp [passGood]
    | cons item good =>
      have hpos := hs r.calls (item :: good).length (Nat.succ_pos _)
      rw [passGood, if_neg hpos.ne']
      have hdrop : ((item :: good).drop (sink.grant r.calls (item :: good).length)).length ≤
          fuel := by
        rw [length_drop]
        omega
      obtain ⟨h₁, h₂, h₃, h₄⟩ := ih hdrop (r.pass ((item :: good).take
        (sink.grant r.calls (item :: good).length)))
      refine ⟨h₁, h₂, h₃, ?_⟩
      rw [h₄, Reader.pass_passed, append_assoc, take_append_drop]

lemma handleHecLines_took (decode : Line → Decoded E) (hs : sink.Open) (ls : List Line)
    (r : Reader E) :
    (handleHecLines decode sink r ls).2 = true ∧
      Took decode .hec ls r (handleHecLines decode sink r ls).1 := by
  obtain ⟨hmore, hbuf, hhanded, hpassed⟩ := passGood_all hs
    (le_refl ((filled ls).filterMap (itemOf decode .hec)).length)
    { r with
      handed := r.handed ++ ls
      malformed := r.malformed +
        ((filled ls).length - ((filled ls).filterMap (itemOf decode .hec)).length) }
  exact ⟨hmore, hbuf, hhanded, hpassed⟩

/-! ### Reads -/

/-- A reader that has taken up the lines of what was read, and holds the rest. -/
structure Framed (decode : Line → Decoded E) (env : Envelope) (sofar : Line) (r : Reader E) :
    Prop where
  buf : r.buf = (cut newline sofar).2
  handed : r.handed = (cut newline sofar).1
  passed : r.passed = (filled (cut newline sofar).1).filterMap (itemOf decode env)

lemma Framed.took {chunk : Line} {r' : Reader E} (h : Framed decode env sofar r)
    (ht : Took decode env (cut newline (r.buf ++ chunk)).1
      { r with buf := (cut newline (r.buf ++ chunk)).2 } r') :
    Framed decode env (sofar ++ chunk) r' := by
  obtain ⟨hbuf, hhanded, hpassed⟩ := ht
  have hcut := cut_append newline sofar chunk
  rw [← h.buf] at hcut
  refine ⟨by rw [hbuf, hcut], by rw [hhanded, hcut, h.handed], ?_⟩
  rw [hpassed, hcut, filled_append, filterMap_append, h.passed]

/-- A read in a run that does not drain, of lines that raise nothing; in the `stoker` envelope the
rest is within the limit. -/
lemma Framed.readChunk (hs : sink.Open) (h : Framed decode env sofar r) (chunk : Line)
    (hdec : Decodes decode env (cut newline (sofar ++ chunk)).1)
    (hlimit : env = .stoker → (cut newline (sofar ++ chunk)).2.length ≤ maxBuffer) :
    (readChunk decode sink env r chunk).2 = true ∧
      Framed decode env (sofar ++ chunk) (readChunk decode sink env r chunk).1 := by
  cases env with
  | hec =>
    obtain ⟨hmore, htook⟩ := handleHecLines_took decode hs (cut newline (r.buf ++ chunk)).1
      { r with buf := (cut newline (r.buf ++ chunk)).2 }
    exact ⟨hmore, h.took htook⟩
  | stoker =>
    rw [cut_append, ← h.buf, decodes_append] at hdec
    obtain ⟨hmore, htook⟩ := handleLines_took hs
      (cut newline (r.buf ++ chunk)).1 { r with buf := (cut newline (r.buf ++ chunk)).2 } hdec.2
    have hframed := h.took htook
    have hshort : ¬maxBuffer < (handleLines decode sink .stoker
        { r with buf := (cut newline (r.buf ++ chunk)).2 }
        (cut newline (r.buf ++ chunk)).1).1.buf.length := by
      rw [hframed.buf]
      exact not_lt.2 (hlimit rfl)
    simp only [Stoker.readChunk, hmore, Bool.true_eq_false, if_false, if_neg hshort]
    exact ⟨trivial, hframed⟩

section

variable {st : Reader E × Bool}

@[simp] lemma readOnce_closed (h : st.2 = false) (x : Recv) :
    readOnce decode sink env st x = st := by
  simp [readOnce, h]

@[simp] lemma readOnce_timeout : readOnce decode sink env st .timeout = st := by
  simp [readOnce]

@[simp] lemma readOnce_data (h : st.2 = true) (chunk : Line) :
    readOnce decode sink env st (.data chunk) = readChunk decode sink env st.1 chunk := by
  simp [readOnce, h]

@[simp] lemma readOnce_eof (h : st.2 = true) : readOnce decode sink env st .eof =
    if stripLine st.1.buf = [] then (st.1, false)
    else ((handleLine decode sink env st.1 st.1.buf).1, false) := by
  simp [readOnce, h]

end

lemma readStream_snoc (reads : List Recv) (x : Recv) :
    readStream decode sink env (reads ++ [x]) =
      readOnce decode sink env (readStream decode sink env reads) x := by
  rw [readStream, foldl_append]
  rfl

lemma bytesRead_snoc (reads : List Recv) (x : Recv) :
    bytesRead (reads ++ [x]) = bytesRead reads ++ x.bytes := by
  simp [bytesRead]

lemma bytesRead_timeout (reads : List Recv) :
    bytesRead (reads ++ [.timeout]) = bytesRead reads := by
  rw [bytesRead_snoc]
  exact append_nil _

lemma bytesRead_data (reads : List Recv) (chunk : Line) :
    bytesRead (reads ++ [.data chunk]) = bytesRead reads ++ chunk :=
  bytesRead_snoc reads (.data chunk)

/-- After the reads of a stream in a run that does not drain, its lines were taken up. -/
lemma readStream_framed (hs : sink.Open) {reads : List Recv}
    (hreads : ∀ x ∈ reads, x = .timeout ∨ ∃ chunk, x = .data chunk)
    (hdec : Decodes decode env (cut newline (bytesRead reads)).1)
    (hlimit : env = .stoker → ∀ p, p <+: bytesRead reads → (cut newline p).2.length ≤ maxBuffer) :
    (readStream decode sink env reads).2 = true ∧
      Framed decode env (bytesRead reads) (readStream decode sink env reads).1 := by
  induction reads using reverseRecOn with
  | nil => exact ⟨rfl, rfl, rfl, rfl⟩
  | append_singleton reads x ih =>
    have hpre : bytesRead reads <+: bytesRead (reads ++ [x]) := by
      rw [bytesRead_snoc]
      exact prefix_append _ _
    have hbefore : Decodes decode env (cut newline (bytesRead reads)).1 := by
      rw [bytesRead_snoc, cut_append, decodes_append] at hdec
      exact hdec.1
    obtain ⟨hmore, hframed⟩ := ih (fun y hy => hreads y (mem_append_left _ hy)) hbefore
      fun he p hp => hlimit he p (hp.trans hpre)
    rw [readStream_snoc]
    rcases hreads x (mem_append_right _ (mem_singleton.2 rfl)) with rfl | ⟨chunk, rfl⟩
    · rw [readOnce_timeout, bytesRead_timeout]
      exact ⟨hmore, hframed⟩
    · rw [bytesRead_data] at hdec hlimit
      rw [readOnce_data hmore, bytesRead_data]
      exact hframed.readChunk hs chunk hdec fun he => hlimit he _ prefix_rfl

/-- The end of a stream: the rest is a line too, unless it is blank. -/
lemma framesExactly (hdec : WithinLimit stream → Decodes decode env (streamLines stream)) :
    FramesExactly decode env stream := by
  intro hshort sink hs reads hcuts
  obtain ⟨hlines, hrest⟩ := decodes_append.1 (hdec hshort)
  obtain ⟨hmore, hframed⟩ := readStream_framed hs hcuts.plain (by rwa [hcuts.bytes]) (by
    rw [hcuts.bytes]
    intro _ p hp
    obtain ⟨l, hl, hpre⟩ := exists_line_of_isPrefix newline hp
    exact hpre.length_le.trans (hshort l hl))
  rw [hcuts.bytes] at hframed
  rw [readStream_snoc, readOnce_eof hmore, hframed.buf]
  by_cases hblank : stripLine (cut newline stream).2 = []
  · rw [if_pos hblank, streamLines, if_pos hblank, append_nil]
    exact ⟨hframed.handed, hframed.passed⟩
  · rw [if_neg hblank] at hrest
    obtain ⟨-, htook⟩ := handleLine_took hs (readStream decode sink env reads).1 hrest
    rw [if_neg hblank, streamLines, if_neg hblank]
    refine ⟨by rw [htook.handed, hframed.handed], ?_⟩
    rw [htook.passed, hframed.passed, filled_append, filterMap_append]

/-! ### What is held -/

section

variable (decode : Line → Decoded E) (sink : Sink) (env : Envelope)

/-- What is held stays as it is, and a line that raises is not taken up. -/
lemma handleLine_kept (r : Reader E) (raw : Line) :
    (handleLine decode sink env r raw).1.buf = r.buf ∧ (Decodes decode env r.handed →
      Decodes decode env (handleLine decode sink env r raw).1.handed) := by
  unfold handleLine
  by_cases hblank : stripLine raw = []
  · rw [if_pos hblank]
    refine ⟨rfl, fun h => decodes_append.2 ⟨h, ?_⟩⟩
    rw [Decodes, filled_of_blank hblank]
    exact forall_mem_nil _
  · rw [if_neg hblank]
    have hraw : outcomeOf decode env (stripLine raw) ≠ .raised → Decodes decode env [raw] := by
      rw [Decodes, filled_of_not_blank hblank, forall_mem_singleton]
      exact id
    cases hitem : outcomeOf decode env (stripLine raw) with
    | raised => exact ⟨rfl, id⟩
    | malformed => exact ⟨rfl, fun h => decodes_append.2 ⟨h, hraw (by simp [hitem])⟩⟩
    | event =>
      dsimp only
      split_ifs <;> exact ⟨rfl, fun h => decodes_append.2 ⟨h, hraw (by simp [hitem])⟩⟩

lemma handleLines_kept (ls : List Line) (r : Reader E) :
    (handleLines decode sink env r ls).1.buf = r.buf ∧ (Decodes decode env r.handed →
      Decodes decode env (handleLines decode sink env r ls).1.handed) := by
  induction ls generalizing r with
  | nil => exact ⟨rfl, id⟩
  | cons raw ls ih =>
    obtain ⟨hbuf, hdec⟩ := handleLine_kept decode sink env r raw
    rw [handleLines]
    split_ifs
    · obtain ⟨hbuf', hdec'⟩ := ih (handleLine decode sink env r raw).1
      exact ⟨hbuf'.trans hbuf, hdec' ∘ hdec⟩
    · exact ⟨hbuf, hdec⟩

lemma passGood_buf (fuel : ℕ) (good : List (Payload E)) (r : Reader E) :
    (passGood sink fuel r good).1.buf = r.buf := by
  induction fuel generalizing r good with
  | zero => rfl
  | succ fuel ih =>
    cases good with
    | nil => rfl
    | cons item good =>
      rw [passGood]
      split_ifs
      · rfl
      · rw [ih, Reader.pass_buf]

/-- A read leaves the rest of what is there, unless that is discarded. -/
lemma readChunk_buf (r : Reader E) (chunk : Line) :
    (readChunk decode sink env r chunk).1.buf = (cut newline (r.buf ++ chunk)).2 ∧
        (env = .stoker → (readChunk decode sink env r chunk).2 = true →
          (cut newline (r.buf ++ chunk)).2.length ≤ maxBuffer) ∨
      env = .stoker ∧ (readChunk decode sink env r chunk).1.buf = [] := by
  unfold readChunk
  cases env with
  | hec => exact .inl ⟨passGood_buf _ _ _ _, fun h => nomatch h⟩
  | stoker =>
    have hbuf := (handleLines_kept decode sink .stoker
      (cut newline (r.buf ++ chunk)).1 { r with buf := (cut newline (r.buf ++ chunk)).2 }).1
    dsimp only at hbuf ⊢
    split_ifs with hmore hlong
    · exact .inl ⟨hbuf, fun _ h => nomatch h⟩
    · exact .inr ⟨rfl, rfl⟩
    · rw [hbuf] at hlong
      exact .inl ⟨hbuf, fun _ _ => not_lt.1 hlong⟩

/-- The reader after some reads, and whether it goes on: a read that brings nothing leaves it as it
is, and going only after a time-out; at the end a last line may be taken up. -/
lemma readStream_rule {P : List Recv → Reader E → Bool → Prop} (start : P [] {} true)
    (idle : ∀ reads x r more more', (more' = true → more = true ∧ x.bytes = []) → P reads r more →
      P (reads ++ [x]) r more')
    (last : ∀ reads r raw, P reads r false → P reads (handleLine decode sink env r raw).1 false)
    (chunk : ∀ reads c r, P reads r true →
      P (reads ++ [.data c]) (readChunk decode sink env r c).1 (readChunk decode sink env r c).2)
    (reads : List Recv) :
    P reads (readStream decode sink env reads).1 (readStream decode sink env reads).2 := by
  induction reads using reverseRecOn with
  | nil => exact start
  | append_singleton reads x ih =>
    rw [readStream_snoc]
    generalize readStream decode sink env reads = st at ih ⊢
    rcases st with ⟨r, _ | _⟩
    · rw [readOnce_closed rfl]
      exact idle _ _ _ _ _ (fun h => nomatch h) ih
    · cases x with
      | data c => exact chunk _ _ _ ih
      | timeout => exact idle _ _ _ _ _ (fun _ => ⟨rfl, rfl⟩) ih
      | lost | stopped => exact idle _ _ _ _ _ (fun h => nomatch h) ih
      | eof =>
        rw [readOnce_eof rfl]
        split_ifs
        · exact idle _ _ _ _ _ (fun h => nomatch h) ih
        · exact last _ _ _ (idle _ _ _ _ _ (fun h => nomatch h) ih)

/-- Only lines that raise nothing are ever taken up. -/
lemma handed_decodes (reads : List Recv) :
    Decodes decode .stoker (readStream decode sink .stoker reads).1.handed := by
  refine readStream_rule (P := fun _ r _ => Decodes decode .stoker r.handed) decode sink .stoker
    (forall_mem_nil _) (fun _ _ _ _ _ _ ih => ih)
    (fun _ r raw ih => (handleLine_kept decode sink .stoker r raw).2 ih) (fun _ c r ih => ?_) reads
  have hdec := (handleLines_kept decode sink .stoker (cut newline (r.buf ++ c)).1
    { r with buf := (cut newline (r.buf ++ c)).2 }).2 ih
  unfold readChunk
  dsimp only
  split_ifs <;> exact hdec

/-- In the `stoker` envelope a rest beyond the limit is there only when the run drains. -/
lemma stoker_holdsWithin (stream : Line) : HoldsWithin decode .stoker stream := by
  intro sink reads hfits _
  refine (readStream_rule (P := fun reads r more => (∀ x ∈ reads, x.Fits) →
    r.buf.length ≤ maxBuffer + recvSize ∧ (more = true → r.buf.length ≤ maxBuffer)) decode sink
    .stoker ?_ ?_ ?_ ?_ reads hfits).1
  · exact fun _ => ⟨Nat.zero_le _, fun _ => Nat.zero_le _⟩
  · intro reads x r more more' hgoes ih hfits
    obtain ⟨hheld, hlimit⟩ := ih fun y hy => hfits y (mem_append_left _ hy)
    exact ⟨hheld, fun h => hlimit (hgoes h).1⟩
  · intro reads r raw ih
    rw [(handleLine_kept decode sink .stoker r raw).1]
    exact ih
  · intro reads c r ih hfits
    have hbefore := (ih fun y hy => hfits y (mem_append_left _ hy)).2 rfl
    have hchunk := (hfits _ (mem_append_right _ (mem_singleton.2 rfl))).2
    rcases readChunk_buf decode sink .stoker r c with ⟨hbuf, hshort⟩ | ⟨-, hbuf⟩ <;> rw [hbuf]
    · have hrest := cut_snd_length_le newline (r.buf ++ c)
      rw [length_append] at hrest
      exact ⟨by omega, hshort rfl⟩
    · exact ⟨Nat.zero_le _, fun _ => Nat.zero_le _⟩

/-- In the `hec` envelope the whole rest of what was read is held. -/
lemma hec_held (reads : List Recv) :
    ∃ p, p <+: bytesRead reads ∧ (readStream decode sink .hec reads).1.buf = (cut newline p).2 ∧
      ((readStream decode sink .hec reads).2 = true → p = bytesRead reads) := by
  refine readStream_rule (P := fun reads r more => ∃ p, p <+: bytesRead reads ∧
    r.buf = (cut newline p).2 ∧ (more = true →
      p = bytesRead reads)) decode sink .hec ?_ ?_ ?_ ?_ reads
  · exact ⟨[], prefix_rfl, rfl, fun _ => rfl⟩
  · rintro reads x r more more' hgoes ⟨p, hp, hheld, hall⟩
    rw [bytesRead_snoc]
    refine ⟨p, hp.trans (prefix_append _ _), hheld, fun h => ?_⟩
    obtain ⟨hopen, hnone⟩ := hgoes h
    rw [hnone, append_nil, hall hopen]
  · intro reads r raw ih
    rw [(handleLine_kept decode sink .hec r raw).1]
    exact ih
  · rintro reads c r ⟨p, hp, hheld, hall⟩
    refine ⟨_, prefix_rfl, ?_, fun _ => rfl⟩
    rcases readChunk_buf decode sink .hec r c with ⟨hbuf, -⟩ | ⟨henv, -⟩
    · rw [hbuf, hheld, hall rfl, bytesRead_data, cut_append newline (bytesRead reads)]
    · cases henv

end

/-- A sink that lets everything through. -/
def openSink : Sink where
  grant := fun _ n => n
  grant_le := fun _ _ => le_rfl

lemma openSink_open : openSink.Open := fun _ _ hn => hn

/-- A stream read byte by byte. -/
lemma cuts_bytes (stream : Line) : Cuts stream (stream.map fun b => .data [b]) := by
  refine ⟨by simp [bytesRead, flatMap_map, Recv.bytes], fun x hx => ?_, fun x hx => ?_⟩ <;>
    obtain ⟨b, _, rfl⟩ := mem_map.1 hx
  · exact ⟨cons_ne_nil _ _, by norm_num [recvSize]⟩
  · exact .inr ⟨_, rfl⟩

lemma hec_holds_line (decode : Line → Decoded E) {l : Line} (hl : l ∈ lines newline stream) :
    ∃ reads : List Recv, (∀ x ∈ reads, x.Fits) ∧ bytesRead reads <+: stream ∧
      (readStream decode openSink .hec reads).1.buf = l := by
  obtain ⟨p, hp, rfl⟩ := exists_isPrefix_of_line stream l hl
  have hcuts := cuts_bytes p
  obtain ⟨-, hframed⟩ := readStream_framed openSink_open hcuts.plain (decodes_hec decode _)
    fun h => nomatch h
  rw [hcuts.bytes] at hframed
  exact ⟨_, hcuts.fits, by rwa [hcuts.bytes], hframed.buf⟩

end

/-- The lines of a stream are framed however it is cut, and what is held stays within the limit and
one read, exactly when no line that could be handed on raises an exception, and the envelope is
`stoker` or no line is longer than that. -/
theorem framing_holds_within_iff {E : Type} (decode : Line → Decoded E) (env : Envelope)
    (stream : Line) :
    (FramesExactly decode env stream ∧ HoldsWithin decode env stream) ↔
      (env = .stoker ∧
          (WithinLimit stream → ∀ l ∈ filled (streamLines stream), decode l ≠ .raised)) ∨
        (env = .hec ∧ ∀ l ∈ lines newline stream, l.length ≤ maxBuffer + recvSize) := by
  cases env with
  | stoker =>
    have hiff : ∀ ls, Decodes decode .stoker ls ↔ ∀ l ∈ filled ls, decode l ≠ .raised := by
      intro ls
      refine forall₂_congr fun l _ => not_congr ?_
      cases h : decode l <;> simp [outcomeOf, h]
    simp only [← hiff, true_and, reduceCtorEq, false_and, or_false]
    refine ⟨fun ⟨hframes, _⟩ hshort => ?_, fun hdec =>
      ⟨framesExactly hdec, stoker_holdsWithin decode stream⟩⟩
    rw [← (hframes hshort openSink openSink_open _ (cuts_bytes stream)).1]
    exact handed_decodes decode openSink _
  | hec =>
    simp only [reduceCtorEq, false_and, true_and, false_or]
    refine ⟨fun ⟨_, hheld⟩ l hl => ?_, fun hshort =>
      ⟨framesExactly fun _ => decodes_hec decode _, fun sink reads _ hpre => ?_⟩⟩
    · obtain ⟨reads, hfits, hpre, hbuf⟩ := hec_holds_line decode hl
      have := hheld openSink reads hfits hpre
      rwa [hbuf] at this
    · obtain ⟨p, hp, hbuf, -⟩ := hec_held decode sink reads
      obtain ⟨l, hl, hle⟩ := exists_line_of_isPrefix newline (hp.trans hpre)
      rw [hbuf]
      exact hle.length_le.trans (hshort l hl)

/-- A line of a byte more than the limit and one read is held whole in the `hec` envelope. -/
theorem hec_line_held_beyond_limit :
    ¬(FramesExactly (fun _ => (.malformed : Decoded Unit)) .hec
        (replicate (maxBuffer + recvSize + 1) 97) ∧
      HoldsWithin (fun _ => (.malformed : Decoded Unit)) .hec
        (replicate (maxBuffer + recvSize + 1) 97)) := by
  rintro ⟨-, hheld⟩
  have hnot : newline ∉ replicate (maxBuffer + recvSize + 1) (97 : UInt8) := by
    intro hmem
    exact absurd (eq_of_mem_replicate hmem) (by decide)
  have hline : replicate (maxBuffer + recvSize + 1) (97 : UInt8) ∈
      lines newline (replicate (maxBuffer + recvSize + 1) 97) := by
    rw [lines, cut_of_not_mem hnot]
    exact mem_singleton.2 rfl
  obtain ⟨reads, hfits, hpre, hbuf⟩ :=
    hec_holds_line (fun _ => (.malformed : Decoded Unit)) hline
  have hle := hheld openSink reads hfits hpre
  rw [hbuf, length_replicate] at hle
  omega

end Stoker
