import Stoker.Transition.Runs

/-!
# The HEC client

The queue between the socket reader and the sender threads (`stoker_agent/hec_client.py`). Producers
put single envelopes or whole batches of lines; senders collect a batch, post it and count what
became of it. The state has one entry for each call of a producer and one for each sender, and a
step moves one of them from one access to shared data to the next, so that a run is any
interleaving of the threads. When a batch is closed by its deadline is left open.
-/

namespace Stoker

abbrev Line := List UInt8

/-- What serialising an envelope comes to: its line, an error that `_serialise_or_count` catches
(`TypeError`, `ValueError`, `KeyError`), or any other error. -/
inductive Serialised where
  | line (bytes : Line)
  | caught
  | uncaught
  deriving DecidableEq

/-- What `put` takes: the bytes of a final HEC object, or an envelope. -/
inductive Payload (E : Type) where
  | bytes (line : Line)
  | envelope (e : E)
  deriving DecidableEq

inductive Item (E : Type) where
  | single (payload : Payload E)
  | lines (lines : List Line)
  deriving DecidableEq

structure HecConfig (E : Type) where
  queueMax : ℕ := 5000
  batchBytes : ℕ := 512 * 1024
  maxAttempts : ℕ := 5
  serialise : E → Serialised

structure HecCounters where
  eventsTotal : ℕ := 0
  bytesTotal : ℕ := 0
  hec2xx : ℕ := 0
  hec4xx : ℕ := 0
  hec5xx : ℕ := 0
  hecTimeouts : ℕ := 0
  retries : ℕ := 0
  dropped : ℕ := 0
  droppedInvalid : ℕ := 0
  deriving DecidableEq

/-- A call of `put` or `put_lines`. `ready` is set between the look at the stopping flag and the try
to enqueue; `placing` has its space reserved. -/
inductive Producer (E : Type) where
  | putting (payload : Payload E) (ready : Bool)
  | reserving (lines : List Line)
  | placing (lines : List Line) (ready : Bool)
  | returned (events : ℕ)
  | rejected
  deriving DecidableEq

/-- A sender thread, with the lines it has collected. `holding` has taken an item off the queue and
not looked at it yet; `crashed` was ended by an error nobody caught, and lost some events. -/
inductive Sender (E : Type) where
  | collecting (lines : List Line)
  | holding (item : Item E) (lines : List Line)
  | sending (lines : List Line) (attempt : ℕ)
  | waiting (lines : List Line) (attempt : ℕ)
  | ended
  | crashed (lost : ℕ)
  deriving DecidableEq

structure Hec (E : Type) where
  queue : List (Item E) := []
  lineEvents : ℤ := 0
  lineItems : ℤ := 0
  counters : HecCounters := {}
  authFailed : Bool := false
  stopping : Bool := false
  abort : Bool := false
  producers : List (Producer E) := []
  senders : List (Sender E) := []
  deriving DecidableEq

/-- What became of one post: a response, or a `RequestException`. -/
inductive PostOutcome where
  | response (status : ℕ)
  | exception
  deriving DecidableEq

inductive HecStep (E : Type) where
  | put (payload : Payload E)
  | putLines (lines : List Line)
  | produce (call : ℕ)
  | take (sender : ℕ)
  | absorb (sender : ℕ)
  | close (sender : ℕ)
  | leave (sender : ℕ)
  | post (sender : ℕ) (outcome : PostOutcome)
  | retry (sender : ℕ)
  | beginStop
  | flushTimeout
  deriving DecidableEq

variable {E : Type}

/-- Bytes of a batch under collection, a newline for each line. -/
def batchSize (lines : List Line) : ℕ := (lines.map fun l => l.length + 1).sum

def batchBody (lines : List Line) : Line := List.intercalate [10] lines

namespace Hec

/-- The client as it is created, before anything is put. -/
def start (senders : ℕ) : Hec E := { senders := List.replicate senders (.collecting []) }

def full (cfg : HecConfig E) (s : Hec E) : Prop :=
  0 < cfg.queueMax ∧ cfg.queueMax ≤ s.queue.length

instance (cfg : HecConfig E) (s : Hec E) : Decidable (s.full cfg) :=
  inferInstanceAs (Decidable (_ ∧ _))

def setProducer (s : Hec E) (i : ℕ) (p : Producer E) : Hec E :=
  { s with producers := s.producers.set i p }

def setSender (s : Hec E) (j : ℕ) (x : Sender E) : Hec E :=
  { s with senders := s.senders.set j x }

def enqueue (s : Hec E) (item : Item E) : Hec E := { s with queue := s.queue ++ [item] }

def count (s : Hec E) (f : HecCounters → HecCounters) : Hec E := { s with counters := f s.counters }

def releaseLines (s : Hec E) (n : ℕ) : Hec E :=
  { s with lineEvents := s.lineEvents - n, lineItems := s.lineItems - 1 }

/-- One step of `put` or `put_lines`. Both look at the stopping flag before every try. -/
def produce (cfg : HecConfig E) (i : ℕ) (s : Hec E) : Producer E → Hec E
  | .putting payload false =>
    if s.stopping then s.setProducer i .rejected else s.setProducer i (.putting payload true)
  | .putting payload true =>
    if s.full cfg then s.setProducer i (.putting payload false)
    else (s.enqueue (.single payload)).setProducer i (.returned 1)
  | .reserving lines =>
    if s.stopping then s.setProducer i .rejected
    else if s.lineEvents = 0 ∨ s.lineEvents + lines.length ≤ cfg.queueMax then
      { s with
        lineEvents := s.lineEvents + lines.length
        lineItems := s.lineItems + 1 }.setProducer i (.placing lines false)
    else s
  | .placing lines false =>
    if s.stopping then (s.releaseLines lines.length).setProducer i .rejected
    else s.setProducer i (.placing lines true)
  | .placing lines true =>
    if s.full cfg then s.setProducer i (.placing lines false)
    else (s.enqueue (.lines lines)).setProducer i (.returned lines.length)
  | .returned _ | .rejected => s

/-- `_queue.get` in `_collect_batch`: the first item of a batch is waited for, the next ones are
taken while the batch is small enough. -/
def take (cfg : HecConfig E) (j : ℕ) (s : Hec E) : Sender E → Hec E
  | .collecting lines =>
    if lines = [] ∨ (batchSize lines < cfg.batchBytes ∧ s.abort = false) then
      match s.queue with
      | [] => s
      | item :: rest => { s with queue := rest }.setSender j (.holding item lines)
    else s
  | _ => s

def absorb (cfg : HecConfig E) (j : ℕ) (s : Hec E) : Sender E → Hec E
  | .holding (.lines ls) lines =>
    (s.releaseLines ls.length).setSender j (.collecting (lines ++ ls))
  | .holding (.single (.bytes line)) lines => s.setSender j (.collecting (lines ++ [line]))
  | .holding (.single (.envelope e)) lines =>
    match cfg.serialise e with
    | .line line => s.setSender j (.collecting (lines ++ [line]))
    | .caught =>
      (s.count fun c => { c with droppedInvalid := c.droppedInvalid + 1 }).setSender j
        (.collecting lines)
    | .uncaught => s.setSender j (.crashed (lines.length + 1))
  | _ => s

/-- The end of the attempts: the batch is dropped. -/
def abandon (j : ℕ) (lines : List Line) (s : Hec E) : Hec E :=
  (s.count fun c => { c with dropped := c.dropped + lines.length }).setSender j (.collecting [])

/-- After a transient failure: wait before the next attempt, if there is one. -/
def transient (cfg : HecConfig E) (j : ℕ) (lines : List Line) (attempt : ℕ) (s : Hec E) : Hec E :=
  if attempt + 1 < cfg.maxAttempts then
    (s.count fun c => { c with retries := c.retries + 1 }).setSender j
      (.waiting lines (attempt + 1))
  else s.abandon j lines

/-- What a response means for the batch. -/
def respond (cfg : HecConfig E) (j : ℕ) (lines : List Line) (attempt status : ℕ) (s : Hec E) :
    Hec E :=
  if 200 ≤ status ∧ status < 300 then
    (s.count fun c =>
      { c with
        hec2xx := c.hec2xx + 1
        eventsTotal := c.eventsTotal + lines.length
        bytesTotal := c.bytesTotal + (batchBody lines).length }).setSender j (.collecting [])
  else if status = 400 then
    (s.count fun c =>
      { c with
        hec4xx := c.hec4xx + 1
        droppedInvalid := c.droppedInvalid + lines.length }).setSender j (.collecting [])
  else if status = 401 ∨ status = 403 then
    ({ s with authFailed := true }.count fun c =>
      { c with
        hec4xx := c.hec4xx + 1
        dropped := c.dropped + lines.length }).setSender j (.collecting [])
  else if 500 ≤ status then
    (s.count fun c => { c with hec5xx := c.hec5xx + 1 }).transient cfg j lines attempt
  else
    (s.count fun c =>
      { c with
        hec4xx := c.hec4xx + 1
        dropped := c.dropped + lines.length }).setSender j (.collecting [])

/-- One attempt of `_send_batch`. -/
def post (cfg : HecConfig E) (j : ℕ) (outcome : PostOutcome) (s : Hec E) : Sender E → Hec E
  | .sending lines attempt =>
    if cfg.maxAttempts ≤ attempt ∨ s.abort = true then s.abandon j lines
    else
      match outcome with
      | .response status => s.respond cfg j lines attempt status
      | .exception =>
        (s.count fun c => { c with hecTimeouts := c.hecTimeouts + 1 }).transient cfg j lines attempt
  | _ => s

/-- The wait before a retry ends, or is cut short by the abort. -/
def retry (j : ℕ) (s : Hec E) : Sender E → Hec E
  | .waiting lines attempt =>
    if s.abort then s.abandon j lines else s.setSender j (.sending lines attempt)
  | _ => s

/-- A collected batch is sent. -/
def close (j : ℕ) (s : Hec E) : Sender E → Hec E
  | .collecting lines => if lines = [] then s else s.setSender j (.sending lines 0)
  | _ => s

/-- A sender with nothing left to do ends. -/
def leave (j : ℕ) (s : Hec E) : Sender E → Hec E
  | .collecting [] => if s.queue = [] ∧ s.stopping = true then s.setSender j .ended else s
  | _ => s

/-- A thread that has returned or died. -/
def Sender.finished : Sender E → Bool
  | .ended | .crashed _ => true
  | _ => false

def withSender (s : Hec E) (j : ℕ) (f : Sender E → Hec E) : Hec E := (s.senders[j]?).elim s f

def step (cfg : HecConfig E) (e : HecStep E) (s : Hec E) : Hec E :=
  match e with
  | .put payload => { s with producers := s.producers ++ [.putting payload false] }
  | .putLines [] => { s with producers := s.producers ++ [.returned 0] }
  | .putLines (l :: ls) => { s with producers := s.producers ++ [.reserving (l :: ls)] }
  | .produce i => (s.producers[i]?).elim s (s.produce cfg i)
  | .take j => s.withSender j (s.take cfg j)
  | .absorb j => s.withSender j (s.absorb cfg j)
  | .close j => s.withSender j (s.close j)
  | .leave j => s.withSender j (s.leave j)
  | .post j outcome => s.withSender j (s.post cfg j outcome)
  | .retry j => s.withSender j (s.retry j)
  | .beginStop => { s with stopping := true }
  -- `flush_and_stop` has waited its time: unless all is done, the senders are told to give up
  | .flushTimeout =>
    if s.queue = [] ∧ s.senders.all Sender.finished = true then s else { s with abort := true }

end Hec

end Stoker
