import Stoker.Worker.Hec

/-!
# Every event is counted once

An event accepted by the client is in one place at every instant: in the queue, with a sender, or in
one of the counters. The two line counters are reservations: a batch of lines is in them from the
moment `put_lines` has found space until a sender gives the space back, so they run ahead of the
queue while the batch waits for a slot, and behind it while a sender has just taken the batch.
-/

open List

namespace Stoker

open Transition

variable {E : Type}

/-! ### Sums over the threads -/

/-- What the members of a list come to together. -/
def total {α : Type} (f : α → ℕ) (l : List α) : ℕ := (l.map f).sum

variable {α : Type}

@[simp] lemma total_nil (f : α → ℕ) : total f [] = 0 := rfl

@[simp] lemma total_cons (f : α → ℕ) (a : α) (l : List α) :
    total f (a :: l) = f a + total f l := by simp [total]

@[simp] lemma total_append (f : α → ℕ) (l m : List α) :
    total f (l ++ m) = total f l + total f m := by simp [total]

/-- One member is replaced. -/
lemma total_set (f : α → ℕ) {l : List α} {i : ℕ} {x : α} (y : α) (h : l[i]? = some x) :
    total f (l.set i y) + f x = total f l + f y := by
  induction l generalizing i with
  | nil => simp at h
  | cons a l ih =>
    cases i with
    | zero =>
      simp only [getElem?_cons_zero, Option.some.injEq] at h
      subst h
      simp only [set_cons_zero, total_cons]
      omega
    | succ i =>
      have hl := ih (i := i) (by simpa using h)
      simp only [set_cons_succ, total_cons]
      omega

@[simp] lemma total_replicate (f : α → ℕ) (a : α) (n : ℕ) :
    total f (replicate n a) = n * f a := by simp [total]

/-! ### Where an event is -/

def Item.events : Item E → ℕ
  | .single _ => 1
  | .lines ls => ls.length

/-- Those of them that came as a batch of lines. -/
def Item.lineEvents : Item E → ℕ
  | .single _ => 0
  | .lines ls => ls.length

def Item.lineItems : Item E → ℕ
  | .single _ => 0
  | .lines _ => 1

def Producer.accepted : Producer E → ℕ
  | .returned n => n
  | .putting .. | .reserving _ | .placing .. | .rejected => 0

/-- Lines a call has reserved space for and not yet queued. -/
def Producer.lineEvents : Producer E → ℕ
  | .placing ls _ => ls.length
  | .putting .. | .reserving _ | .returned _ | .rejected => 0

def Producer.lineItems : Producer E → ℕ
  | .placing .. => 1
  | .putting .. | .reserving _ | .returned _ | .rejected => 0

namespace Sender

def inHand : Sender E → ℕ
  | .collecting ls | .sending ls _ | .waiting ls _ => ls.length
  | .holding item ls => item.events + ls.length
  | .ended | .crashed _ => 0

/-- Events that went down with a sender. -/
def lost : Sender E → ℕ
  | .crashed n => n
  | .collecting _ | .holding .. | .sending .. | .waiting .. | .ended => 0

/-- Lines whose space a sender has not given back yet. -/
def lineEvents : Sender E → ℕ
  | .holding item _ => item.lineEvents
  | .collecting _ | .sending .. | .waiting .. | .ended | .crashed _ => 0

def lineItems : Sender E → ℕ
  | .holding item _ => item.lineItems
  | .collecting _ | .sending .. | .waiting .. | .ended | .crashed _ => 0

/-- Whether the item a sender holds is serialised, or fails with an error the sender catches. -/
def serialises (cfg : HecConfig E) : Sender E → Bool
  | .holding (.single (.envelope e)) _ => cfg.serialise e ≠ .uncaught
  | _ => true

end Sender

/-- Events whose fate is counted. -/
def HecCounters.settled (c : HecCounters) : ℕ := c.eventsTotal + c.dropped + c.droppedInvalid

namespace Hec

def accepted (s : Hec E) : ℕ := total Producer.accepted s.producers

def queued (s : Hec E) : ℕ := total Item.events s.queue

def inBatches (s : Hec E) : ℕ := total Sender.inHand s.senders

def lost (s : Hec E) : ℕ := total Sender.lost s.senders

/-- Lines, and batches of them, that are in the queue. -/
def queuedLines (s : Hec E) : ℕ := total Item.lineEvents s.queue

def queuedBatches (s : Hec E) : ℕ := total Item.lineItems s.queue

/-- Lines and batches on their way into the queue, their space reserved. -/
def placingLines (s : Hec E) : ℕ := total Producer.lineEvents s.producers

def placingBatches (s : Hec E) : ℕ := total Producer.lineItems s.producers

/-- Lines and batches just taken out of it, their space not given back. -/
def takenLines (s : Hec E) : ℕ := total Sender.lineEvents s.senders

def takenBatches (s : Hec E) : ℕ := total Sender.lineItems s.senders

/-- The books of the client, with what crashed senders lost. -/
structure Balanced (s : Hec E) : Prop where
  events : s.accepted = s.counters.settled + s.queued + s.inBatches + s.lost
  lineEvents : s.lineEvents = s.queuedLines + s.placingLines + s.takenLines
  lineItems : s.lineItems = s.queuedBatches + s.placingBatches + s.takenBatches

/-! ### What one thread does to the books -/

lemma balanced_start (n : ℕ) : (Hec.start n : Hec E).Balanced where
  events := by
    simp [accepted, queued, inBatches, Hec.lost, HecCounters.settled, start,
      Sender.inHand, Sender.lost]
  lineEvents := by
    simp [queuedLines, placingLines, takenLines, start, Sender.lineEvents]
  lineItems := by
    simp [queuedBatches, placingBatches, takenBatches, start,
      Sender.lineItems]

variable {cfg : HecConfig E} {s s' : Hec E} {j : ℕ} {x y : Sender E} {p : Producer E}
  {lines : List Line}

/-- A sender goes on: what it no longer has is counted or queued, or its space is given back. If
`ok`, it has lost nothing. -/
structure Advances (ok : Prop) (s s' : Hec E) (j : ℕ) (x y : Sender E) : Prop where
  senders : s'.senders = s.senders.set j y
  producers : s'.producers = s.producers
  events : s'.counters.settled + s'.queued + (y.inHand + y.lost) =
    s.counters.settled + s.queued + (x.inHand + x.lost)
  lineEvents : s'.lineEvents + s.queuedLines + x.lineEvents = s.lineEvents + s'.queuedLines +
    y.lineEvents
  lineItems : s'.lineItems + s.queuedBatches + x.lineItems = s.lineItems + s'.queuedBatches +
    y.lineItems
  lost : ok → y.lost = 0

lemma Balanced.advance {ok : Prop} (h : s.Balanced) (hj : s.senders[j]? = some x)
    (ha : Advances ok s s' j x y) : s'.Balanced where
  events := by
    have hin := total_set Sender.inHand y hj
    have hlost := total_set Sender.lost y hj
    have hev := h.events
    have hcounted := ha.events
    simp only [accepted, inBatches, Hec.lost, ha.senders, ha.producers] at hev ⊢
    omega
  lineEvents := by
    have htaken := total_set Sender.lineEvents y hj
    have hev := h.lineEvents
    have hlines := ha.lineEvents
    simp only [placingLines, takenLines, ha.senders, ha.producers] at hev ⊢
    omega
  lineItems := by
    have htaken := total_set Sender.lineItems y hj
    have hev := h.lineItems
    have hitems := ha.lineItems
    simp only [placingBatches, takenBatches, ha.senders, ha.producers] at hev ⊢
    omega

variable {i : ℕ} {q : Producer E} {ok : Sender E → Prop} {f : Sender E → Hec E}

lemma Balanced.producer (h : s.Balanced) (hi : s.producers[i]? = some p)
    (hset : s'.producers = s.producers.set i q) (hsend : s'.senders = s.senders)
    (hcount : s'.counters = s.counters) (hacc : q.accepted + s.queued = p.accepted + s'.queued)
    (hlines : s'.lineEvents + (s.queuedLines + p.lineEvents) = s.lineEvents +
      (s'.queuedLines + q.lineEvents))
    (hitems : s'.lineItems + (s.queuedBatches + p.lineItems) = s.lineItems +
      (s'.queuedBatches + q.lineItems)) :
    s'.Balanced where
  events := by
    have htotal := total_set Producer.accepted q hi
    have hev := h.events
    simp only [accepted, inBatches, Hec.lost, hset, hsend, hcount] at hev ⊢
    omega
  lineEvents := by
    have htotal := total_set Producer.lineEvents q hi
    have hev := h.lineEvents
    simp only [placingLines, takenLines, hset, hsend] at hev ⊢
    omega
  lineItems := by
    have htotal := total_set Producer.lineItems q hi
    have hev := h.lineItems
    simp only [placingBatches, takenBatches, hset, hsend] at hev ⊢
    omega

/-- A call reserves or gives back space. -/
lemma Balanced.produced (h : s.Balanced) (dl di : ℤ) (hi : s.producers[i]? = some p)
    (hacc : q.accepted = p.accepted) (hlines : (q.lineEvents : ℤ) = p.lineEvents + dl)
    (hitems : (q.lineItems : ℤ) = p.lineItems + di) :
    ({ s with lineEvents := s.lineEvents + dl, lineItems := s.lineItems + di }.setProducer i
      q).Balanced := by
  refine h.producer hi rfl rfl rfl ?_ ?_ ?_
  · simp [hacc, setProducer, queued]
  · simp only [setProducer, queuedLines, hlines]
    omega
  · simp only [setProducer, queuedBatches, hitems]
    omega

/-- The same without a change of space. -/
lemma Balanced.stay (h : s.Balanced) (hi : s.producers[i]? = some p)
    (hacc : q.accepted = p.accepted) (hlines : q.lineEvents = p.lineEvents)
    (hitems : q.lineItems = p.lineItems) : (s.setProducer i q).Balanced := by
  have hp := h.produced 0 0 hi hacc (by simp [hlines]) (by simp [hitems])
  simpa only [add_zero] using hp

lemma Balanced.enqueue (h : s.Balanced) {item : Item E} (hi : s.producers[i]? = some p)
    (hacc : p.accepted = 0) (hlines : p.lineEvents = item.lineEvents)
    (hitems : p.lineItems = item.lineItems) :
    ((s.enqueue item).setProducer i (.returned item.events)).Balanced := by
  refine h.producer hi rfl rfl rfl ?_ ?_ ?_
  · change item.events + s.queued = p.accepted + total Item.events (s.queue ++ [item])
    simp [hacc, queued, add_comm]
  · change _ = s.lineEvents + (total Item.lineEvents (s.queue ++ [item]) + (0 : ℕ))
    simp [hlines, queuedLines, setProducer, Hec.enqueue]
  · change _ = s.lineItems + (total Item.lineItems (s.queue ++ [item]) + (0 : ℕ))
    simp [hitems, queuedBatches, setProducer, Hec.enqueue]

/-! ### Every step keeps the books -/

lemma Balanced.produce (h : s.Balanced) (hi : s.producers[i]? = some p) :
    (s.produce cfg i p).Balanced := by
  rcases p with ⟨payload, _ | _⟩ | lines | ⟨lines, _ | _⟩ | n | _ <;> simp only [Hec.produce]
  · split <;> exact h.stay hi rfl rfl rfl
  · split
    · exact h.stay hi rfl rfl rfl
    · exact h.enqueue hi rfl rfl rfl
  · split
    · exact h.stay hi rfl rfl rfl
    · split
      · exact h.produced lines.length 1 hi rfl (by simp [Producer.lineEvents])
          (by simp [Producer.lineItems])
      · exact h
  · split
    · -- the client stopped while the batch was waiting for a slot
      have hback := h.produced (q := .rejected) (-lines.length) (-1) hi rfl
        (by simp [Producer.lineEvents]) (by simp [Producer.lineItems])
      simpa only [releaseLines, ← sub_eq_add_neg] using hback
    · exact h.stay hi rfl rfl rfl
  · split
    · exact h.stay hi rfl rfl rfl
    · exact h.enqueue hi rfl rfl rfl
  · exact h
  · exact h

/-- A step of a sender does nothing, or the sender goes on. -/
def Steps (ok : Prop) (s : Hec E) (j : ℕ) (x : Sender E) (s' : Hec E) : Prop :=
  s' = s ∨ ∃ y, Advances ok s s' j x y

section

variable {ok : Prop} {auth : Bool} {f : HecCounters → HecCounters}

/-- A sender passes events from its batch to the counters, and takes no item meanwhile. -/
lemma Steps.settle
    (hf : (f s.counters).settled + (y.inHand + y.lost) = s.counters.settled + (x.inHand + x.lost))
    (hlines : y.lineEvents = x.lineEvents) (hitems : y.lineItems = x.lineItems)
    (hlost : ok → y.lost = 0) :
    Steps ok s j x (({ s with authFailed := auth }.count f).setSender j y) := by
  refine .inr ⟨y, rfl, rfl, ?_, ?_, ?_, hlost⟩
  · simp only [setSender, count, queued]
    omega
  · simp [setSender, count, queuedLines, hlines]
  · simp [setSender, count, queuedBatches, hitems]

lemma Steps.move (hin : y.inHand + y.lost = x.inHand + x.lost)
    (hlines : y.lineEvents = x.lineEvents)
    (hitems : y.lineItems = x.lineItems) (hlost : ok → y.lost = 0) :
    Steps ok s j x (s.setSender j y) :=
  settle (f := id) (by rw [hin]; rfl) hlines hitems hlost

lemma settled_dropped (n : ℕ) (c : HecCounters) :
    ({ c with dropped := c.dropped + n } : HecCounters).settled = c.settled + n := by
  simp only [HecCounters.settled]
  omega

/-- A sender is done with its batch, and the batch is counted. -/
lemma Steps.resolve (hin : x.inHand + x.lost = lines.length) (hlines : x.lineEvents = 0)
    (hitems : x.lineItems = 0) (hf : (f s.counters).settled = s.counters.settled + lines.length) :
    Steps ok s j x (({ s with authFailed := auth }.count f).setSender j (.collecting [])) :=
  settle (by rw [hf, hin]; rfl) hlines.symm hitems.symm fun _ => rfl

lemma Steps.abandon (hin : x.inHand + x.lost = lines.length) (hlines : x.lineEvents = 0)
    (hitems : x.lineItems = 0) : Steps ok s j x (s.abandon j lines) :=
  resolve hin hlines hitems (settled_dropped lines.length _)

end

section

variable {attempt : ℕ}

lemma steps_transient {f : HecCounters → HecCounters}
    (hf : (f s.counters).settled = s.counters.settled) :
    Steps True s j (.sending lines attempt) ((s.count f).transient cfg j lines attempt) := by
  unfold transient
  split
  · exact .settle (f := fun c => { f c with retries := (f c).retries + 1 })
      (by rw [← hf]; rfl) rfl rfl
      fun _ => rfl
  · refine .resolve (f := fun c => { f c with dropped := (f c).dropped + lines.length }) rfl
      rfl rfl ?_
    rw [settled_dropped, hf]

lemma steps_respond (status : ℕ) :
    Steps True s j (.sending lines attempt) (s.respond cfg j lines attempt status) := by
  unfold respond
  split_ifs
  · refine .resolve rfl rfl rfl ?_
    simp only [HecCounters.settled]
    omega
  · refine .resolve rfl rfl rfl ?_
    simp only [HecCounters.settled]
    omega
  · exact .resolve rfl rfl rfl (settled_dropped lines.length _)
  · exact steps_transient rfl
  · exact .resolve rfl rfl rfl (settled_dropped lines.length _)

end

lemma steps_post (outcome : PostOutcome) : Steps True s j x (s.post cfg j outcome x) := by
  cases x with
  | sending lines attempt =>
    simp only [post]
    split
    · exact .abandon rfl rfl rfl
    · cases outcome with
      | response status => exact steps_respond status
      | exception => exact steps_transient rfl
  | _ => exact .inl rfl

lemma steps_retry : Steps True s j x (s.retry j x) := by
  cases x with
  | waiting lines attempt =>
    simp only [retry]
    split
    · exact .abandon rfl rfl rfl
    · exact .move rfl rfl rfl fun _ => rfl
  | _ => exact .inl rfl

lemma steps_close : Steps True s j x (s.close j x) := by
  cases x with
  | collecting lines =>
    simp only [close]
    split
    · exact .inl rfl
    · exact .move rfl rfl rfl fun _ => rfl
  | _ => exact .inl rfl

lemma steps_leave : Steps True s j x (s.leave j x) := by
  unfold leave
  split
  · split
    · exact .move rfl rfl rfl fun _ => rfl
    · exact .inl rfl
  · exact .inl rfl

lemma steps_take : Steps True s j x (s.take cfg j x) := by
  unfold take
  split
  · split
    · split
      · exact .inl rfl
      · next item rest hq =>
        refine .inr ⟨_, rfl, rfl, ?_, ?_, ?_, fun _ => rfl⟩
        · simp only [setSender, queued, hq, total_cons, Sender.inHand, Sender.lost]
          omega
        · simp only [setSender, queuedLines, hq, total_cons, Sender.lineEvents]
          omega
        · simp only [setSender, queuedBatches, hq, total_cons, Sender.lineItems]
          omega
    · exact .inl rfl
  · exact .inl rfl

lemma steps_absorb : Steps (x.serialises cfg = true) s j x (s.absorb cfg j x) := by
  unfold absorb
  split
  · -- the space of the lines is given back
    refine .inr ⟨_, rfl, rfl, ?_, ?_, ?_, fun _ => rfl⟩
    · simp [setSender, releaseLines, queued, Sender.inHand, Sender.lost, Item.events, add_comm]
    · simp only [setSender, releaseLines, queuedLines, Sender.lineEvents, Item.lineEvents]
      omega
    · simp only [setSender, releaseLines, queuedBatches, Sender.lineItems, Item.lineItems]
      omega
  · exact .move (by simp [Sender.inHand, Sender.lost, Item.events, add_comm]) rfl rfl fun _ => rfl
  · split
    · exact .move (by simp [Sender.inHand, Sender.lost, Item.events, add_comm]) rfl rfl fun _ => rfl
    · refine .settle ?_ rfl rfl fun _ => rfl
      simp only [HecCounters.settled, Sender.inHand, Sender.lost, Item.events]
      omega
    · next hun =>
      refine .move (by simp [Sender.inHand, Sender.lost, Item.events, add_comm]) rfl rfl
        fun hx => ?_
      simp [Sender.serialises, hun] at hx
  · exact .inl rfl

lemma Balanced.withSender (h : s.Balanced) (hf : ∀ x, Steps (ok x) s j x (f x)) :
    (s.withSender j f).Balanced := by
  unfold Hec.withSender
  cases hj : s.senders[j]? with
  | none => exact h
  | some x =>
    obtain heq | ⟨y, ha⟩ := hf x
    · exact heq.symm ▸ h
    · exact h.advance hj ha

/-- A new call has accepted and reserved nothing. -/
lemma Balanced.call (h : s.Balanced) (hacc : p.accepted = 0)
    (hlines : p.lineEvents = 0) (hitems : p.lineItems = 0) :
    ({ s with producers := s.producers ++ [p] } : Hec E).Balanced where
  events := by
    have hev := h.events
    simp only [accepted, queued, inBatches, Hec.lost, total_append, total_cons, total_nil, hacc]
      at hev ⊢
    omega
  lineEvents := by
    have hev := h.lineEvents
    simp only [queuedLines, placingLines, takenLines, total_append, total_cons, total_nil,
      hlines] at hev ⊢
    omega
  lineItems := by
    have hev := h.lineItems
    simp only [queuedBatches, placingBatches, takenBatches, total_append, total_cons, total_nil,
      hitems] at hev ⊢
    omega

lemma Balanced.step (h : s.Balanced) (e : HecStep E) : (Hec.step cfg e s).Balanced := by
  cases e with
  | put payload => exact h.call rfl rfl rfl
  | putLines lines => cases lines <;> exact h.call rfl rfl rfl
  | produce i =>
    simp only [Hec.step]
    cases hi : s.producers[i]? with
    | none => exact h
    | some p => exact h.produce hi
  | take j => exact h.withSender fun _ => steps_take
  | absorb j => exact h.withSender fun _ => steps_absorb
  | close j => exact h.withSender fun _ => steps_close
  | leave j => exact h.withSender fun _ => steps_leave
  | post j outcome => exact h.withSender fun _ => steps_post outcome
  | retry j => exact h.withSender fun _ => steps_retry
  | beginStop => exact ⟨h.events, h.lineEvents, h.lineItems⟩
  | flushTimeout =>
    simp only [Hec.step]
    split
    · exact h
    · exact ⟨h.events, h.lineEvents, h.lineItems⟩

/-! ### Senders that lose nothing -/

/-- No serialisation ends in an error that the sender does not catch. -/
def Catches (cfg : HecConfig E) (e : HecStep E) (s : Hec E) : Prop :=
  match e with
  | .absorb j => ∀ x ∈ s.senders[j]?, x.serialises cfg = true
  | _ => True

instance (e : HecStep E) (s : Hec E) : Decidable (Catches cfg e s) :=
  match e with
  | .absorb j => inferInstanceAs (Decidable (∀ x ∈ s.senders[j]?, _))
  | .put _ | .putLines _ | .produce _ | .take _ | .close _ | .leave _ | .post _ _ | .retry _
  | .beginStop | .flushTimeout => isTrue trivial

def Sending (s : Hec E) : Prop := ∀ x ∈ s.senders, x.lost = 0

lemma Sending.lost_eq (h : s.Sending) : s.lost = 0 := by
  rw [Hec.lost, total, sum_eq_zero_iff]
  intro n hn
  obtain ⟨x, hx, rfl⟩ := mem_map.mp hn
  exact h x hx

lemma produce_senders (i : ℕ) (p : Producer E) : (s.produce cfg i p).senders = s.senders := by
  rcases p with ⟨payload, _ | _⟩ | lines | ⟨lines, _ | _⟩ | n | _ <;> simp only [Hec.produce] <;>
    split_ifs <;> rfl

lemma Sending.withSender (h : s.Sending) (hf : ∀ x, Steps (ok x) s j x (f x))
    (hok : ∀ x ∈ s.senders[j]?, ok x) : (s.withSender j f).Sending := by
  unfold Hec.withSender
  cases hj : s.senders[j]? with
  | none => exact h
  | some x =>
    obtain heq | ⟨y, ha⟩ := hf x
    · exact heq.symm ▸ h
    · intro z hz
      rw [Option.elim_some, ha.senders] at hz
      rcases mem_or_eq_of_mem_set hz with hmem | rfl
      · exact h z hmem
      · exact ha.lost (hok x hj)

lemma Sending.step (h : s.Sending) {e : HecStep E} (hg : Catches cfg e s) :
    (Hec.step cfg e s).Sending := by
  cases e with
  | put payload => exact h
  | putLines lines => cases lines <;> exact h
  | produce i =>
    simp only [Hec.step]
    cases s.producers[i]? with
    | none => exact h
    | some p =>
      intro x hx
      exact h x (produce_senders i p ▸ hx)
  | take j => exact h.withSender (fun _ => steps_take) fun _ _ => trivial
  | absorb j => exact h.withSender (fun _ => steps_absorb) hg
  | close j => exact h.withSender (fun _ => steps_close) fun _ _ => trivial
  | leave j => exact h.withSender (fun _ => steps_leave) fun _ _ => trivial
  | post j outcome => exact h.withSender (fun _ => steps_post outcome) fun _ _ => trivial
  | retry j => exact h.withSender (fun _ => steps_retry) fun _ _ => trivial
  | beginStop => exact h
  | flushTimeout =>
    simp only [Hec.step]
    split
    · exact h
    · exact h

end Hec

/-! ### Every interleaving -/

/-- Every accepted event is counted, queued or in a batch, and the line counters are the lines and
batches in the queue, on their way into it with their space reserved, or just taken out of it. -/
theorem hec_accounting {cfg : HecConfig E} {senders : ℕ} {steps : List (HecStep E)} {s : Hec E}
    (h : Runs (Hec.step cfg) (Hec.Catches cfg) (Hec.start senders) steps s) :
    s.accepted = s.counters.eventsTotal + s.counters.dropped + s.counters.droppedInvalid +
        s.queued + s.inBatches ∧
      s.lineEvents = s.queuedLines + s.placingLines + s.takenLines ∧
      s.lineItems = s.queuedBatches + s.placingBatches + s.takenBatches := by
  have hbal : s.Balanced :=
    h.invariant (I := Hec.Balanced) (fun e s _ hs => hs.step e) (Hec.balanced_start senders)
  have hlost : s.lost = 0 := by
    have hstart : (Hec.start senders : Hec E).Sending := by
      intro x hx
      rw [eq_of_mem_replicate hx]
      rfl
    exact (h.invariant (I := Hec.Sending) (fun e s hg hs => hs.step hg) hstart).lost_eq
  refine ⟨?_, hbal.lineEvents, hbal.lineItems⟩
  have hev := hbal.events
  rw [hlost, add_zero, HecCounters.settled] at hev
  exact hev

/-! ### A batch that waits for a slot -/

/-- Two kinds of envelopes, one of which cannot be serialised, and a queue of two slots. -/
def smallQueue : HecConfig Bool where
  queueMax := 2
  serialise e := if e then .line [123, 125] else .caught

/-- An envelope, one that cannot be serialised and a batch are put; the first post fails and is
tried again, the client is stopped, and everything is accounted for. -/
theorem hec_accounting_drained :
    let s := exec (Hec.step smallQueue) (Hec.start 1) [.put (.envelope true), .produce 0,
        .produce 0,
      .put (.envelope false), .produce 1, .produce 1, .take 0, .absorb 0, .take 0, .absorb 0,
      .putLines [[1], [2]], .produce 2, .produce 2, .produce 2, .close 0, .post 0 (.response 503),
      .beginStop, .retry 0, .post 0 (.response 200)]
    s.accepted = s.counters.eventsTotal + s.counters.dropped + s.counters.droppedInvalid +
        s.queued + s.inBatches ∧
      s.lineEvents = s.queuedLines + s.placingLines + s.takenLines ∧
      s.lineItems = s.queuedBatches + s.placingBatches + s.takenBatches :=
  hec_accounting (Runs.of_check (G := Hec.Catches smallQueue) (by decide +kernel))

/-- With the queue full of single envelopes, a batch that has its space reserved is in the line
counters and not in the queue. -/
theorem hec_reserved_not_queued :
    let steps : List (HecStep Bool) := [.put (.envelope true), .produce 0, .produce 0,
      .put (.envelope true), .produce 1, .produce 1, .putLines [[1], [2]], .produce 2, .produce 2]
    let s := exec (Hec.step smallQueue) (Hec.start 1) steps
    Hec.full smallQueue s ∧ s.lineEvents = 2 ∧ s.queuedLines = 0 ∧ s.lineItems = 1 ∧
      s.queuedBatches = 0 := by
  decide +kernel

end Stoker
