import WebhookInbox.Worker.Options

/-!
# The HTTP client of the deliveries

`Program` registers the client `delivery` with a retry of its own: one `SendAsync` puts the
request on the wire again, at most `InlineRetryCount` times, as long as the reply is one that
`ShouldHandle` takes and the wait between two transmissions is not cut short. The processor
knows nothing of it. `sendAsync` is that call together with the read of the body, and
`sendAsync_sent` says all that later results use of it.

An `Exchange` is what came of one try: the replies to its transmissions and the outcome the try
block meets. It may have no transmission at all, since a `Url` that is no absolute URI makes the
request throw before it is sent.
-/

namespace WebhookInbox.Worker

/-- What the try block meets: a response with its body as text, or an exception. -/
inductive HttpOutcome where
  | response (statusCode : Nat) (body : Utf16)
  | exception (typeName : Text)
  deriving DecidableEq, Repr

/-- What came of one transmission of a request. -/
inductive Reply where
  /-- A response whose body can be read as text. -/
  | result (statusCode : Nat) (body : Utf16)
  /-- A response whose body cannot be read: it breaks off, or names an unknown charset. -/
  | unreadable (statusCode : Nat) (typeName : Text)
  | exception (typeName : Text)
  deriving DecidableEq, Repr

/-- `SendAsync` gives the reply back, and `ReadAsStringAsync` reads it. -/
def Reply.outcome : Reply → HttpOutcome
  | .result statusCode body => .response statusCode body
  | .unreadable _ typeName => .exception typeName
  | .exception typeName => .exception typeName

def isRetriedStatus (statusCode : Nat) : Bool :=
  decide (500 ≤ statusCode) || statusCode == 408 || statusCode == 429

/-- `ShouldHandle` of the inline retry. -/
def shouldHandle : Reply → Bool
  | .result statusCode _ => isRetriedStatus statusCode
  | .unreadable statusCode _ => isRetriedStatus statusCode
  | .exception typeName =>
    typeName == "HttpRequestException".toList || typeName == "TaskCanceledException".toList

/-- How the wait before the next transmission ends. -/
inductive Pause where
  | elapsed
  /-- The token is cancelled before the wait, and the reply is given back as it is. -/
  | cancelled
  | threw (typeName : Text)

/-- What the network and the token do to one `SendAsync`. -/
structure Wire where
  reply : Nat → Reply
  pause : Nat → Pause

/-- The transmissions from the `k`-th on, when so many retries are left. -/
def sendAsync (wire : Wire) : Nat → Nat → List Reply × HttpOutcome
  | 0, k => ([wire.reply k], (wire.reply k).outcome)
  | retries + 1, k =>
    if shouldHandle (wire.reply k) then
      match wire.pause k with
      | .elapsed =>
        let (replies, outcome) := sendAsync wire retries (k + 1)
        (wire.reply k :: replies, outcome)
      | .cancelled => ([wire.reply k], (wire.reply k).outcome)
      | .threw typeName => ([wire.reply k], .exception typeName)
    else ([wire.reply k], (wire.reply k).outcome)

/-- What is sent again was handled, and the last reply is what the call comes to, unless the
wait after it throws. -/
structure Sent (retries : Nat) (replies : List Reply) (outcome : HttpOutcome) : Prop where
  count : replies.length ≤ retries + 1
  handled : ∀ reply ∈ replies.dropLast, shouldHandle reply = true
  ended : ∃ last, replies.getLast? = some last ∧
    (outcome = last.outcome ∨ shouldHandle last = true ∧ ∃ typeName, outcome = .exception typeName)

theorem sent_singleton (retries : Nat) (reply : Reply) : Sent retries [reply] reply.outcome :=
  ⟨by simp, fun _ h => (by cases h), reply, rfl, Or.inl rfl⟩

theorem Sent.cons {retries : Nat} {replies : List Reply} {outcome : HttpOutcome}
    (h : Sent retries replies outcome) {reply : Reply} (hhandled : shouldHandle reply = true) :
    Sent (retries + 1) (reply :: replies) outcome := by
  obtain ⟨hcount, hall, last, hlast, hended⟩ := h
  have hne : replies ≠ [] := by
    rintro rfl
    cases hlast
  refine ⟨by simpa using hcount, fun r hr => ?_, last, ?_, hended⟩
  · rw [List.dropLast_cons_of_ne_nil hne] at hr
    rcases List.mem_cons.mp hr with rfl | hr
    · exact hhandled
    · exact hall r hr
  · rw [List.getLast?_cons, hlast]
    rfl

theorem sendAsync_sent (wire : Wire) (retries k : Nat) :
    Sent retries (sendAsync wire retries k).1 (sendAsync wire retries k).2 := by
  induction retries generalizing k with
  | zero => exact sent_singleton 0 _
  | succ retries ih =>
    rw [sendAsync]
    split
    · rename_i hhandled
      cases wire.pause k with
      | elapsed => exact (ih (k + 1)).cons hhandled
      | cancelled => exact sent_singleton _ _
      | threw typeName =>
        exact ⟨by simp, fun _ h => (by cases h), _, rfl, Or.inr ⟨hhandled, typeName, rfl⟩⟩
    · exact sent_singleton _ _

theorem Sent.read {retries : Nat} {replies : List Reply} {outcome : HttpOutcome}
    (h : Sent retries replies outcome) {statusCode : Nat} {body : Utf16}
    (hread : outcome = .response statusCode body) :
    replies.getLast? = some (.result statusCode body) := by
  obtain ⟨-, -, last, hlast, heq | ⟨-, typeName, heq⟩⟩ := h
  · rw [hread] at heq
    cases last with
    | result => cases heq; exact hlast
    | unreadable => cases heq
    | exception => cases heq
  · rw [hread] at heq
    cases heq

/-- What came of one try. -/
@[ext]
structure Exchange where
  replies : List Reply
  outcome : HttpOutcome
  /-- A response that is read is the reply to the last transmission. -/
  read : ∀ statusCode body, outcome = .response statusCode body →
    replies.getLast? = some (.result statusCode body)

/-- An exchange with one transmission. -/
def Reply.exchange (reply : Reply) : Exchange where
  replies := [reply]
  outcome := reply.outcome
  read statusCode body h := by
    cases reply with
    | result => cases h; rfl
    | unreadable => cases h
    | exception => cases h

/-- One `SendAsync` of the client as it is configured. -/
def Exchange.ofWire (opts : DeliveryOptions) (wire : Wire) : Exchange where
  replies := (sendAsync wire opts.inlineRetryCount.toNat 0).1
  outcome := (sendAsync wire opts.inlineRetryCount.toNat 0).2
  read _ _ h := (sendAsync_sent wire opts.inlineRetryCount.toNat 0).read h

/-- The request is not sent, or the client sends it as it is configured. -/
def Exchange.Inline (opts : DeliveryOptions) (x : Exchange) : Prop :=
  x.replies = [] ∨ ∃ wire, x = .ofWire opts wire

section Inline

variable {opts : DeliveryOptions} {x : Exchange}

theorem Exchange.Inline.sent (h : x.Inline opts) (hne : x.replies ≠ []) :
    Sent opts.inlineRetryCount.toNat x.replies x.outcome := by
  obtain ⟨wire, rfl⟩ := h.resolve_left hne
  exact sendAsync_sent wire _ 0

/-- A request is sent at most once and once more for each inline retry. -/
theorem Exchange.Inline.length_le (h : x.Inline opts) :
    x.replies.length ≤ opts.inlineRetryCount.toNat + 1 := by
  by_cases hne : x.replies = []
  · rw [hne]
    exact Nat.zero_le _
  · exact (h.sent hne).count

/-- A request is sent again only after a reply that the inline retry handles. -/
theorem Exchange.Inline.handled (h : x.Inline opts) :
    ∀ reply ∈ x.replies.dropLast, shouldHandle reply = true := by
  by_cases hne : x.replies = []
  · rw [hne]
    exact fun _ hmem => by cases hmem
  · exact (h.sent hne).handled

end Inline

end WebhookInbox.Worker
