import Motus.Foundation.Exec

set_option autoImplicit false

/-!
# The transport seam (`include/motus/transport/ITransport.hpp`)

The vocabulary every backend shares: dispositions, routing, the options a
destination is declared with, and the forensic destination that goes with it.
A `std::string` that names something is a `String`; a message body is the list of
its bytes.
-/

namespace Motus.Transport

/-- A logical destination name. -/
abbrev Topic := String

/-- A message body. -/
abbrev Bytes := List UInt8

/-- What a method can throw, by the class of the exception and its `what()`. -/
inductive Exn where
  | runtimeError (what : String)
  | logicError (what : String)
  | invalidArgument (what : String)
  /-- Whatever a message handler lets escape. -/
  | handler (what : String)
  /-- Not an exception: one left a destructor and `std::terminate` was called. -/
  | terminate
  /-- Not an exception: a recursion of the model ran out of fuel. -/
  | diverged
  deriving DecidableEq, Repr

/-- What `catch (const std::exception &)` catches. -/
def isStdException : Exn → Bool
  | .runtimeError _ | .logicError _ | .invalidArgument _ => true
  | .handler _ | .terminate | .diverged => false

/-- What should happen to a received message. -/
inductive Disposition where
  | ack
  | reject
  | requeue
  | deferred
  deriving DecidableEq, Repr

/-- How a routing group decides which destinations a message reaches. -/
inductive Routing where
  | exact
  | pattern
  | broadcast
  deriving DecidableEq, Repr

/-- Which end of a bounded destination is sacrificed when it reaches `maxLength`. -/
inductive OverflowPolicy where
  | dropHead
  | rejectPublish
  | rejectPublishDlx
  deriving DecidableEq, Repr

/-- The value of the argument `x-overflow`. -/
def overflowPolicyName : OverflowPolicy → String
  | .dropHead => "drop-head"
  | .rejectPublish => "reject-publish"
  | .rejectPublishDlx => "reject-publish-dlx"

/-! ## Patterns -/

/-- The lambda `split` of `routeMatches`: the words between the dots. -/
def split (text : String) : List (List Char) := text.toList.splitOn '.'

/-- `Matcher::at`, over the words that are left of the pattern and of the route. -/
def matcherAt : List (List Char) → List (List Char) → Bool
  | [], words => words.isEmpty
  | p :: pattern, words =>
      if p = ['#'] then words.tails.any (matcherAt pattern)
      else
        match words with
        | [] => false
        | w :: rest => if p ≠ ['*'] ∧ p ≠ w then false else matcherAt pattern rest

/-- What `Routing::Pattern` means: `*` is one word, `#` is zero or more. -/
def routeMatches (binding route : String) : Bool := matcherAt (split binding) (split route)

/-! ## Declarations -/

/-- What the caller needs from a destination. -/
structure TopicOptions where
  durable : Bool := true
  shared : Bool := true
  deleteWhenUnused : Bool := false
  deadLetter : Bool := true
  /-- Maximum messages the destination retains; `0` means unbounded. -/
  maxLength : Nat := 0
  overflow : OverflowPolicy := .dropHead
  /-- The routing domain; empty means none. -/
  group : String := ""
  /-- The key the destination is reached by in its group; empty means its name. -/
  route : String := ""
  routing : Routing := .pattern
  deriving DecidableEq, Repr

/-- The group that all forensic destinations are in. -/
def kDeadLetterExchange : String := "motus.dead-letter"

/-- What the names of all forensic destinations begin with. -/
def kDeadLetterPrefix : String := "motus.dead-letter."

/-- The cap of a forensic destination. -/
def kForensicMaxLength : Nat := 2000

/-- The forensic destination of a source topic. -/
def deadLetterTopic (source : Topic) : Topic := kDeadLetterPrefix ++ source

/-- The one declaration shared by every automatically provisioned forensic queue. -/
def forensicTopicOptions (source : Topic) : TopicOptions where
  group := kDeadLetterExchange
  route := source
  routing := .exact
  deadLetter := false
  maxLength := kForensicMaxLength
  overflow := .rejectPublish

/-- A forensic destination's name is longer than its source's, so the chain of
forensic destinations of a topic never comes back to it. -/
theorem length_lt_deadLetterTopic (source : Topic) :
    source.length < (deadLetterTopic source).length := by
  have hprefix : kDeadLetterPrefix.length = 18 := by decide
  simp only [deadLetterTopic, String.length_append]
  omega

theorem deadLetterTopic_ne (source : Topic) : deadLetterTopic source ≠ source := by
  intro heq
  have hlt := length_lt_deadLetterTopic source
  rw [heq] at hlt
  exact absurd hlt (Nat.lt_irrefl _)

/-- Different sources have different forensic destinations. -/
theorem deadLetterTopic_injective : Function.Injective deadLetterTopic := by
  intro source source' h
  have hlist := congrArg String.toList h
  simp only [deadLetterTopic, String.toList_append] at hlist
  exact String.toList_inj.mp (List.append_cancel_left hlist)

/-- Where a peer is reached; port `0` is the backend's default. -/
structure Endpoint where
  host : String := "127.0.0.1"
  port : Nat := 0
  user : String := "guest"
  password : String := "guest"
  realm : String := "/"
  deriving DecidableEq, Repr

/-- What the caller needs from one send. -/
structure SendOptions where
  durable : Bool := true
  confirm : Bool := false
  /-- Overrides the routing key of this one message; empty means no override. -/
  route : String := ""
  deriving DecidableEq, Repr

/-- One received message, as the middleware presented it. -/
structure Delivery where
  body : Bytes
  redelivered : Bool := false
  tag : Nat := 0
  deriving DecidableEq, Repr

/-- How a message handler left: it decided, or it threw something. -/
inductive HandlerOutcome where
  | returned (disposition : Disposition)
  | threw (what : String)
  deriving DecidableEq, Repr

/-- What the transport actually did. -/
structure Stats where
  bytesSent : Nat := 0
  bytesReceived : Nat := 0
  sent : Nat := 0
  received : Nat := 0
  acksPerformed : Nat := 0
  rejectsPerformed : Nat := 0
  requeuesPerformed : Nat := 0
  abandoned : Nat := 0
  reconnects : Nat := 0
  deriving DecidableEq, Repr

/-- Whether, and how hard, a transport tries to restore a lost connection. -/
structure ReconnectPolicy where
  enabled : Bool := false
  maxAttempts : Nat := 5
  initialDelay : Nat := 250
  maxDelay : Nat := 5000
  deriving DecidableEq, Repr

/-- The range of a signed 64-bit integer. -/
def isInt64 (n : Int) : Bool := decide (-2 ^ 63 ≤ n ∧ n < 2 ^ 63)

/-- `count() << shift` on a 64-bit count: a product of the unsigned range is converted,
and the language leaves any other one, and a shift by 64 or more, undefined. -/
def shiftLeft (count shift : Nat) (undefined : Int) : Int :=
  if shift < 64 ∧ count <<< shift < 2 ^ 64 then Int.bmod (count <<< shift : Nat) (2 ^ 64)
  else undefined

/-- The wait after so many failed attempts in a row, in milliseconds. -/
def ReconnectPolicy.delay (policy : ReconnectPolicy) (failedAttempts : Nat) (undefined : Int) :
    Int :=
  min policy.maxDelay (shiftLeft policy.initialDelay (failedAttempts - 1) undefined)

/-- `time + delay`, of a time of the steady clock, in nanoseconds, and a delay in
milliseconds; undefined where it overflows. -/
def addDelay (time delay undefined : Int) : Int :=
  if isInt64 (delay * 1000000) ∧ isInt64 (time + delay * 1000000) then time + delay * 1000000
  else undefined

end Motus.Transport
