/-!
# Event — the bus

A bus hands a copy of every published message to each of its subscriptions.
Every subscription has a channel of its own, which keeps the copies, in the
order of publication, until they are received. The bus holds the sending ends.
It notices that a subscription was dropped when it next sends to it, and gives
up the sending end then. When a bus is closed all sending ends go at once; the
subscriptions are left what they still hold.
-/

namespace BackgroundJobs

/-- The receiving end of a channel. -/
structure Subscription (μ : Type) where
  /-- The messages not received yet, the oldest first. -/
  pending : List μ := []
  /-- Has the subscriber dropped it? -/
  dropped : Bool := false
  deriving DecidableEq

/-- A bus with every subscription ever made, in the order of making. A subscription is named by
its place in that order. -/
structure Bus (μ : Type) where
  subscriptions : List (Subscription μ) := []
  /-- The subscriptions whose sending ends the bus holds, the earliest made first. -/
  senders : List Nat := []
  closed : Bool := false
  deriving DecidableEq

/-- Why nothing was received. -/
inductive ReceiveError where
  /-- There is nothing now. -/
  | empty
  /-- Nothing came in time. -/
  | timeout
  /-- Nothing will come any more. -/
  | disconnected
  deriving DecidableEq, Repr

namespace Subscription

variable {μ : Type}

/-- Sends a message, unless the receiver is gone. -/
def send? (s : Subscription μ) (message : μ) : Option (Subscription μ) :=
  if s.dropped then none else some { s with pending := s.pending ++ [message] }

end Subscription

namespace Bus

variable {μ : Type}

def empty : Bus μ := {}

instance : Inhabited (Bus μ) := ⟨empty⟩

/-- The number of subscriptions that the bus sends to, as far as it has noticed. -/
def subscriberCount (b : Bus μ) : Nat :=
  b.senders.length

/-- Makes a subscription to what is published from now on. Returns its name. -/
def subscribe (b : Bus μ) : Nat × Bus μ :=
  let name := b.subscriptions.length
  (name, { b with
    subscriptions := b.subscriptions ++ [{}]
    senders := if b.closed then b.senders else b.senders ++ [name] })

/-- Sends a message to one subscription after the other, and keeps the senders that got through. -/
def fanOut (message : μ) :
    List Nat → List (Subscription μ) → List Nat × List (Subscription μ)
  | [], subscriptions => ([], subscriptions)
  | i :: rest, subscriptions =>
    match subscriptions[i]?.bind (·.send? message) with
    | some s =>
      let (kept, subscriptions) := fanOut message rest (subscriptions.set i s)
      (i :: kept, subscriptions)
    | none => fanOut message rest subscriptions

def publish (b : Bus μ) (message : μ) : Bus μ :=
  let (senders, subscriptions) := fanOut message b.senders b.subscriptions
  { b with subscriptions, senders }

def modify (b : Bus μ) (i : Nat) (change : Subscription μ → Subscription μ) : Bus μ :=
  { b with subscriptions := b.subscriptions.modify i change }

def pending (b : Bus μ) (i : Nat) : List μ :=
  (b.subscriptions[i]?.map (·.pending)).getD []

/-- Receives the oldest message of the named subscription. If there is none, `absent` says why,
unless the sending end is gone. -/
def receive (b : Bus μ) (i : Nat) (absent : ReceiveError) : Except ReceiveError μ × Bus μ :=
  match b.pending i with
  | message :: rest => (.ok message, b.modify i fun s => { s with pending := rest })
  | [] => (.error (if b.senders.contains i then absent else .disconnected), b)

/-- Receives all the messages of the named subscription. -/
def drain (b : Bus μ) (i : Nat) : List μ × Bus μ :=
  (b.pending i, b.modify i fun s => { s with pending := [] })

def drop (b : Bus μ) (i : Nat) : Bus μ :=
  b.modify i fun s => { s with pending := [], dropped := true }

def close (b : Bus μ) : Bus μ :=
  { b with senders := [], closed := true }

end Bus

end BackgroundJobs
