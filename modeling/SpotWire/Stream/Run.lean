import SpotWire.Stream

/-!
Runs of a stream: what callers and readers do, one action after another, in any order.

Waiting is not an action. A caller or a reader that has to wait takes its action later; an action
that would have to wait now does not happen.
-/

namespace SpotWire.Stream

inductive Action where
  | connect (endpoint : Endpoint) (reached : Bool)
  | disconnect
  | beginRequest (change : Change) (subscription : Subscription)
  | finishRequest (place : Nat)
  | flush (place : Nat) (canWrite : Bool)
  | arrive (place : Nat) (arrival : Arrival) (canWrite : Bool)
  | handOn (place : Nat)
  | finish (place : Nat)
  | takeReceiver
  | dropReceiver
  | receive
deriving Repr

namespace Outcome

variable {α : Type}

/-- What is left of an outcome once its answer has been given. -/
def seen (outcome : Outcome α) : Stream × List Effect :=
  (outcome.stream, outcome.effects)

end Outcome

/-- The stream after an action and what can be seen of it; `none` if the action cannot happen. -/
def step? (stream : Stream) : Action → Option (Stream × List Effect)
  | .connect endpoint reached => some (stream.connect endpoint reached).seen
  | .disconnect => some (stream.disconnect, [])
  | .beginRequest change subscription => some (stream.beginRequest change subscription).seen
  | .finishRequest place => (stream.finishRequest? place).map Outcome.seen
  | .flush place canWrite => stream.flush? place canWrite
  | .arrive place arrival canWrite => stream.arrive? place arrival canWrite
  | .handOn place => stream.handOn? place
  | .finish place => stream.finish? place
  | .takeReceiver => some (stream.takeReceiver.2, [])
  | .dropReceiver => some (stream.dropReceiver.2, [])
  | .receive => some (stream.receive.2, [])

def run? (stream : Stream) : List Action → Option (Stream × List Effect)
  | [] => some (stream, [])
  | action :: rest => do
      let (next, effects) ← stream.step? action
      let (last, more) ← next.run? rest
      some (last, effects ++ more)

end SpotWire.Stream
