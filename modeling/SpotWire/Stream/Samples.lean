import SpotWire.Log
import SpotWire.Message.Outbound
import SpotWire.Failure
import SpotWire.Text.Octets

/-!
Events that the log shows only the first few of.
-/

namespace SpotWire.Stream

open Wire

/-- How many events of each kind there have been, shown or not. -/
structure Samples where
  subscriptions : Nat
  unreadable : Nat
deriving DecidableEq, Repr

namespace Samples

def none : Samples := ⟨0, 0⟩

/-- As many subscriptions are shown. -/
def subscriptionLimit : Nat := 10

/-- As many unreadable messages are shown. -/
def unreadableLimit : Nat := 3

/-- An unreadable message is shown up to this many octets. -/
def previewSize : Nat := 1024

/-- What is being asked for a channel, and the channel. -/
def subject? : Outbound → Option (String × String)
  | .subscribe channel => some ("subscribe", channel)
  | .unsubscribe channel => some ("unsubscribe", channel)
  | .pong _ => .none

def countSent (samples : Samples) (message : Outbound) : Samples × List LogEvent :=
  let count := samples.subscriptions
  let events :=
    if subscriptionLimit ≤ count then []
    else
      match subject? message with
      | .none => []
      | some (action, channel) =>
          [{ severity := .info
             message := "ws subscription sent"
             details :=
               [("sample_index", .count (count + 1)), ("sample_limit", .count subscriptionLimit),
                 ("action", .text action), ("channel", .text channel)] }]
  ({ samples with subscriptions := count + 1 }, events)

def unreadableEvents (index : Nat) (problem : Problem) (text : String) : List LogEvent :=
  let position := [("sample_index", .count index), ("sample_limit", .count unreadableLimit)]
  let reason := ((Failure.unreadable problem).message?).getD ""
  let preview := String.ofList (Text.abridge previewSize text.toList)
  [{ severity := .info
     message := "ws message parse failed"
     details :=
       position ++ [("error", .text reason), ("bytes", .count (Text.octetCount text.toList))] },
    { severity := .debug
      message := "ws message parse failed"
      details := position ++ [("message", .text preview)] }]

/-- Counts a text that is no message. -/
def countUnreadable (samples : Samples) (problem : Problem) (text : String) :
    Samples × List LogEvent :=
  let count := samples.unreadable
  let events := if unreadableLimit ≤ count then [] else unreadableEvents (count + 1) problem text
  ({ samples with unreadable := count + 1 }, events)

end Samples

end SpotWire.Stream
