import SpotWire.Log
import SpotWire.Market
import SpotWire.Numeric.Binary.Reader
import SpotWire.Numeric.Decimal.Reader
import SpotWire.Text.Blank

/-!
Increments of amounts and prices, the number of places that an increment implies, and the
correction of a market's precision from its increments.

An increment is a decimal number where its text fits one, and otherwise a number of the binary
format, so that increments of any size are understood.
-/

namespace SpotWire

open Numeric

inductive Increment where
  | exact (value : Decimal)
  | approximate (value : Binary.Extended)
deriving DecidableEq, Repr

namespace Increment

/-- The places used when an increment is not understood. -/
def defaultPlaces : Nat := 8

/-- Increments are rounded to this many places before their places are counted. -/
def maxPlaces : Nat := 10

/-- The increment that a text spells, blank characters around it aside. -/
def ofText? (text : String) : Option Increment :=
  let trimmed := Text.trim text.toList
  if trimmed.isEmpty then none
  else (Decimal.ofText? trimmed).map exact <|> (Binary.ofText? trimmed).map approximate

def isPositive : Increment → Bool
  | .exact value => value.isPositive
  | .approximate value => value.isPositive

/-- The places left of `places` places once trailing zeros are taken off. -/
def significantPlaces (units : Nat) : Nat → Nat
  | 0 => 0
  | places + 1 => if units % 10 = 0 then significantPlaces (units / 10) places else places + 1

def exactPlaces (value : Decimal) : Nat :=
  if value.isOneOrMore then 0 else ((value.roundTo maxPlaces).normalize).scale

def approximatePlaces : Binary.Extended → Nat
  | .finite x => if x.isOneOrMore then 0 else significantPlaces (x.inUnits maxPlaces) maxPlaces
  | .infinite _ => 0
  | .notANumber => 0

/-- The places that an increment implies: none from one upwards, else the places it has once it is
rounded. -/
def places : Increment → Nat
  | .exact value => exactPlaces value
  | .approximate value => approximatePlaces value

/-- The event for an increment that is not understood. -/
def unparseable (text : String) : LogEvent :=
  { severity := .warn
    message := "unparseable step size, using default precision"
    details := [("step_size", .text text), ("default", .count defaultPlaces)] }

/-- The places that a text implies as an increment, and what the log says of it. -/
def placesOf (text : String) : Nat × List LogEvent :=
  match ofText? text with
  | some increment => (increment.places, [])
  | none => (defaultPlaces, [unparseable text])

def positive? (text : Option String) : Option String :=
  text.filter fun text => (ofText? text).any isPositive

end Increment

namespace MarketStatus

def amountEvent (symbol size : String) (places : Nat) : LogEvent :=
  { severity := .debug
    message := "amount precision from step size"
    details := [("symbol", .text symbol), ("step_size", .text size), ("amount", .count places)] }

def priceEvent (symbol size : String) (places : Nat) : LogEvent :=
  { severity := .debug
    message := "price precision from tick size"
    details := [("symbol", .text symbol), ("tick_size", .text size), ("price", .count places)] }

/-- Derives the places of amounts from the amounts' increment, if that is above zero. -/
def correctAmount (status : MarketStatus) : MarketStatus × List LogEvent :=
  match Increment.positive? status.info.stepSize with
  | none => (status, [])
  | some size =>
      let (places, events) := Increment.placesOf size
      ({ status with precision := { status.precision with amount := some places.toUInt32 } },
        events ++ [amountEvent status.symbol size places])

/-- Derives the places of prices from the prices' increment, if that is above zero. -/
def correctPrice (status : MarketStatus) : MarketStatus × List LogEvent :=
  match Increment.positive? status.info.tickSize with
  | none => (status, [])
  | some size =>
      let (places, events) := Increment.placesOf size
      ({ status with precision := { status.precision with price := some places.toUInt32 } },
        events ++ [priceEvent status.symbol size places])

/-- Derives the precision from the increments. An increment that is missing, not understood or
not above zero leaves the precision as it is. -/
def correct (status : MarketStatus) : MarketStatus × List LogEvent :=
  let (status, first) := status.correctAmount
  let (status, second) := status.correctPrice
  (status, first ++ second)

end MarketStatus

end SpotWire
