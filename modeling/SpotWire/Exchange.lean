/-!
The exchange by its name.
-/

namespace SpotWire.Exchange

def name : String := "weex"

/-- Whether a name is the exchange's, ASCII letter case aside. -/
def isNamed (candidate : String) : Bool :=
  candidate.toList.map Char.toLower == name.toList

end SpotWire.Exchange
