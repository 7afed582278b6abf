import SpotWire.Numeric.Decimal.Reader
import SpotWire.Numeric.Shortest

/-!
The decimal number for a binary number: the one that its shortest text spells.
-/

namespace SpotWire.Numeric.Decimal

/-- Digits beyond the last place are rounded off; `none` for a number too large. -/
def ofBinary? (x : Binary) : Option Decimal :=
  plain? x.plainText

end SpotWire.Numeric.Decimal
