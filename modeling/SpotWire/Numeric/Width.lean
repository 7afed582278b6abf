/-!
The bounds of whole numbers of fixed widths.
-/

namespace SpotWire.Numeric

def int32Min : Int := -2147483648

def int32Max : Int := 2147483647

def int64Min : Int := -9223372036854775808

def int64Max : Int := 9223372036854775807

def word32Max : Nat := 4294967295

def word64Max : Nat := 18446744073709551615

end SpotWire.Numeric
