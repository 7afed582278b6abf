import SpotWire.Proofs.Message.Inbound
import SpotWire.Proofs.Text.Octets
import SpotWire.Stream.Frame

/-!
# What frames carry

A frame carries a message if it holds the text of a value, as a text or as the octets of one. A
message is answered if and only if it announces a ping.
-/

namespace SpotWire

open Wire

namespace Stream.Frame

variable {text : String}

theorem message?_of_ok {content : Json.Value} (h : Wire.ofText value text = .ok content) :
    (Frame.text text).message? = some (.ofValue content) := by
  simp [message?, text?, Inbound.ofText, h, Except.map, Except.toOption]

theorem message?_of_error {problem : Problem} (h : Wire.ofText value text = .error problem) :
    (Frame.text text).message? = none := by
  simp [message?, text?, Inbound.ofText, h, Except.map, Except.toOption]

theorem message?_octets (text : String) :
    (Frame.binary (Text.octets text.toList)).message? = (Frame.text text).message? := by
  simp [message?, text?, Text.ofOctets?_octets]

theorem message?_of_no_text {octets : List Nat}
    (h : ∀ text : String, octets ≠ Text.octets text.toList) :
    (Frame.binary octets).message? = none := by
  cases hread : Text.ofOctets? octets with
  | none => simp [message?, text?, hread]
  | some chars =>
      have hspelled := Text.ofOctets?_eq_some_iff.mp hread
      exact absurd hspelled (by simpa using h (String.ofList chars))

end Stream.Frame

end SpotWire
