import SpotWire.Account
import SpotWire.Balance
import SpotWire.Config.Reader
import SpotWire.Exchange.Streaming
import SpotWire.Exchange.Trading
import SpotWire.Market.Increment
import SpotWire.Order
import SpotWire.Rest.Client
import SpotWire.Stream.Session
import SpotWire.Proofs.Stream.Generations
import SpotWire.Proofs.Stream.Traffic
import SpotWire.Proofs.Stream.Frame
import SpotWire.Proofs.Stream.Farewell
import SpotWire.Proofs.Stream.Calls
import SpotWire.Proofs.Text.Parts
import SpotWire.Proofs.Json.Reader
import SpotWire.Proofs.Rest.Rejected
import SpotWire.Proofs.Channel.Name
import SpotWire.Proofs.Channel.Distinct
import SpotWire.Proofs.Channel.Words
import SpotWire.Proofs.Json.Number
import SpotWire.Proofs.Wire.Record
import SpotWire.Proofs.Rest.Envelope
import SpotWire.Proofs.Rest.Outcome
import SpotWire.Proofs.Market.Reload
import SpotWire.Proofs.Wire.Reprinted
import SpotWire.Proofs.Message.Ping
import SpotWire.Proofs.Rest.Markets
import SpotWire.Proofs.Exchange.Streaming
import SpotWire.Proofs.Url.Form
import SpotWire.Proofs.Rest.Address
import SpotWire.Proofs.Market.Places
import SpotWire.Proofs.Channel.Verbatim
import SpotWire.Proofs.Market.Notation
import SpotWire.Proofs.Message.Restored
import SpotWire.Proofs.Channel.Normal
import SpotWire.Proofs.Rest.Priority
import SpotWire.Proofs.Market.Conversion
import SpotWire.Proofs.Config.Loaded
import SpotWire.Proofs.Message.Timestamp
import SpotWire.Proofs.Text.Abridged
