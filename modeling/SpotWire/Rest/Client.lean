import SpotWire.Market.Increment
import SpotWire.Rest.Reply
import SpotWire.Url.Form
import SpotWire.Url.Reader

/-!
Requests for public market data and what their replies come to.
-/

namespace SpotWire

open Wire

structure Client where
  baseUrl : Url
  symbolSuffix : String
deriving DecidableEq, Repr

/-- A request for an absolute path, with the fields of its query. -/
structure Request where
  path : List String
  query : List Url.Form.Field
deriving DecidableEq, Repr

namespace Request

def publicPath (endpoint : String) : List String :=
  ["api", "spot", "v1", "public", endpoint]

def serverTime : Request := ⟨publicPath "time", []⟩

def markets : Request := ⟨publicPath "products", []⟩

/-- The request for one market, whose symbol has the suffix. -/
def market (suffix symbol : String) : Request :=
  ⟨publicPath "product", [⟨"symbol", Symbol.normalize suffix symbol⟩]⟩

def queryText? (fields : List Url.Form.Field) : Option (List Char) :=
  if fields.isEmpty then none else some (['&'].intercalate (fields.map Url.Form.Field.text))

/-- The address of a request: nothing of the base but its host is kept. -/
def url (base : Url) (request : Request) : Url :=
  base.withPath (request.path.map String.toList) (queryText? request.query)

/-- The first words of a request: its method, its path and its query. -/
def line (base : Url) (request : Request) : String :=
  let url := request.url base
  String.ofList <|
    "GET ".toList ++ url.pathOf ++
    match url.query with
    | none => []
    | some query => '?' :: query

end Request

namespace Client

def ofUrl (url suffix : String) : Except Failure Client :=
  match Url.ofText url with
  | .ok baseUrl => .ok ⟨baseUrl, suffix⟩
  | .error fault => .error (.address fault)

def ofConfig (config : Config) : Except Failure Client :=
  ofUrl config.spotUrl config.symbolSuffix

/-- The address that a request goes to. There is none on a base whose path is not divided, and
nothing is sent by other schemes than those of the web. -/
def address (client : Client) (request : Request) : Except Failure Url :=
  match client.baseUrl.path with
  | .plain _ => .error (.address .noBase)
  | .segments _ =>
      if client.baseUrl.isOnWeb then .ok (request.url client.baseUrl) else .error .noReply

/-- The market of a product, its precision derived from its increments. -/
def marketOf (product : Product) : MarketStatus :=
  product.toStatus.correct.1

def serverTime (reply : Reply) : Except Failure Int :=
  reply.data int64

def markets (reply : Reply) : Except Failure (List MarketStatus) :=
  (reply.data (list Product.decode)).map (List.map marketOf)

def market (reply : Reply) : Except Failure MarketStatus :=
  (reply.data Product.decode).map marketOf

/-- The seconds that a request may take, and of them to connect. -/
def timeout : Nat := 30

def connectTimeout : Nat := 10

end Client

end SpotWire
