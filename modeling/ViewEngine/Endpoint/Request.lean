import ViewEngine.Endpoint.Basic
import ViewEngine.Text.Blank

/-!
# Requests

Endpoints on a network. The address of a call is found first, and a call without one fails before any request
is made. What becomes of a request is up to the network, which is not described here: a `Network` is any way of
answering requests.
-/

namespace ViewEngine

/-- How requests are made. -/
structure EndpointSettings where
  /-- What stands before relative addresses. -/
  baseUrl : String := "https://itunes.apple.com"
  timeoutSeconds : Nat := 30
  authToken : Option String := none
deriving DecidableEq, Repr

/-- A request for the document at an address. -/
structure Request where
  url : String
  /-- The items of the query, in the order of their names. -/
  query : Table String
  /-- What its header says about who makes it. -/
  authorization : Option String
  /-- How long it may take, in milliseconds. -/
  timeout : Nat
deriving DecidableEq, Repr

/-- What becomes of a request. -/
inductive Reply where
  | document (j : Json)
  /-- What came back is no JSON. -/
  | illegible (reason : String)
  /-- The request got lost on the way or was refused. -/
  | failed (reason : String)
  /-- The task that made the request broke off. -/
  | brokenOff (reason : String)

/-- A network with states in `ν`. -/
abbrev Network (ν : Type) := ν → Request → Reply × ν

/-- What the caller of an endpoint hears of a reply. -/
def Reply.answer (endpoint : String) : Reply → Except EndpointError Json
  | document j => .ok j
  | illegible reason => .error (.decode endpoint reason)
  | failed reason => .error (.transport endpoint reason)
  | brokenOff reason => .error (.join reason)

/-- The address of an endpoint: absolute ones as they are, others after the base. -/
def targetUrl (base endpoint : String) : Except EndpointError String :=
  if ['h', 't', 't', 'p'].isPrefixOf endpoint.toList then .ok endpoint
  else if base.isEmpty then
    .error (.invalidUrl endpoint "relative endpoint with no base_url configured")
  else
    let isSlash (c : Char) : Bool := c = '/'
    let path := endpoint.toList.dropWhile isSlash
    .ok (String.ofList (dropEndWhile isSlash base.toList ++ '/' :: path))

namespace EndpointSettings

/-- How long a request may take, in milliseconds. -/
def timeout (s : EndpointSettings) : Nat := 1000 * s.timeoutSeconds

/-- The request for an address with these parameters. -/
def request (s : EndpointSettings) (url : String) (params : Table String) : Request where
  url := url
  query := params
  authorization := s.authToken.map ("Bearer " ++ ·)
  timeout := s.timeout

end EndpointSettings

/-- The endpoint that makes requests on a network. -/
def web {ν : Type} (s : EndpointSettings) (send : Network ν) : Endpoint ν :=
  fun network endpoint params =>
    match targetUrl s.baseUrl endpoint with
    | .error e => (.error e, network)
    | .ok url =>
      let (reply, network) := send network (s.request url params)
      (reply.answer endpoint, network)

end ViewEngine
