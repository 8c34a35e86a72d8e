import ViewEngine.Dispatch.Basic
import ViewEngine.Endpoint.Request
import ViewEngine.Files.Basic
import ViewEngine.Toml.Reader

/-!
# Settings

What a host may set: where requests go, where documents lie and how actions are dispatched. Settings are
read from a TOML file in which every entry may be left out and entries that are not known do not count.
The environment may set the address and, if the file has none, the token.
-/

namespace ViewEngine

/-- What a host may set. -/
structure Settings where
  endpoint : EndpointSettings := {}
  /-- The directory of the documents. -/
  root : String := "."
  dispatch : Timing := {}
deriving DecidableEq, Repr

/-- Why there are no settings. -/
inductive SettingsError where
  | unreadable (path : String) (reason : ReadError)
  | invalid (path : String)
deriving DecidableEq, Repr

def SettingsError.message : SettingsError → String
  | unreadable path reason => "failed to read config '" ++ path ++ "': " ++ reason.message
  | invalid path => "invalid config '" ++ path ++ "'"

namespace Settings

/-! ## Reading -/

def text? : Toml → Option String
  | .string s => some s
  | _ => none

/-- A whole number below a bound. -/
def natural? (bound : Nat) : Toml → Option Nat
  | .integer i => if 0 ≤ i.toInt ∧ i.toInt < bound then some i.toInt.toNat else none
  | _ => none

/-- The entries of a section with these fields. It may be given as an array of their values in order,
those at the end left out and others after them ignored. -/
def section? (fields : List String) : Toml → Option (Table Toml)
  | .table _ entries => some entries
  | .array items => some (Table.ofList (fields.zip items))
  | .tables earlier last => some (Table.ofList (fields.zip (earlier ++ [.table .header last])))
  | .dateTime _ => some []
  | _ => none

/-- An entry of a section, with a value for when there is none. -/
def entry? {α : Type} (read? : Toml → Option α) (entries : Table Toml) (key : String) (absent : α) :
    Option α :=
  match entries.get? key with
  | some v => read? v
  | none => some absent

/-- The settings of requests. -/
def endpoint? (v : Toml) : Option EndpointSettings := do
  let absent : EndpointSettings := {}
  let entries ← section? ["base_url", "timeout_secs", "auth_token"] v
  let baseUrl ← entry? text? entries "base_url" absent.baseUrl
  let timeoutSeconds ← entry? (natural? UInt64.size) entries "timeout_secs" absent.timeoutSeconds
  let authToken ← entry? (fun v => (text? v).map some) entries "auth_token" absent.authToken
  return { baseUrl, timeoutSeconds, authToken }

/-- The directory of the documents. -/
def root? (v : Toml) : Option String := do
  let absent : Settings := {}
  entry? text? (← section? ["root"] v) "root" absent.root

/-- The settings of dispatches. -/
def dispatch? (v : Toml) : Option Timing := do
  let absent : Timing := {}
  let entries ← section? ["max_attempts", "retry_backoff_ms", "sequence_delay_ms"] v
  let maxAttempts ← entry? (natural? UInt32.size) entries "max_attempts" absent.maxAttempts
  let retryBackoff ← entry? (natural? UInt64.size) entries "retry_backoff_ms" absent.retryBackoff
  let sequenceDelay ← entry? (natural? UInt64.size) entries "sequence_delay_ms" absent.sequenceDelay
  return { maxAttempts, retryBackoff, sequenceDelay }

/-- The settings of a document. -/
def ofToml? (entries : Table Toml) : Option Settings := do
  let absent : Settings := {}
  let endpoint ← entry? endpoint? entries "endpoint" absent.endpoint
  let root ← entry? root? entries "documents" absent.root
  let dispatch ← entry? dispatch? entries "dispatch" absent.dispatch
  return { endpoint, root, dispatch }

/-- The settings in a file. -/
def load (files : Files) (path : String) : Except SettingsError Settings :=
  match files.readText path with
  | .error reason => .error (.unreadable path reason)
  | .ok text =>
    match (Toml.readText? text).bind ofToml? with
    | some s => .ok s
    | none => .error (.invalid path)

/-! ## Environment -/

/-- The variable with the address. -/
def baseUrlVariable : String := "TESSERA_ENDPOINT_BASE_URL"

/-- The variable with the token. -/
def authTokenVariable : String := "TESSERA_ENDPOINT_AUTH_TOKEN"

/-- The settings as the environment has them: an address that is not empty counts, a token only where
none is set. -/
def withEnvironment (s : Settings) (get? : String → Option String) : Settings :=
  let baseUrl := match get? baseUrlVariable with
    | some url => if url.isEmpty then s.endpoint.baseUrl else url
    | none => s.endpoint.baseUrl
  let authToken := s.endpoint.authToken.or (get? authTokenVariable)
  { s with endpoint := { s.endpoint with baseUrl, authToken } }

end Settings

end ViewEngine
