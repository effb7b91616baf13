import RaygunApm.Hook.Discovery
import RaygunApm.Library.Numerals
import RaygunApm.Wire.Getters

/-! # Hooked requests

`lib/raygun/apm/hooks`: the modules that are prepended to the HTTP and database clients. Each of
them calls `super`, and then fills an event object with what it reads of the request and of the
response. A value may not be there to be read: `URI.join` raises on a query that is no part of an
address, and the hook with it. Texts are those that `rb_str_encode` leaves of the Ruby strings,
which are valid and of encodings that can be joined. -/

namespace RaygunApm

/-- What every hook reads besides the request. -/
structure HookTiming where
  /-- `Process.pid`. -/
  pid : UInt32
  /-- `tracer.get_thread_id(Thread.current)`. -/
  tid : UInt32
  /-- The time before `super`. -/
  started : Int64
  /-- The time behind `super`. -/
  ended : Int64

/-- A hook of requests of a kind: what it assigns, in this order. -/
structure RequestHook (ρ : Type) where
  /-- The class of its event object. -/
  type : EventType
  /-- The calls of `[]=`, up to a value that raises. -/
  assignments : ρ → HookTiming → List (Assignment type)
  /-- Behind these a value raises. -/
  raises : ρ → Bool
  /-- If none does, every attribute of the class is among them. -/
  assigns_all : ∀ request timing, raises request = false → ∀ attr ∈ type.attributes,
    ∃ a ∈ assignments request timing, a.attr = attr
  /-- Only requests are reported so. -/
  of_request : type = .httpOutgoingInformation ∨ type = .sqlInformation

/-- The event that a request is to be reported as: a new one, with these values. -/
def RequestHook.event {ρ : Type} (hook : RequestHook ρ) (request : ρ) (timing : HookTiming) : Event :=
  let event := rubyEvent hook.type (hook.assignments request timing)
  { pid := event.member .pid
    tid := event.member .tid
    timestamp := event.member .timestamp
    data := event.data }

/-! ## HTTP -/

/-- What the hooks of HTTP clients assign. The URL comes second, and may raise. -/
def httpOutAssignments (url : Option Bytes) (verb : Bytes) (status : UInt16) (timing : HookTiming) :
    List (Assignment .httpOutgoingInformation) :=
  ⟨.pid, .head _, timing.pid⟩ :: match url with
  | none => []
  | some url =>
    [⟨.url, .tail _ (.tail _ (.tail _ (.head _))), some url⟩,
    ⟨.verb, .tail _ (.tail _ (.tail _ (.tail _ (.head _)))), some verb⟩,
    ⟨.status, .tail _ (.tail _ (.tail _ (.tail _ (.tail _ (.head _))))), status⟩,
    ⟨.duration, .tail _ (.tail _ (.tail _ (.tail _ (.tail _ (.tail _ (.head _)))))),
      timing.ended - timing.started⟩,
    ⟨.timestamp, .tail _ (.tail _ (.head _)), timing.started⟩,
    ⟨.tid, .tail _ (.head _), timing.tid⟩]

/-- With a URL the hooks of HTTP clients assign every attribute. -/
theorem httpOutAssignments_all (url verb : Bytes) (status : UInt16) (timing : HookTiming) :
    ∀ attr ∈ EventType.httpOutgoingInformation.attributes,
      ∃ a ∈ httpOutAssignments (some url) verb status timing, a.attr = attr := by
  intro attr hattr
  have hmap : attr ∈ (httpOutAssignments (some url) verb status timing).map Assignment.attr := by
    revert attr
    show ∀ attr ∈ EventType.httpOutgoingInformation.attributes,
      attr ∈ [Attribute.pid, .url, .verb, .status, .duration, .timestamp, .tid]
    decide
  exact List.mem_map.mp hmap

/-- The hook of an HTTP client, by what it takes for the URL, the verb and the status. -/
def httpOutHook {ρ : Type} (url : ρ → Option Bytes) (verb : ρ → Bytes) (status : ρ → UInt16) :
    RequestHook ρ where
  type := .httpOutgoingInformation
  assignments request := httpOutAssignments (url request) (verb request) (status request)
  raises request := (url request).isNone
  assigns_all request timing hurl := by
    obtain ⟨text, htext⟩ := Option.isSome_iff_exists.mp (Option.isNone_eq_false_iff.mp hurl)
    rw [htext]
    exact httpOutAssignments_all text (verb request) (status request) timing
  of_request := .inl rfl

/-- `upcase`, of an ASCII string. -/
def upcase (s : Bytes) : Bytes := s.map fun c => if 97 ≤ c ∧ c ≤ 122 then c - 32 else c

/-- A request of `Net::HTTP`. -/
structure NetHttpRequest where
  /-- `request.uri`. -/
  uri : Option Bytes
  useSsl : Bool
  /-- `request["host"]`. -/
  host : Option Bytes
  address : Bytes
  path : Bytes
  /-- `request.method`. -/
  method : Bytes
  /-- `response.code.to_i`. -/
  code : UInt16

/-- `raygun_apm_url`. -/
def NetHttpRequest.raygunApmUrl (request : NetHttpRequest) : Bytes :=
  match request.uri with
  | some uri => uri
  | none =>
      ascii (if request.useSsl then "https" else "http") ++ ascii "://" ++
        request.host.getD request.address ++ request.path

/-- `Raygun::Apm::Hooks::Net::HTTP`. -/
def netHttp : RequestHook NetHttpRequest :=
  httpOutHook (fun request => some request.raygunApmUrl) NetHttpRequest.method NetHttpRequest.code

/-- A request of Excon. What is nil is the empty string in the URL. -/
structure ExconRequest where
  /-- `@data[:scheme]`. -/
  scheme : Option Bytes
  /-- `@data[:host]`. -/
  host : Option Bytes
  /-- `params[:path]`. -/
  path : Option Bytes
  /-- `params[:method]`. -/
  method : Option Bytes
  /-- `response.status`. -/
  status : UInt16

/-- `Raygun::Apm::Hooks::Excon`. -/
def excon : RequestHook ExconRequest :=
  httpOutHook
    (fun request => some (request.scheme.getD [] ++ ascii "://" ++ request.host.getD [] ++
      ascii "/" ++ request.path.getD []))
    (fun request => upcase (request.method.getD [])) ExconRequest.status

/-- A query of HTTPClient, as `to_param` leaves it. -/
inductive QueryArgument where
  | string (query : Bytes)
  /-- A Hash or an Array, without `to_param`. -/
  | other

/-- A request of HTTPClient, with the URI as `to_param` leaves it. -/
structure HttpClientRequest where
  uri : Option Bytes
  query : Option QueryArgument
  method : Bytes
  /-- `response.code.to_i`. -/
  code : UInt16

/-- `raygun_apm_url`. `URI.join` raises on some strings, and on all that is neither a string nor a
URI. -/
def HttpClientRequest.raygunApmUrl (uriJoin : Bytes → Bytes → Option Bytes)
    (request : HttpClientRequest) : Option Bytes :=
  match request.query, request.uri with
  | some (.string query), some uri => uriJoin uri query
  | some .other, some _ => none
  | _, uri => some (uri.getD [])

/-- `Raygun::Apm::Hooks::HTTPClient`, with `URI.join` on strings. -/
def httpClient (uriJoin : Bytes → Bytes → Option Bytes) : RequestHook HttpClientRequest :=
  httpOutHook (HttpClientRequest.raygunApmUrl uriJoin) (fun request => upcase request.method)
    HttpClientRequest.code

/-! ## Databases -/

/-- What the hooks of database clients assign. -/
def sqlAssignments (query provider host database : Bytes) (timing : HookTiming) :
    List (Assignment .sqlInformation) :=
  [⟨.pid, .head _, timing.pid⟩,
    ⟨.query, .tail _ (.tail _ (.tail _ (.tail _ (.tail _ (.tail _ (.head _)))))), some query⟩,
    ⟨.provider, .tail _ (.tail _ (.tail _ (.head _))), some provider⟩,
    ⟨.host, .tail _ (.tail _ (.tail _ (.tail _ (.head _)))), some host⟩,
    ⟨.database, .tail _ (.tail _ (.tail _ (.tail _ (.tail _ (.head _))))), some database⟩,
    ⟨.duration, .tail _ (.tail _ (.tail _ (.tail _ (.tail _ (.tail _ (.tail _ (.head _))))))),
      timing.ended - timing.started⟩,
    ⟨.timestamp, .tail _ (.tail _ (.head _)), timing.started⟩,
    ⟨.tid, .tail _ (.head _), timing.tid⟩]

/-- The hooks of database clients assign every attribute. -/
theorem sqlAssignments_all (query provider host database : Bytes) (timing : HookTiming) :
    ∀ attr ∈ EventType.sqlInformation.attributes,
      ∃ a ∈ sqlAssignments query provider host database timing, a.attr = attr := by
  intro attr hattr
  have hmap : attr ∈ (sqlAssignments query provider host database timing).map Assignment.attr := by
    revert attr
    show ∀ attr ∈ EventType.sqlInformation.attributes,
      attr ∈ [Attribute.pid, .query, .provider, .host, .database, .duration, .timestamp, .tid]
    decide
  exact List.mem_map.mp hmap

/-- The hook of a database client, by what it takes for the query, the host and the database. -/
def sqlHook {ρ : Type} (query : ρ → Bytes) (provider : Bytes) (host database : ρ → Bytes) :
    RequestHook ρ where
  type := .sqlInformation
  assignments request :=
    sqlAssignments (query request) provider (host request) (database request)
  raises _ := false
  assigns_all request timing _ :=
    sqlAssignments_all (query request) provider (host request) (database request) timing
  of_request := .inr rfl

/-- Some commands for Redis. -/
structure RedisCommands where
  /-- Each with its arguments, as `to_s` leaves them. -/
  commands : List (List Bytes)
  host : Bytes
  port : Nat
  db : Nat

/-- `raygun_format_query`. -/
def RedisCommands.raygunFormatQuery (commands : RedisCommands) : Bytes :=
  (ascii ", ").intercalate (commands.commands.map fun command => (ascii " ").intercalate command)

/-- An operation of MongoDB. -/
structure MongoOperation where
  /-- `payload["database_name"]`. -/
  databaseName : Bytes
  /-- `payload["command_name"]`. -/
  commandName : Bytes
  /-- `payload["command"]`, inspected. -/
  command : Bytes
  /-- `connection.address`. -/
  address : Bytes
  /-- `client.database.name`. -/
  database : Bytes

/-- `raygun_format_query`, with the brace behind the command. -/
def MongoOperation.raygunFormatQuery (operation : MongoOperation) : Bytes :=
  operation.databaseName ++ ascii "." ++ operation.commandName ++ ascii " " ++ operation.command ++
    ascii "\x7d"

/-- `Raygun::Apm::Hooks::MongoDB`. -/
def mongoDB : RequestHook MongoOperation :=
  sqlHook MongoOperation.raygunFormatQuery (ascii "mongodb") MongoOperation.address
    MongoOperation.database

/-! ## What is reported -/

/-- An HTTP request with a URL is reported with its own URL, verb, status and times. -/
theorem event_httpOutHook {ρ : Type} (url : ρ → Option Bytes) (verb : ρ → Bytes) (status : ρ → UInt16)
    (request : ρ) (timing : HookTiming) {text : Bytes} (hurl : url request = some text) :
    (httpOutHook url verb status).event request timing
      = { pid := timing.pid, tid := timing.tid, timestamp := timing.started,
          data := .httpOutgoingInformation
            { url := rbRgEncodeString rgStringEncodingAscii (some text)
              verb := rbRgEncodeShortString rgStringEncodingAscii (some (verb request))
              status := status request
              duration := timing.ended - timing.started } } := by
  simp only [RequestHook.event, httpOutHook, hurl]
  rfl

/-- A command for a database is reported with its own query, provider, host, database and times. -/
theorem event_sqlHook {ρ : Type} (query : ρ → Bytes) (provider : Bytes) (host database : ρ → Bytes)
    (request : ρ) (timing : HookTiming) :
    (sqlHook query provider host database).event request timing
      = { pid := timing.pid, tid := timing.tid, timestamp := timing.started,
          data := .sqlInformation
            { provider := rbRgEncodeString rgStringEncodingUtf8 (some provider)
              host := rbRgEncodeString rgStringEncodingUtf8 (some (host request))
              database := rbRgEncodeString rgStringEncodingUtf8 (some (database request))
              query := rbRgEncodeString rgStringEncodingUtf8 (some (query request))
              duration := timing.ended - timing.started } } := rfl

end RaygunApm
