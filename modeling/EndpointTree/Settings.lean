import EndpointTree.Json.Printer
import EndpointTree.Text.Blank
import EndpointTree.Text.Unsigned

/-!
# Settings

The settings of a deployment have defaults by environment, and single values
override them. A value that cannot be read leaves the default.

* `Settings.ofLookup` reads settings from any look-up of names.
* `Settings.fault?` says what keeps them from being served.
-/

namespace EndpointTree

inductive Environment where
  | development | staging | production
  deriving DecidableEq, Repr

/-- The name of an environment in the settings' own text. -/
def Environment.name : Environment → String
  | .development => "Development"
  | .staging => "Staging"
  | .production => "Production"

/-- The settings of a deployment. -/
structure Settings where
  environment : Environment
  tcpPort : Nat := 9001
  requestLogging : Bool
  maxRequestBytes : Nat
  jwtSecret : String
  jwtExpiryHours : Nat
  corsEnabled : Bool := true
  corsOrigins : List String
  realtimeEnabled : Bool := true
  authTimeoutMs : Nat := 5000
  mountPath : String := "/realtime"
  modelPaths : List String := []
  deriving DecidableEq, Repr

/-- What keeps settings from being served. -/
inductive SettingsFault where
  | missingJwtSecret
  | missingModel
  | zeroAuthTimeout
  deriving DecidableEq, Repr

def SettingsFault.message : SettingsFault → String
  | .missingJwtSecret => "SECURITY_JWT_SECRET must be set outside development"
  | .missingModel => "no endpoint model configured (set ARBOR_MODEL or pass model files)"
  | .zeroAuthTimeout => "REALTIME_AUTH_TIMEOUT_MS must be greater than zero"

namespace Settings

def defaults : Environment → Settings
  | .development =>
    { environment := .development
      requestLogging := true
      maxRequestBytes := 10 * 1024 * 1024
      jwtSecret := "arbor-development-secret"
      jwtExpiryHours := 24 * 7
      corsOrigins := ["http://localhost:3000", "http://localhost:5173"] }
  | .staging =>
    { environment := .staging
      requestLogging := true
      maxRequestBytes := 5 * 1024 * 1024
      jwtSecret := ""
      jwtExpiryHours := 24
      corsOrigins := ["https://staging.example.com"] }
  | .production =>
    { environment := .production
      requestLogging := false
      maxRequestBytes := 2 * 1024 * 1024
      jwtSecret := ""
      jwtExpiryHours := 4
      corsOrigins := ["https://app.example.com"] }

/-- The environment that a value names; any other value is development. -/
def environmentOf : Option String → Environment
  | some name =>
    if name = "production" ∨ name = "prod" then .production
    else if name = "staging" ∨ name = "stage" then .staging
    else .development
  | none => .development

/-- The pieces of a text between commas. -/
def commaPieces : List Char → List (List Char)
  | [] => [[]]
  | c :: rest =>
    if c = ',' then [] :: commaPieces rest
    else match commaPieces rest with
      | [] => [[c]]
      | piece :: more => (c :: piece) :: more

/-- The filled items of a list between commas, without blanks around them. -/
def listItems (value : String) : List String :=
  (((commaPieces value.toList).map Text.trim).filter fun s => !s.isEmpty).map String.ofList

/-- A flag, written exactly. -/
def flag? (value : String) : Option Bool :=
  if value = "true" then some true else if value = "false" then some false else none

def count? (value : String) : Option Nat := Text.unsigned? Text.count64 value

/-- Override a setting by a value that can be read. -/
def override {α : Type} (read : String → Option α) (value : Option String) (default : α) : α :=
  (value.bind read).getD default

def names : List String :=
  ["APP_ENV", "ARBOR_PORT", "PORT", "API_ENABLE_REQUEST_LOGGING", "API_MAX_REQUEST_SIZE_BYTES",
   "SECURITY_JWT_SECRET", "SECURITY_JWT_EXPIRY_HOURS", "SECURITY_ENABLE_CORS",
   "SECURITY_CORS_ORIGINS", "REALTIME_ENABLED", "REALTIME_AUTH_TIMEOUT_MS", "ARBOR_MODEL"]

def ofLookup (lookup : String → Option String) : Settings :=
  let base := defaults (environmentOf (lookup "APP_ENV"))
  { base with
    tcpPort :=
      override (Text.unsigned? Text.count16) (lookup "ARBOR_PORT" <|> lookup "PORT") base.tcpPort
    requestLogging := override flag? (lookup "API_ENABLE_REQUEST_LOGGING") base.requestLogging
    maxRequestBytes :=
      override count? (lookup "API_MAX_REQUEST_SIZE_BYTES") base.maxRequestBytes
    jwtSecret := (lookup "SECURITY_JWT_SECRET").getD base.jwtSecret
    jwtExpiryHours :=
      override count? (lookup "SECURITY_JWT_EXPIRY_HOURS") base.jwtExpiryHours
    corsEnabled := override flag? (lookup "SECURITY_ENABLE_CORS") base.corsEnabled
    corsOrigins := ((lookup "SECURITY_CORS_ORIGINS").map listItems).getD base.corsOrigins
    realtimeEnabled := override flag? (lookup "REALTIME_ENABLED") base.realtimeEnabled
    authTimeoutMs :=
      override count? (lookup "REALTIME_AUTH_TIMEOUT_MS") base.authTimeoutMs
    modelPaths := ((lookup "ARBOR_MODEL").map listItems).getD base.modelPaths }

/-- The first thing that keeps the settings from being served. -/
def fault? (s : Settings) : Option SettingsFault :=
  if s.jwtSecret = "" then some .missingJwtSecret
  else if s.modelPaths.isEmpty then some .missingModel
  else if s.realtimeEnabled ∧ s.authTimeoutMs = 0 then some .zeroAuthTimeout
  else none

/-- The settings as a document; the secret is left out. -/
def toJson (s : Settings) : Json :=
  .object
    [("environment", .string s.environment.name),
     ("api", .object
       [("port", .number (.ofInt s.tcpPort)),
        ("enable_request_logging", .bool s.requestLogging),
        ("max_request_size_bytes", .number (.ofInt s.maxRequestBytes))]),
     ("security", .object
       [("jwt_expiry_hours", .number (.ofInt s.jwtExpiryHours)),
        ("enable_cors", .bool s.corsEnabled),
        ("cors_origins", .strings s.corsOrigins)]),
     ("realtime", .object
       [("enabled", .bool s.realtimeEnabled),
        ("auth_timeout_ms", .number (.ofInt s.authTimeoutMs)),
        ("mount_path", .string s.mountPath)]),
     ("model", .object [("paths", .strings s.modelPaths)])]

end Settings

end EndpointTree
