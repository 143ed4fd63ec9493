import EndpointTree.Channel.Observe
import EndpointTree.CommandLine.Arguments
import EndpointTree.CommandLine.Report
import EndpointTree.Digest.Sha256
import EndpointTree.Serving.Routes
import EndpointTree.Token.Lifetime
import EndpointTree.Token.Signed

/-!
# Commands

A command is carried out against settings, files and a time. Models are compiled
with the built-in handlers alone. Files that a command names stand in place of
those of the settings.

* `Invocation.perform` gives what a command prints or serves, or its fault.
-/

namespace EndpointTree.CommandLine

/-- What a command is carried out against. -/
structure Surroundings where
  settings : Settings
  files : Files
  /-- The present second, counted from 1970. -/
  now : Int

/-- Why a command fails. -/
inductive CommandFault where
  | noModelFiles
  | load (fault : LoadFault)
  | compile (fault : CompileFault)
  | settings (fault : SettingsFault)
  | start (fault : Serving.StartFault)
  | token (fault : TokenFault)
  /-- The expiry that was asked for is beyond the calendar. -/
  | noSuchTime
  /-- The model has no table of routes. -/
  | unroutable
  deriving DecidableEq

/-- The wording of a fault; of a failed start only what was being done. -/
def CommandFault.message : CommandFault → String
  | .noModelFiles => "No model files given and ARBOR_MODEL is not set"
  | .load fault => fault.message
  | .compile fault => fault.message
  | .settings fault => fault.message
  | .start fault => fault.context
  | .token fault => fault.message
  | .noSuchTime => "the expiry is out of range"
  | .unroutable => "the routes of the model are at odds"

/-- What a host is handed to listen with. The application is that of a second, since a token
is verified at the time at which it comes. -/
structure Service where
  settings : Settings
  appAt : Int → Serving.Application

/-- What a command leads to. -/
inductive Outcome where
  | printed (text : String)
  | serving (service : Service) (table : Serving.RouteTable)

/-- The model files of a command: those that it names, or those of the settings. -/
def modelPaths (s : Settings) (files : List String) : Except CommandFault (List String) :=
  if !files.isEmpty then .ok files
  else if s.modelPaths.isEmpty then .error .noModelFiles
  else .ok s.modelPaths

/-- Load, merge and compile model files. -/
def compileFiles (s : Surroundings) (files : List String) : Except CommandFault Model := do
  let paths ← modelPaths s.settings files
  let raw ← (ModelFile.load s.files paths).mapError .load
  (Model.ofJson .builtins (.ofOrigins s.settings.corsOrigins) raw).mapError .compile

/-- Issue a token from now on; without a number of hours the settings give one. -/
def issueToken (s : Surroundings) (roles : List String) (subject : Option String)
    (hours : Option Nat) : Except CommandFault (Claims × String) := do
  match Claims.lasting? s.now (hours.getD s.settings.jwtExpiryHours) subject roles with
  | none => throw .noSuchTime
  | some claims =>
    let token ← (Token.issue Digest.hmacSha256 s.settings.jwtSecret claims).mapError .token
    return (claims, token)

/-- The report on a token, which as a document has the expiry beside it. -/
def tokenReport (asJson : Bool) (claims : Claims) (token : String) : String :=
  if asJson then
    Report.success "Token issued"
      [("token", .string token), ("expires_at", (claims.expiry.map Claims.timeJson).getD .null)]
  else token ++ "\n"

/-- The verifier of tokens at a second. -/
def verifierAt (settings : Settings) (now : Int) : Verifier :=
  Token.verify Digest.hmacSha256 settings.jwtSecret now

/-- Make everything ready to serve model files; what is routed does not hang on the time. -/
def prepareServing (s : Surroundings) (files : List String) (tcpPort : Option Nat) :
    Except CommandFault (Service × Serving.RouteTable) := do
  let paths ← modelPaths s.settings files
  let settings :=
    { s.settings with modelPaths := paths, tcpPort := tcpPort.getD s.settings.tcpPort }
  match settings.fault? with
  | some fault => throw (.settings fault)
  | none =>
    let app ← (Serving.Application.ofFiles settings .builtins (verifierAt settings s.now)
      s.files).mapError .start
    match app.routes? with
    | none => throw .unroutable
    | some table =>
      let appAt now := { app with verifier := verifierAt settings now }
      return ({ settings, appAt }, table)

/-- Carry out a command. -/
def Invocation.perform (i : Invocation) (s : Surroundings) : Except CommandFault Outcome :=
  match i.command with
  | .compile files => (compileFiles s files).map fun m =>
    .printed (if i.asJson then Report.nodesJson m else Report.nodes m)
  | .routes files => (compileFiles s files).map fun m =>
    .printed (if i.asJson then Report.routesJson m else Report.routes m)
  | .token roles subject hours => (issueToken s roles subject hours).map fun (claims, token) =>
    .printed (tokenReport i.asJson claims token)
  | .serve files tcpPort => (prepareServing s files tcpPort).map fun (service, table) =>
    .serving service table

end EndpointTree.CommandLine
