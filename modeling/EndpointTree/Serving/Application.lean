import EndpointTree.Channel.Table
import EndpointTree.Endpoint.Compile
import EndpointTree.ModelFile
import EndpointTree.Settings

/-!
# Applications

An application is a compiled model with the settings under which it is served, a
verifier of tokens, and the table of its channels where there are any to serve.

* `Application.ofDocument` assembles one from a merged document, and
  `Application.ofFiles` from the model files of the settings.
-/

namespace EndpointTree.Serving

/-- What it takes to answer requests. -/
structure Application where
  settings : Settings
  model : Model
  verifier : Verifier
  /-- The table of the channels, where they are served. -/
  channels : Option Channel.Table

/-- Why there is no application. -/
inductive StartFault where
  | load (fault : LoadFault)
  | compile (fault : CompileFault)
  deriving DecidableEq

namespace StartFault

/-- What was being done. -/
def context : StartFault → String
  | .load _ => "failed to load endpoint model"
  | .compile _ => "failed to compile endpoint model"

/-- The causes, each further down than the one before it. -/
def causes : StartFault → List String
  | .load fault => fault.message :: fault.cause?.toList
  | .compile (.declaration (.cors path fault)) =>
    [Declaration.Fault.message (.cors path fault), fault.message]
  | .compile fault => [fault.message]

def message (f : StartFault) : String := String.intercalate ": " (f.context :: f.causes)

end StartFault

namespace Application

/-- Assemble an application from a merged document. -/
def ofDocument (settings : Settings) (registry : Registry) (verifier : Verifier) (raw : Json) :
    Except StartFault Application := do
  let model ← (Model.ofJson registry (.ofOrigins settings.corsOrigins) raw).mapError .compile
  return { settings, model, verifier
           channels :=
            if settings.realtimeEnabled && model.hasRealtime then some (Channel.tableOf model)
            else none }

/-- Assemble an application from the model files of its settings. -/
def ofFiles (settings : Settings) (registry : Registry) (verifier : Verifier) (files : Files) :
    Except StartFault Application := do
  let raw ← (ModelFile.load files settings.modelPaths).mapError .load
  ofDocument settings registry verifier raw

end Application

end EndpointTree.Serving
