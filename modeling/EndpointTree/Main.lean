import EndpointTree.CommandLine.Commands
import Std.Time.DateTime.Timestamp

/-!
# The program

The program reads the settings from its environment, and the model files before
anything else is done with them. It prints what a command prints; a fault goes to
the error output and into the exit code. Listening is left to a host.
-/

namespace EndpointTree

/-- The fault of reading that a failed read stands for. -/
def ReadFault.ofError : IO.Error → ReadFault
  | .noFileOrDirectory .. => .notFound
  | .permissionDenied .. => .permissionDenied
  | .inappropriateType .. => .isDirectory
  | fault => .other (toString fault)

def readText (path : String) : IO (Except ReadFault String) := do
  try
    match String.fromUTF8? (← IO.FS.readBinFile path) with
    | some text => return .ok text
    | none => return .error .notText
  catch fault => return .error (.ofError fault)

def readFiles (paths : List String) : IO Files := do
  let held ← paths.mapM fun path => do return (path, ← readText path)
  return fun path => (held.lookup path).getD (.error .notFound)

def readSettings : IO Settings := do
  let held ← Settings.names.mapM fun name => do return (name, ← IO.getEnv name)
  return .ofLookup fun name => (held.lookup name).join

def CommandLine.Command.files : Command → List String
  | .compile files | .routes files | .serve files _ => files
  | .token .. => []

/-- Carry out a command line; the result is the exit code. -/
def runProgram (arguments : List String) : IO UInt32 := do
  match CommandLine.Invocation.ofArguments arguments with
  | .error fault =>
    if fault.isRequest then
      IO.println fault.message
      return 0
    else
      IO.eprintln s!"Error: {fault.message}"
      return 2
  | .ok invocation =>
    let settings ← readSettings
    let files ← readFiles (invocation.command.files ++ settings.modelPaths)
    let now := (← Std.Time.Timestamp.now).toSecondsSinceUnixEpoch.val
    match invocation.perform ⟨settings, files, now⟩ with
    | .ok (.printed text) =>
      IO.print text
      return 0
    | .ok (.serving service _) =>
      let port := service.settings.tcpPort
      IO.eprintln s!"Error: nothing listens on port {port}: that is left to a host"
      return 1
    | .error fault =>
      IO.eprintln s!"Error: {fault.message}"
      return 1

end EndpointTree

def main (arguments : List String) : IO UInt32 := EndpointTree.runProgram arguments
