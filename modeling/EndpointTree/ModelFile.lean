import EndpointTree.Json.Merge
import EndpointTree.Json.Parser
import EndpointTree.Yaml.Document

/-!
# Model files

A model is written in one or more files, which are read in the given order and
laid over one another. A file's extension decides how it is read: `yaml` and
`yml`, in lower case, mean indented text, and anything else means JSON.

* `Files.ofList` is a directory of files held in memory.
* `ModelFile.load` gives the merged document, or the first fault.
-/

namespace EndpointTree

/-- Why a file cannot be read. -/
inductive ReadFault where
  | notFound
  | permissionDenied
  | notDirectory
  | isDirectory
  | nameTooLong
  | notName
  | notText
  | other (text : String)
  deriving DecidableEq, Repr

def ReadFault.message : ReadFault → String
  | .notFound => "No such file or directory (os error 2)"
  | .permissionDenied => "Permission denied (os error 13)"
  | .notDirectory => "Not a directory (os error 20)"
  | .isDirectory => "Is a directory (os error 21)"
  | .nameTooLong => "File name too long (os error 36)"
  | .notName => "file name contained an unexpected NUL byte"
  | .notText => "stream did not contain valid UTF-8"
  | .other text => text

/-- Files as they can be read: the text behind each path, or why there is none. -/
abbrev Files := String → Except ReadFault String

/-- The parts of a name that say where it leads. -/
def nameParts (name : String) : List String :=
  (name.splitOn "/").filter fun part => part ≠ "" && part ≠ "."

/-- Where a path has led so far. -/
inductive Spot where
  /-- A directory, by its parts below the one that holds the files. -/
  | within (parts : List String)
  /-- A directory around it. -/
  | around
  | file (text : String)

/-- The most bytes that a part of a path may have. -/
def partLimit : Nat := 255

/-- The most bytes that a path may have. -/
def pathLimit : Nat := 4095

/-- Follow one part of a path; a blank one asks for a directory as `.` does. -/
def Spot.follow (held : List (List String × String)) (s : Spot) (part : String) :
    Except ReadFault Spot :=
  let stays := part = "" || part = "."
  let missing : ReadFault := if partLimit < part.utf8ByteSize then .nameTooLong else .notFound
  match s with
  | .file _ => .error .notDirectory
  | .around => if stays || part = ".." then .ok .around else .error missing
  | .within parts =>
    if stays then .ok s
    else if part = ".." then .ok (if parts.isEmpty then .around else .within parts.dropLast)
    else
      let parts := parts ++ [part]
      match held.find? fun f => f.1 = parts with
      | some (_, text) => .ok (.file text)
      | none =>
        if held.any fun f => parts.isPrefixOf f.1 then .ok (.within parts) else .error missing

/--
Files in a directory that holds nothing else, the last of several with one name
counting; the directories around it hold nothing that can be named.
-/
def Files.ofList (files : List (String × String)) : Files := fun path =>
  let held := files.reverse.map fun (name, text) => (nameParts name, text)
  if path.contains '\x00' then .error .notName
  else if path = "" then .error .notFound
  else if pathLimit < path.utf8ByteSize then .error .nameTooLong
  else do
    let start := if path.startsWith "/" then Spot.around else .within []
    match ← (path.splitOn "/").foldlM (Spot.follow held) start with
    | .file text => return text
    | .within _ | .around => throw .isDirectory

/-- Why there is no model. -/
inductive LoadFault where
  | noFiles
  | unreadable (path : String) (fault : ReadFault)
  | notJson (path : String) (fault : Json.Fault)
  | notYaml (path : String)
  deriving DecidableEq, Repr

namespace LoadFault

/-- What stands behind a fault, as far as it has a wording of its own. -/
def cause? : LoadFault → Option String
  | .unreadable _ fault => some fault.message
  | .notJson _ fault => some fault.message
  | .noFiles | .notYaml _ => none

/-- The wording of a fault. -/
def message : LoadFault → String
  | .noFiles => "no model files given"
  | .unreadable path fault => s!"failed to read model file '{path}': {fault.message}"
  | .notJson path fault => s!"invalid JSON in '{path}': {fault.message}"
  | .notYaml path => s!"invalid YAML in '{path}'"

end LoadFault

namespace ModelFile

/-- The last part of a path, blank parts and `.` behind it aside. -/
def fileName (path : String) : String :=
  match (path.splitOn "/").reverse.dropWhile fun part => part = "" || part = "." with
  | name :: _ => name
  | [] => ""

/-- What stands behind the last point of a file name, unless the name begins with that point. -/
def extension? (path : String) : Option String :=
  match ((fileName path).splitOn ".").reverse with
  | last :: before :: rest => if rest.isEmpty && before = "" then none else some last
  | _ => none

/-- Whether a file is read as indented text. -/
def isYaml (path : String) : Bool :=
  match extension? path with
  | some e => e = "yaml" || e = "yml"
  | none => false

/-- The document of one file. -/
def fragment (files : Files) (path : String) : Except LoadFault Json := do
  let text ← (files path).mapError (.unreadable path)
  if isYaml path then
    match parseYaml? text with
    | some document => return document
    | none => throw (.notYaml path)
  else (Json.parse text.toUTF8).mapError (.notJson path)

/-- Read fragments in order and merge them. -/
def load (files : Files) (paths : List String) : Except LoadFault Json := do
  if paths.isEmpty then throw .noFiles
  return Json.mergeAll (← paths.mapM (fragment files))

end ModelFile

end EndpointTree
