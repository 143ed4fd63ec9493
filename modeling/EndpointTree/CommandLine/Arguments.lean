import EndpointTree.Settings
import EndpointTree.Text.Unsigned

/-!
# Arguments

A command line is a verb among flags, and behind the verb its files and options.
Words are read from left to right. The value of an option, like a run of files,
is held back until the next word is known to be part of the command line; only
then it is checked. So of two faults, an unknown word wins over the value that
stands before it.

* `Invocation.ofArguments` reads a command line, or says what is wrong with it.
-/

namespace EndpointTree.CommandLine

/-- What the program can be asked to do. -/
inductive Verb where
  | compile | routes | token | serve
  deriving DecidableEq, Repr

/-- An option that takes a value. -/
inductive ValueOption where
  | roles | subject | hours | tcpPort
  deriving DecidableEq, Repr

/-- What a command line asks for. -/
inductive Command where
  | compile (files : List String)
  | routes (files : List String)
  | token (roles : List String) (subject : Option String) (hours : Option Nat)
  | serve (files : List String) (tcpPort : Option Nat)
  deriving DecidableEq, Repr

/-- A command, and whether its report is a document. -/
structure Invocation where
  command : Command
  asJson : Bool
  deriving DecidableEq, Repr

/-- Why a command line is not carried out. -/
inductive UsageFault where
  /-- Help was asked for. -/
  | help
  /-- The version was asked for. -/
  | version
  | nothingGiven
  | missingVerb
  | unknownVerb
  | unknownArgument
  | repeatedArgument
  | surplusValue
  | missingValue
  | unreadableValue
  deriving DecidableEq, Repr

/-- How a command line is written. -/
def usage : String :=
  "Usage: endpoint-tree [--text] [--json] (compile | routes | token | serve) ..."

def UsageFault.message : UsageFault → String
  | .help | .nothingGiven => usage
  | .version => "endpoint-tree 0.1.0"
  | .missingVerb => "a command is missing"
  | .unknownVerb => "there is no such command"
  | .unknownArgument => "unexpected argument"
  | .repeatedArgument => "an argument is given twice"
  | .surplusValue => "a flag takes no value"
  | .missingValue => "a value is missing"
  | .unreadableValue => "a value is out of range"

/-- Whether nothing is wrong with the command line. -/
def UsageFault.isRequest : UsageFault → Bool
  | .help | .version => true
  | _ => false

/-! ## Words -/

/-- A word by its form. -/
inductive Word where
  /-- The mark behind which every word is a file. -/
  | escape
  | long (name : String) (value : Option String)
  | short (letter : Char)
  | plain
  deriving DecidableEq, Repr

/-- The form of a word; a lone dash is plain. -/
def Word.ofText (word : String) : Word :=
  match word.toList with
  | ['-', '-'] => .escape
  | '-' :: '-' :: rest =>
    let name := String.ofList (rest.takeWhile (· ≠ '='))
    match rest.dropWhile (· ≠ '=') with
    | [] => .long name none
    | _ :: value => .long name (some (String.ofList value))
  | '-' :: letter :: _ => .short letter
  | _ => .plain

/-- The verb that a word spells. -/
def Verb.ofName? (name : String) : Option Verb :=
  if name = "compile" then some .compile
  else if name = "routes" then some .routes
  else if name = "token" then some .token
  else if name = "serve" then some .serve
  else none

/-- The word that asks for help on a verb. -/
def helpName : String := "help"

/-- Whether a verb takes files. -/
def Verb.takesFiles (v : Verb) : Bool := v ≠ .token

/-- The option of a verb that a name spells. -/
def Verb.option? (v : Verb) (name : String) : Option ValueOption :=
  match v with
  | .token =>
    if name = "roles" then some .roles
    else if name = "sub" then some .subject
    else if name = "hours" then some .hours
    else none
  | .serve => if name = "port" then some .tcpPort else none
  | .compile | .routes => none

/-! ## Scanning -/

/-- What waits for the next word. -/
inductive Held where
  | nothing
  | files (paths : List String)
  | option (o : ValueOption) (value : Option String)
  deriving DecidableEq, Repr

/-- What has been read at one level of a command line: before the verb, or behind it. -/
structure Scan where
  asJson : Bool := false
  asText : Bool := false
  files : List String := []
  roles : List String := []
  subject : Option String := none
  hours : Option Nat := none
  tcpPort : Option Nat := none
  held : Held := .nothing
  /-- Whether every further word is a file. -/
  literal : Bool := false
  deriving DecidableEq, Repr

/-- The TCP port that a text spells; a negative zero is one. -/
def tcpPort? (value : String) : Option Nat :=
  match value.toList with
  | '-' :: zeros => if !zeros.isEmpty && zeros.all (· = '0') then some 0 else none
  | _ => Text.unsigned? Text.count16 value

namespace Scan

/-- Take the value of an option that may stand only once. -/
def once {α : Type} (earlier : Option α) (value : Option α) : Except UsageFault (Option α) :=
  match earlier, value with
  | some _, _ => .error .repeatedArgument
  | none, none => .error .unreadableValue
  | none, some x => .ok (some x)

/-- Take the value of an option. Roles add up over several options. -/
def assign (s : Scan) (o : ValueOption) (value : String) : Except UsageFault Scan :=
  match o with
  | .roles =>
    .ok { s with roles := s.roles ++ (Settings.commaPieces value.toList).map String.ofList }
  | .subject => (once s.subject (some value)).map fun subject => { s with subject }
  | .hours => (once s.hours (Text.unsigned? Text.count64 value)).map fun hours => { s with hours }
  | .tcpPort => (once s.tcpPort (tcpPort? value)).map fun tcpPort => { s with tcpPort }

/-- Check and take what is held back. A file must have a name, and an option its value. -/
def settle (s : Scan) : Except UsageFault Scan :=
  let free := { s with held := .nothing }
  match s.held with
  | .nothing => .ok free
  | .files paths =>
    if paths.contains "" then .error .missingValue
    else .ok { free with files := s.files ++ paths }
  | .option _ none => .error .missingValue
  | .option o (some value) => free.assign o value

/-- Read a flag that may stand only once at its level. -/
def flag (s : Scan) (name : String) : Except UsageFault Scan := do
  let s ← s.settle
  if name = "json" then
    if s.asJson then throw .repeatedArgument else return { s with asJson := true }
  else if name = "text" then
    if s.asText then throw .repeatedArgument else return { s with asText := true }
  else throw .unknownArgument

def file (verb : Verb) (s : Scan) (path : String) : Except UsageFault Scan :=
  if verb.takesFiles then
    match s.held with
    | .files paths => .ok { s with held := .files (paths ++ [path]) }
    | _ => s.settle.map fun s => { s with held := .files [path] }
  else .error .unknownArgument

/-- Read an option, with the value that is written on to it. -/
def option (s : Scan) (o : ValueOption) (value : Option String) : Except UsageFault Scan := do
  let s ← s.settle
  match value with
  | some value => s.assign o value
  | none => return { s with held := .option o none }

/-- Whether a name spells a flag. -/
def isFlag (name : String) : Bool := name = "json" || name = "text"

/-- Read a word in front of the verb. -/
def before (s : Scan) (word : String) : Except UsageFault Scan :=
  if s.literal then
    .error (if (Verb.ofName? word).isSome || word = helpName then .unknownArgument
      else .unknownVerb)
  else match Word.ofText word with
    | .escape => .ok { s with literal := true }
    | .plain => .error .unknownVerb
    | .short letter =>
      .error (if letter = 'h' then .help else if letter = 'V' then .version else .unknownArgument)
    | .long name value =>
      if name = "help" ∨ name = "version" ∨ isFlag name = true then
        if value.isSome then .error .surplusValue
        else if name = "help" then .error .help
        else if name = "version" then .error .version
        else s.flag name
      else .error .unknownArgument

/-- Read a word behind the verb. -/
def behind (verb : Verb) (s : Scan) (word : String) : Except UsageFault Scan :=
  if s.literal then s.file verb word
  else match Word.ofText word with
    | .escape => .ok { s with literal := true }
    | .plain => match s.held with
      | .option o none => .ok { s with held := .option o (some word) }
      | _ => s.file verb word
    | .short letter => if letter = 'h' then s.settle.bind fun _ => .error .help
      else .error .unknownArgument
    | .long name value =>
      if name = "help" ∨ isFlag name = true then
        if value.isSome then .error .surplusValue
        else if name = "help" then s.settle.bind fun _ => .error .help
        else s.flag name
      else match verb.option? name with
        | some o => s.option o value
        | none => .error .unknownArgument

/-- What has been read behind a verb, as a command. -/
def command (verb : Verb) (s : Scan) : Command :=
  match verb with
  | .compile => .compile s.files
  | .routes => .routes s.files
  | .token => .token s.roles s.subject s.hours
  | .serve => .serve s.files s.tcpPort

end Scan

namespace Invocation

/-- Read the words behind a verb. -/
def ofVerb (before : Scan) (verb : Verb) (words : List String) : Except UsageFault Invocation := do
  let scan ← words.foldlM (Scan.behind verb) {}
  let scan ← scan.settle
  return ⟨scan.command verb, before.asJson || scan.asJson⟩

/-- What is said to a request for help: help on one verb, or on the whole. -/
def helpOn : List String → UsageFault
  | [] => .help
  | [word] => if (Verb.ofName? word).isSome || word = helpName then .help else .unknownVerb
  | _ => .unknownVerb

/-- Read words up to a verb and on behind it. -/
def ofWords (s : Scan) : List String → Except UsageFault Invocation
  | [] => .error (if s.asJson || s.asText then .missingVerb else .nothingGiven)
  | word :: rest =>
    if s.literal then (s.before word).bind fun s => ofWords s rest
    else if word = helpName then .error (helpOn rest)
    else match Verb.ofName? word with
      | some verb => ofVerb s verb rest
      | none => (s.before word).bind fun s => ofWords s rest

def ofArguments (words : List String) : Except UsageFault Invocation := ofWords {} words

end Invocation

end EndpointTree.CommandLine
