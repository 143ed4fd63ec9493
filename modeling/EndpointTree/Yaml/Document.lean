import EndpointTree.Yaml.Node
import EndpointTree.Yaml.Token.Scan

/-!
# Documents from indented text

A text holds one document: perhaps directives and a mark `---` in front, and marks
`...` behind. A text without a node is `null`. A name gets the number of names
known when it is given, and an alias stands for the number that its name has then.

* `parseYaml?` reads a text, which has no document where it is not well formed.
-/

namespace EndpointTree.Yaml

/-- The deepest nesting of a document. -/
def deepest : Nat := 128

/-- What is left of the tokens, and the numbers that names have. -/
structure Reading where
  tokens : List Token
  numbers : List (String × Nat) := []

/-- A reader of nodes: what it has read and where it stopped, if the tokens fit. -/
abbrev Reader := StateT Reading Option

namespace Reader

def ahead : Reader Token := do
  match (← get).tokens with
  | t :: _ => return t
  | [] => failure

def skip : Reader Unit := modify fun r => { r with tokens := r.tokens.drop 1 }

/-- Give a name the number of names known so far, which is its number from here on. -/
def give (name : String) : Reader Nat := do
  let r ← get
  let number := r.numbers.length
  set { r with numbers := (name, number) :: r.numbers.filter (·.1 ≠ name) }
  return number

/-- The number that a name has. -/
def numberOf (name : String) : Reader Nat := do ((← get).numbers.lookup name)

end Reader

open Reader

/-- The texts that handles stand for. -/
abbrev Handles := List (String × List UInt8)

/-- The handles that need no directive. -/
def standardHandles : Handles := [("!", [33]), ("!!", corePrefix.toUTF8.toList)]

/-- The tag in full of a handle and a text. -/
def fullTag? (handles : Handles) (handle : String) (text : List UInt8) : Option (List UInt8) :=
  if handle = "" then some text else (handles.lookup handle).map (· ++ text)

def readName : Reader (Option Nat) := do
  match ← ahead with
  | .anchor name => do
    skip
    return some (← give name)
  | _ => return none

def readTag (handles : Handles) : Reader (Option (List UInt8)) := do
  match ← ahead with
  | .tag handle text => do
    skip
    return some (← fullTag? handles handle text)
  | _ => return none

/-- Read a name and a tag in either order; whether there is one, and the properties. -/
def readProperties (handles : Handles) : Reader (Bool × Properties) := do
  let early ← readName
  let tag ← readTag handles
  let number ← if early.isSome || tag.isNone then pure early else readName
  return (number.isSome || tag.isSome, ⟨number, tag.bind Tag.ofBytes?⟩)

/-- The node of a value that is left out. -/
def Node.absent : Node := .scalar {} true ""

/-- The node of a scalar; the tag `!` says nothing about it. -/
def Node.ofText (p : Properties) (plain : Bool) (text : String) : Node :=
  if p.tag = some .bare then .scalar { p with tag := none } plain text else .scalar p plain text

/-- The place of a node: in flow structure, in block structure, or behind a key in it. -/
inductive Context where
  | flow | block | member
  deriving DecidableEq

/-- Whether a token ends an entry of a block collection. -/
def Token.endsEntry : Token → Bool
  | .key | .value | .blockEnd => true
  | _ => false

/-- Whether a token ends a value of flow structure. -/
def Token.endsValue (close : Token → Bool) : Token → Bool
  | .comma => true
  | t => close t

/-- Whether a token is the bracket behind a flow sequence. -/
def Token.closesSequence : Token → Bool
  | .flowSequenceEnd => true
  | _ => false

/-- Whether a token is the bracket behind a flow mapping. -/
def Token.closesMapping : Token → Bool
  | .flowMappingEnd => true
  | _ => false

mutual

/-- Read a node; `fuel` bounds the steps on a path. -/
def readNode (fuel : Nat) (handles : Handles) (context : Context) : Reader Node :=
  match fuel with
  | 0 => failure
  | fuel + 1 => do
    match ← ahead with
    | .alias name => do
      skip
      return .alias (← numberOf name)
    | _ =>
      let (given, p) ← readProperties handles
      match ← ahead, context with
      | .item, .member => return .sequence p (← readDashes fuel handles)
      | .scalar plain text, _ => do
        skip
        return .ofText p plain text
      | .flowSequence, _ => do
        skip
        return .sequence p (← readFlowItems fuel handles true)
      | .flowMapping, _ => do
        skip
        return .mapping p (← readFlowMembers fuel handles true)
      | .blockSequence, .block | .blockSequence, .member => do
        skip
        return .sequence p (← readItems fuel handles)
      | .blockMapping, .block | .blockMapping, .member => do
        skip
        return .mapping p (← readMembers fuel handles)
      | _, _ => if given then return .scalar p true "" else failure

def readItems (fuel : Nat) (handles : Handles) : Reader (List Node) :=
  match fuel with
  | 0 => failure
  | fuel + 1 => do
    match ← ahead with
    | .item => do
      skip
      let item ← match ← ahead with
        | .item | .blockEnd => pure Node.absent
        | _ => readNode fuel handles .block
      return item :: (← readItems fuel handles)
    | .blockEnd => do
      skip
      return []
    | _ => failure

/-- Read the items of a sequence that stands in the column of its key. -/
def readDashes (fuel : Nat) (handles : Handles) : Reader (List Node) :=
  match fuel with
  | 0 => failure
  | fuel + 1 => do
    match ← ahead with
    | .item => do
      skip
      let item ← match ← ahead with
        | .item => pure Node.absent
        | t => if t.endsEntry then pure Node.absent else readNode fuel handles .block
      return item :: (← readDashes fuel handles)
    | _ => return []

/-- Read what stands behind the mark of a key or of a value in a block mapping. -/
def readEntry (fuel : Nat) (handles : Handles) : Reader Node :=
  match fuel with
  | 0 => failure
  | fuel + 1 => do
    if (← ahead).endsEntry then return .absent else readNode fuel handles .member

/-- Read the members of a block mapping up to its end. -/
def readMembers (fuel : Nat) (handles : Handles) : Reader (List (Node × Node)) :=
  match fuel with
  | 0 => failure
  | fuel + 1 => do
    match ← ahead with
    | .key => do
      skip
      let key ← readEntry fuel handles
      let value ← match ← ahead with
        | .value => do
          skip
          readEntry fuel handles
        | _ => pure Node.absent
      return (key, value) :: (← readMembers fuel handles)
    | .blockEnd => do
      skip
      return []
    | _ => failure

/-- Read the value of flow structure, which may be left out with its mark or behind it. -/
def readFlowValue (fuel : Nat) (handles : Handles) (close : Token → Bool) : Reader Node :=
  match fuel with
  | 0 => failure
  | fuel + 1 => do
    match ← ahead with
    | .value => do
      skip
      if (← ahead).endsValue close then return .absent else readNode fuel handles .flow
    | _ => return .absent

/--
Read the pair behind the mark of a key in a flow sequence. A token that leaves
its key out is passed over, whichever it is.
-/
def readPair (fuel : Nat) (handles : Handles) : Reader Node :=
  match fuel with
  | 0 => failure
  | fuel + 1 => do
    let key ← match ← ahead with
      | .value | .comma | .flowSequenceEnd => do
        skip
        pure Node.absent
      | _ => readNode fuel handles .flow
    return .mapping {} [(key, ← readFlowValue fuel handles Token.closesSequence)]

def readFlowItems (fuel : Nat) (handles : Handles) (first : Bool) : Reader (List Node) :=
  match fuel with
  | 0 => failure
  | fuel + 1 => do
    match ← ahead, first with
    | .flowSequenceEnd, _ => do
      skip
      return []
    | .comma, false => skip
    | _, true => pure ()
    | _, false => failure
    match ← ahead with
    | .flowSequenceEnd => do
      skip
      return []
    | .key => do
      skip
      let item ← readPair fuel handles
      return item :: (← readFlowItems fuel handles false)
    | _ => do
      let item ← readNode fuel handles .flow
      return item :: (← readFlowItems fuel handles false)

/-- Read the members of a flow mapping up to its bracket. -/
def readFlowMembers (fuel : Nat) (handles : Handles) (first : Bool) :
    Reader (List (Node × Node)) :=
  match fuel with
  | 0 => failure
  | fuel + 1 => do
    match ← ahead, first with
    | .flowMappingEnd, _ => do
      skip
      return []
    | .comma, false => skip
    | _, true => pure ()
    | _, false => failure
    match ← ahead with
    | .flowMappingEnd => do
      skip
      return []
    | .key => do
      skip
      let t ← ahead
      let key ← match t with
        | .value => pure Node.absent
        | _ =>
          if t.endsValue Token.closesMapping then pure Node.absent
          else readNode fuel handles .flow
      let value ← readFlowValue fuel handles Token.closesMapping
      return (key, value) :: (← readFlowMembers fuel handles false)
    | _ => do
      let key ← readNode fuel handles .flow
      return (key, .absent) :: (← readFlowMembers fuel handles false)

end

/-! ## Documents -/

/--
Read directives: the handles that they introduce, each once. The version is given
at most once and is 1.1 or 1.2. The result tells whether there is a directive.
-/
def readDirectives (versioned : Bool) (handles : Handles) : List Token →
    Option (Bool × Handles × List Token)
  | .directive (.version major minor) :: rest =>
    if versioned || major ≠ 1 || (minor ≠ 1 && minor ≠ 2) then none
    else (readDirectives true handles rest).map fun (_, more) => (true, more)
  | .directive (.handle handle text) :: rest =>
    if (handles.lookup handle).isSome then none
    else
      (readDirectives versioned ((handle, text) :: handles) rest).map fun (_, more) => (true, more)
  | rest => some (false, handles, rest)

/-- Move over the marks behind a document. -/
def dropEnds : List Token → List Token
  | .documentEnd :: rest => dropEnds rest
  | rest => rest

/-- Whether no node can follow a mark: a document or the text ends. -/
def Token.endsDocument : Token → Bool
  | .directive _ | .documentStart | .documentEnd | .textEnd => true
  | _ => false

/-- The only node of a text. -/
def rootNode? (tokens : List Token) : Option Node := do
  let fuel := 4 * tokens.length + 4
  let read (handles : Handles) (rest : List Token) : Option (Node × Reading) :=
    (readNode fuel (handles ++ standardHandles) .block).run { tokens := rest }
  let (directed, handles, rest) ← readDirectives false [] tokens
  let (node, behind) ← match rest with
    | .documentStart :: rest =>
      if rest.head?.all Token.endsDocument then some (Node.absent, { tokens := rest })
      else read handles rest
    | .textEnd :: _ => if directed then none else some (Node.absent, { tokens := rest })
    | _ => if directed then none else read [] rest
  match dropEnds behind.tokens with
  | [.textEnd] => return node
  | _ => none

end Yaml

/-- The document that an indented text stands for. -/
def parseYaml? (text : String) : Option Json := do
  (← Yaml.rootNode? (← Yaml.tokens? text.toList)).toJson? Yaml.deepest

end EndpointTree
