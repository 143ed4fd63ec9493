import EndpointTree.Yaml.Scalar
import EndpointTree.Yaml.Tag

/-!
# Nodes

The structure of a document before scalars are resolved. A node may carry a tag and
a number by which aliases stand for it; where two nodes carry one number, the later
one counts. Keys are taken by their text whatever they would stand for as values.

* `Node.toJson?` turns a node into a document. Following aliases is bounded by the
  size of the text, so that few of them cannot stand for a document without measure.
-/

namespace EndpointTree.Yaml

/-- What may be written in front of a node. -/
structure Properties where
  number : Option Nat := none
  tag : Option Tag := none
  deriving DecidableEq

inductive Node where
  | alias (number : Nat)
  | scalar (properties : Properties) (plain : Bool) (text : String)
  | sequence (properties : Properties) (items : List Node)
  | mapping (properties : Properties) (members : List (Node × Node))

/-- The value of a scalar by its tag and its spelling. -/
def scalarValue? (tag : Option Tag) (plain : Bool) (text : String) : Option Json :=
  match tag with
  | none =>
    if plain then match resolve text with
      | .value v => some v
      | .tooLarge => none
    else some (.string text)
  | some .null => if isNull text then some .null else none
  | some .bool => match resolve text with
    | .value (.bool b) => some (.bool b)
    | _ => none
  | some .int => match resolve text with
    | .value (.number (.integer n h)) => some (.number (.integer n h))
    | _ => none
  | some .float =>
    if notFinite.contains text then some .null
    else (decimal? text.toList).map fun x => .number (.real x)
  | some .shared => some (.string text)
  | some .bare | some .own => none

namespace Node

mutual

/-- The nodes that carry a number, in the order in which they begin. -/
def numbered : Node → List (Nat × Node)
  | .alias _ => []
  | .scalar p plain text => (p.number.map (·, Node.scalar p plain text)).toList
  | .sequence p items => (p.number.map (·, Node.sequence p items)).toList ++ numberedItems items
  | .mapping p members =>
    (p.number.map (·, Node.mapping p members)).toList ++ numberedMembers members

def numberedItems : List Node → List (Nat × Node)
  | [] => []
  | n :: rest => numbered n ++ numberedItems rest

def numberedMembers : List (Node × Node) → List (Nat × Node)
  | [] => []
  | (key, n) :: rest => numbered key ++ numbered n ++ numberedMembers rest

end

mutual

/-- The size of a node: each collection counts for its two ends. -/
def size : Node → Nat
  | .alias _ | .scalar .. => 1
  | .sequence _ items => itemsSize items + 2
  | .mapping _ members => membersSize members + 2

def itemsSize : List Node → Nat
  | [] => 0
  | n :: rest => size n + itemsSize rest

def membersSize : List (Node × Node) → Nat
  | [] => 0
  | (key, n) :: rest => size key + size n + membersSize rest

end

/-- A computation that may fail and has a number of aliases left to follow. -/
abbrev Following := StateT Nat Option

/-- The node that a node stands for. -/
def target (named : List (Nat × Node)) : Node → Following Node
  | .alias number => do
    match ← get with
    | 0 => failure
    | left + 1 =>
      set left
      match named.lookup number with
      | some n => return n
      | none => failure
  | n => return n

def keyText (named : List (Nat × Node)) (n : Node) : Following String := do
  match ← target named n with
  | .scalar _ _ text => return text
  | _ => failure

/-- Whether a tag may stand on a collection. -/
def isCollectionTag (tag : Option Tag) : Bool := tag ≠ some .bare && tag ≠ some .own

/-- The document of a node, with `levels` of nesting left. -/
def build (named : List (Nat × Node)) (levels : Nat) (node : Node) : Following Json := do
  match ← target named node, levels with
  | .scalar p plain text, _ => scalarValue? p.tag plain text
  | .sequence p items, levels + 1 =>
    if !isCollectionTag p.tag then failure
    return .array (← items.mapM (build named levels))
  | .mapping p members, levels + 1 =>
    if !isCollectionTag p.tag then failure
    let ms ← members.mapM fun (key, n) => do
      let k ← keyText named key
      return (k, ← build named levels n)
    return .object (Json.distinctMembers ms)
  | _, _ => failure

/-- The document of a node with at most so many levels of nesting. -/
def toJson? (levels : Nat) (node : Node) : Option Json :=
  ((build node.numbered.reverse levels node).run (100 * node.size)).map Prod.fst

end Node

end EndpointTree.Yaml
