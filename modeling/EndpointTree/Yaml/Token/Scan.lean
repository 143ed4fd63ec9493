import EndpointTree.Yaml.Scalars
import EndpointTree.Yaml.Token.Basic

/-!
# Tokens of a text

A key is seen only at the colon behind it, so a place where a key may have begun
is kept in mind, one for block structure and one for each open bracket. Such a
place is given up at the end of its line and after 1024 bytes; in the column of a
block mapping it must turn out to be a key.

* `tokens?` gives the tokens of a text, which has none where it is not well formed.
-/

namespace EndpointTree.Yaml

/-- The longest reach of a key in bytes. -/
def keyReach : Nat := 1024

/-- A place where a key may have begun. -/
structure PossibleKey where
  /-- Whether the place must turn out to be a key. -/
  required : Bool
  /-- How many tokens stand in front of it. -/
  number : Nat
  place : Cursor

/-- Whether a place can no longer be that of a key. -/
def PossibleKey.isStale (k : PossibleKey) (now : Cursor) : Bool :=
  k.place.line < now.line || k.place.offset + keyReach < now.offset

/-- The unread rest of a text and the tokens so far. -/
structure Scan where
  cursor : Cursor
  /-- The tokens so far, latest first. -/
  tokens : List Token := []
  count : Nat := 0
  /-- The columns of the open block collections, innermost first. -/
  columns : List Nat := []
  /-- The possible key of the innermost level. -/
  possible : Option PossibleKey := none
  /-- The possible keys of the levels around it, one for each open bracket. -/
  outer : List (Option PossibleKey) := []
  /-- Whether a key may begin here. -/
  keyAllowed : Bool := true

namespace Scan

/-- Whether a bracket is open. -/
def inFlow (s : Scan) : Bool := !s.outer.isEmpty

/-- The least column right of the innermost block collection. -/
def floor (s : Scan) : Nat :=
  match s.columns with
  | [] => 0
  | column :: _ => column + 1

def push (s : Scan) (t : Token) : Scan := { s with tokens := t :: s.tokens, count := s.count + 1 }

/-- Put a token behind the first `number` ones. -/
def insert (s : Scan) (number : Nat) (t : Token) : Scan :=
  let later := s.count - number
  { s with tokens := s.tokens.take later ++ t :: s.tokens.drop later, count := s.count + 1 }

/-- Add a token and move over its mark. -/
def mark (s : Scan) (t : Token) (length : Nat) : Scan :=
  { s.push t with cursor := s.cursor.advance length }

/-- Whether keys may begin from here on. -/
def allowKey (s : Scan) (allowed : Bool) : Scan := { s with keyAllowed := allowed }

/-- Close the block collections right of a column, or all of them. -/
def unroll (s : Scan) (column : Option Nat) : Scan :=
  if s.inFlow then s
  else
    let closed := s.columns.takeWhile fun c => column.all (· < c)
    { s with
      columns := s.columns.drop closed.length
      tokens := List.replicate closed.length Token.blockEnd ++ s.tokens
      count := s.count + closed.length }

/-- Open a block collection where its column is right of the innermost one. -/
def roll (s : Scan) (column number : Nat) (t : Token) : Scan :=
  if s.inFlow || column < s.floor then s
  else { s with columns := column :: s.columns }.insert number t

/-- Forget the possible key of this level, unless it has to be one. -/
def dropKey? (s : Scan) : Option Scan :=
  if s.possible.any (·.required) then none else some { s with possible := none }

/-- Remember this place as one where a key may begin. -/
def saveKey? (s : Scan) : Option Scan :=
  if !s.keyAllowed then some s
  else do
    let s ← s.dropKey?
    let required := !s.inFlow && s.columns.head? = some s.cursor.column
    return { s with possible := some ⟨required, s.count, s.cursor⟩ }

/--
Give up the possible key of this level if it has become stale. The levels around it
are looked at when their brackets are closed, since what is stale stays so.
-/
def dropStale? (s : Scan) : Option Scan :=
  if s.possible.any (·.isStale s.cursor) then s.dropKey? else some s

/-- Move over blanks, comments and line breaks, of at most as many lines as `steps`. -/
def skipGaps (s : Scan) : Nat → Scan
  | 0 => s
  | steps + 1 =>
    let c := if s.cursor.column = 0 && s.cursor.ahead ['\ufeff'] then s.cursor.step else s.cursor
    let tabs := s.inFlow || !s.keyAllowed
    let (_, c) := c.span fun x => x = ' ' || (tabs && x = '\t')
    let c := c.skipComment
    match c.lineBreak? with
    | some (_, next) =>
      { s with cursor := next, keyAllowed := s.keyAllowed || !s.inFlow }.skipGaps steps
    | none => { s with cursor := c }

/-! ## One token -/

/-- End the block structure in front of a directive, a mark or the end. -/
def endBlocks? (s : Scan) : Option Scan := do
  return (← (s.unroll none).dropKey?).allowKey false

def directive? (s : Scan) : Option Scan := do
  let s ← s.endBlocks?
  let (d, cursor) ← Yaml.directive? s.cursor
  return { s.push (.directive d) with cursor }

def openBracket? (s : Scan) (t : Token) : Option Scan := do
  let s ← s.saveKey?
  let s := { s with outer := s.possible :: s.outer, possible := none }
  return (s.allowKey true).mark t 1

def closeBracket? (s : Scan) (t : Token) : Option Scan := do
  let s ← s.dropKey?
  let s := match s.outer with
    | [] => s
    | possible :: outer => { s with possible, outer }
  return (s.allowKey false).mark t 1

def item? (s : Scan) : Option Scan := do
  if !s.inFlow && !s.keyAllowed then none
  let s ← (s.roll s.cursor.column s.count .blockSequence).dropKey?
  return (s.allowKey true).mark .item 1

/-- Read the mark of a key that is a node of its own. -/
def keyMark? (s : Scan) : Option Scan := do
  if !s.inFlow && !s.keyAllowed then none
  let s ← (s.roll s.cursor.column s.count .blockMapping).dropKey?
  return (s.allowKey (!s.inFlow)).mark .key 1

/-- Read the colon in front of a value; what stood at the possible key is a key then. -/
def valueMark? (s : Scan) : Option Scan :=
  match s.possible with
  | some k =>
    let s := (s.insert k.number .key).roll k.place.column k.number .blockMapping
    some (({ s with possible := none }.allowKey false).mark .value 1)
  | none =>
    if !s.inFlow && !s.keyAllowed then none
    else
      let s := s.roll s.cursor.column s.count .blockMapping
      some ((s.allowKey (!s.inFlow)).mark .value 1)

/-- Read an alias, a name, a tag or a scalar, at which a key may begin. -/
def word? (s : Scan) (read : Cursor → Option (Token × Bool × Cursor)) : Option Scan := do
  let s ← s.saveKey?
  let (t, crossed, cursor) ← read s.cursor
  return { s.push t with cursor, keyAllowed := crossed }

/-- Read a block scalar. -/
def block? (s : Scan) (literal : Bool) : Option Scan := do
  let s ← s.dropKey?
  let (text, cursor) ← blockScalar? literal s.floor s.cursor.step
  return { (s.allowKey true).push (.scalar false text) with cursor }

/-- Read the token that begins with a character. -/
def token? (s : Scan) (first : Char) : Option Scan :=
  let c := s.cursor
  let named (t : String → Token) (c : Cursor) : Option (Token × Bool × Cursor) :=
    (nodeName? c).map fun (name, behind) => (t name, false, behind)
  let quoted (double : Bool) (c : Cursor) : Option (Token × Bool × Cursor) :=
    (quotedScalar? double c).map fun (text, behind) => (.scalar false text, false, behind)
  if c.column = 0 && first = '%' then s.directive?
  else if c.atMarkOf '-' then return (← s.endBlocks?).mark .documentStart 3
  else if c.atMarkOf '.' then return (← s.endBlocks?).mark .documentEnd 3
  else if first = '[' then s.openBracket? .flowSequence
  else if first = '\x7b' then s.openBracket? .flowMapping
  else if first = ']' then s.closeBracket? .flowSequenceEnd
  else if first = '\x7d' then s.closeBracket? .flowMappingEnd
  else if first = ',' then return ((← s.dropKey?).allowKey true).mark .comma 1
  else if c.atLone '-' then s.item?
  else if first = '?' && (s.inFlow || c.atLone '?') then s.keyMark?
  else if first = ':' && (s.inFlow || c.atLone ':') then s.valueMark?
  else if first = '*' then s.word? (named .alias)
  else if first = '&' then s.word? (named .anchor)
  else if first = '!' then
    s.word? fun c => (tag? s.inFlow c).map fun (handle, text, behind) =>
      (.tag handle text, false, behind)
  else if first = '|' && !s.inFlow then s.block? true
  else if first = '>' && !s.inFlow then s.block? false
  else if first = '\'' then s.word? (quoted false)
  else if first = '"' then s.word? (quoted true)
  else if startsPlain s.inFlow c.rest then
    s.word? fun c => (plainScalar? s.inFlow s.floor c).map fun (text, crossed, behind) =>
      (.scalar true text, crossed, behind)
  else none

/-- Read the remaining tokens, of at most as many characters as `steps`. -/
def run? (s : Scan) : Nat → Option (List Token)
  | 0 => none
  | steps + 1 => do
    let s ← (s.skipGaps (s.cursor.size + 1)).dropStale?
    let s := s.unroll (some s.cursor.column)
    match s.cursor.rest with
    | [] => return (Token.textEnd :: (← s.endBlocks?).tokens).reverse
    | first :: _ => (← s.token? first).run? steps

end Scan

def tokens? (text : List Char) : Option (List Token) :=
  if text.all isReadable then Scan.run? { cursor := .ofText text } (text.length + 1) else none

end EndpointTree.Yaml
