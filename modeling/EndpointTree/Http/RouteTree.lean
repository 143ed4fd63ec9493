import EndpointTree.Http.PathPattern

/-!
# Trees of routes

Patterns with a common start share it in a tree. A node has a text, entries that go
on with different characters, and at most one that goes on with a parameter or a
rest. A path follows characters first; where that leads nowhere, it turns back to
the nearest node behind it that has a parameter or a rest.

A path that fails for the sake of a slash at its end alone does not turn back: where
one slash is left over, or where one slash is missing in front of an entry.

* `RouteTree.insert?` adds a pattern, unless it is at odds with those in the tree.
* `RouteTree.find?` is the entry for a path, with what its parameters took.
-/

namespace EndpointTree.Http

mutual

/-- A node: its text, the entry that ends here, and what goes on from here. -/
inductive RouteTree (α : Type) where
  | node (text : List Char) (entry : Option α) (fixed : List (RouteTree α)) (wild : Wild α)

/-- What goes on with a parameter or a rest. -/
inductive Wild (α : Type) where
  | none
  /-- A parameter, the entry that ends with it, and what follows its slash. -/
  | param (entry : Option α) (next : Option (RouteTree α))
  | rest (entry : α)

end

/-- What became of a path at a node. -/
inductive Outcome (α : Type) where
  | found (entry : α) (taken : List (List Char))
  /-- There is no entry here, but there may be one at an earlier turn. -/
  | back
  /-- There is no entry at all. -/
  | stop

namespace RouteTree

variable {α : Type}

def empty : RouteTree α := .node [] none [] .none

def text : RouteTree α → List Char
  | .node text _ _ _ => text

/-- What goes on from a node with a parameter or a rest. -/
def wild : RouteTree α → Wild α
  | .node _ _ _ wild => wild

/-- Whether a node's text starts with a character. -/
def startsWith (c : Char) (t : RouteTree α) : Bool := t.text.head? = some c

/-! ## Adding -/

/--
The node for a pattern behind a text, which is reversed. A rest must stand behind a
slash where the text is not blank.
-/
def ofPattern? (entry : α) (front : List Char) : PathPattern → Option (RouteTree α)
  | [] => some (.node front.reverse (some entry) [] .none)
  | .char c :: parts => ofPattern? entry (c :: front) parts
  | .rest _ :: _ =>
    if front.head?.all (· = '/') then some (.node front.reverse none [] (.rest entry)) else none
  | .param _ :: [] => some (.node front.reverse none [] (.param (some entry) none))
  | .param _ :: parts => do
    let next ← ofPattern? entry [] parts
    return .node front.reverse none [] (.param none (some next))

/-- How many characters a text and a pattern have in common at the start. -/
def shared : List Char → PathPattern → Nat
  | c :: text, .char d :: parts => if c = d then shared text parts + 1 else 0
  | _, _ => 0

/-- A node divided behind so many characters of its text. -/
def divided (length : Nat) : RouteTree α → RouteTree α
  | .node text entry fixed wild =>
    if length < text.length then
      .node (text.take length) none [.node (text.drop length) entry fixed wild] .none
    else .node text entry fixed wild

/-- Let a parameter or a rest go on with a pattern; `insert?` adds to the nodes further down. -/
def extendWild? (entry : α) (insert? : RouteTree α → PathPattern → Option (RouteTree α)) :
    Wild α → PathPattern → Option (Wild α)
  | .none, parts => (ofPattern? entry [] parts).map wild
  | .param none next, [.param _] => some (.param (some entry) next)
  | .param other none, .param _ :: part :: parts =>
    (ofPattern? entry [] (part :: parts)).map fun next => .param other (some next)
  | .param other (some next), .param _ :: part :: parts =>
    (insert? next (part :: parts)).map fun next => .param other (some next)
  | _, _ => none

/-- Let a node go on with what a pattern has behind its text; `insert?` adds to the nodes
further down. -/
def extend? (entry : α) (insert? : RouteTree α → PathPattern → Option (RouteTree α)) :
    RouteTree α → PathPattern → Option (RouteTree α)
  | .node text here fixed wild, [] =>
    if here.isSome then none else some (.node text (some entry) fixed wild)
  | .node text here fixed wild, .char c :: parts =>
    if fixed.any (startsWith c) then do
      let fixed ← fixed.mapM fun t =>
        if t.startsWith c then insert? t (.char c :: parts) else some t
      return .node text here fixed wild
    else do
      let t ← ofPattern? entry [] (.char c :: parts)
      return .node text here (fixed ++ [t]) wild
  | .node text here fixed wild, parts =>
    (extendWild? entry insert? wild parts).map (.node text here fixed)

/-- Add a pattern to a tree; `fuel` bounds the nodes on its way. -/
def insertAt? (entry : α) : Nat → RouteTree α → PathPattern → Option (RouteTree α)
  | 0, _, _ => none
  | fuel + 1, tree, pattern =>
    let length := shared tree.text pattern
    extend? entry (insertAt? entry fuel) (tree.divided length) (pattern.drop length)

/-- Add a pattern to a tree. -/
def insert? (tree : RouteTree α) (pattern : PathPattern) (entry : α) : Option (RouteTree α) :=
  insertAt? entry (pattern.length + 2) tree pattern

/-! ## Looking up -/

/-- The outcome where a path cannot go on: a lone slash does not turn back. -/
def failed (path : List Char) : Outcome α := if path = ['/'] then .stop else .back

/--
Follow a path from a node; `taken` has what the parameters in front of it took, in
reverse, and `fuel` bounds the nodes on a way.
-/
def follow (fuel : Nat) (taken : List (List Char)) (path : List Char) (tree : RouteTree α) :
    Outcome α :=
  match fuel with
  | 0 => .stop
  | fuel + 1 =>
    let .node text entry fixed wild := tree
    let rest := path.drop text.length
    if !(text.isPrefixOf path) then
      if entry.isSome && text = path ++ ['/'] then .stop else failed path
    else if rest.isEmpty then
      match entry with
      | some entry => .found entry taken.reverse
      | none => failed path
    else
      let along (_ : Unit) : Outcome α := match wild with
        | .none => failed rest
        | .rest entry => .found entry (rest :: taken).reverse
        | .param entry next =>
          let value := rest.takeWhile (· ≠ '/')
          match rest.drop value.length, next with
          | [], _ => match entry, next with
            | some entry, _ => .found entry (value :: taken).reverse
            | none, some (.node text here _ _) =>
              if text = ['/'] && here.isSome then .stop else .back
            | none, none => .stop
          | further, none => failed further
          | further, some next =>
            if entry.isSome && further = ['/'] && next.text ≠ ['/'] then .stop
            else follow fuel (value :: taken) further next
      match rest.head?.bind fun c => fixed.find? (startsWith c) with
      | none => along ()
      | some t =>
        if entry.isSome && rest = ['/'] && t.text ≠ ['/'] then .stop
        else match follow fuel taken rest t, wild with
          | .back, .none => .back
          | .back, _ => along ()
          | outcome, _ => outcome

/-- The entry for a path, with what its parameters took. -/
def find? (tree : RouteTree α) (path : List Char) : Option (α × List (List Char)) :=
  match follow (path.length + 2) [] path tree with
  | .found entry taken => some (entry, taken)
  | .back | .stop => none

end RouteTree

end EndpointTree.Http
