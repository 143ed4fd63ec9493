/-!
# Trees

Endpoints form a tree both as they are declared and as they are compiled. The
order of a listing is the same everywhere: a node before its children, the
children in the order in which they were declared.
-/

namespace EndpointTree

/-- A value with subtrees in order. -/
inductive Tree (α : Type) where
  | node (value : α) (children : List (Tree α))

namespace Tree

variable {α : Type}

def value : Tree α → α
  | .node value _ => value

def children : Tree α → List (Tree α)
  | .node _ children => children

mutual

/-- The tree and all trees below it, each before its own subtrees. -/
def subtrees : Tree α → List (Tree α)
  | .node value children => .node value children :: subtreesOf children

def subtreesOf : List (Tree α) → List (Tree α)
  | [] => []
  | t :: rest => subtrees t ++ subtreesOf rest

end

/-- All values, each before those below it. -/
def values (t : Tree α) : List α := t.subtrees.map value

mutual

/-- Whether a value somewhere in the tree passes the test. -/
def anyValue (test : α → Bool) : Tree α → Bool
  | .node value children => test value || anyValueOf test children

/-- Whether a value somewhere in the trees passes the test. -/
def anyValueOf (test : α → Bool) : List (Tree α) → Bool
  | [] => false
  | t :: rest => anyValue test t || anyValueOf test rest

end

end Tree

end EndpointTree
