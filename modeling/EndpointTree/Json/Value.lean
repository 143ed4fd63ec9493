import EndpointTree.Json.Number
import EndpointTree.Pairs

/-!
# Documents

A `Json` value keeps the members of its objects in the order in which they were
written, because printing, merging and compiling all follow that order. The
operations on members keep a key at its first place.

`Json.WellFormed` says that no object repeats a key; every document that is read
satisfies it.
-/

namespace EndpointTree

/-- A document, with object members in written order. -/
inductive Json where
  | null
  | bool (value : Bool)
  | number (value : Number)
  | string (value : String)
  | array (items : List Json)
  | object (members : List (String × Json))

instance : Inhabited Json := ⟨.null⟩

namespace Json

mutual

/-- Structural equality of documents, member order included. -/
def decEq : (a b : Json) → Decidable (a = b)
  | .null, b => match b with
    | .null => isTrue rfl
    | .bool _ | .number _ | .string _ | .array _ | .object _ => isFalse (by simp)
  | .bool x, b => match b with
    | .bool y => decidable_of_iff (x = y) (by simp)
    | .null | .number _ | .string _ | .array _ | .object _ => isFalse (by simp)
  | .number x, b => match b with
    | .number y => decidable_of_iff (x = y) (by simp)
    | .null | .bool _ | .string _ | .array _ | .object _ => isFalse (by simp)
  | .string x, b => match b with
    | .string y => decidable_of_iff (x = y) (by simp)
    | .null | .bool _ | .number _ | .array _ | .object _ => isFalse (by simp)
  | .array xs, b => match b with
    | .array ys => match decEqItems xs ys with
      | isTrue h => isTrue (by rw [h])
      | isFalse h => isFalse (by simpa using h)
    | .null | .bool _ | .number _ | .string _ | .object _ => isFalse (by simp)
  | .object xs, b => match b with
    | .object ys => match decEqMembers xs ys with
      | isTrue h => isTrue (by rw [h])
      | isFalse h => isFalse (by simpa using h)
    | .null | .bool _ | .number _ | .string _ | .array _ => isFalse (by simp)

/-- Structural equality of lists of documents. -/
def decEqItems : (xs ys : List Json) → Decidable (xs = ys)
  | [], [] => isTrue rfl
  | [], _ :: _ => isFalse (by simp)
  | _ :: _, [] => isFalse (by simp)
  | x :: xs, y :: ys => match decEq x y, decEqItems xs ys with
    | isTrue h, isTrue t => isTrue (by rw [h, t])
    | isFalse h, _ => isFalse (by simp [h])
    | _, isFalse t => isFalse (by simp [t])

/-- Structural equality of members, keys and order included. -/
def decEqMembers : (xs ys : List (String × Json)) → Decidable (xs = ys)
  | [], [] => isTrue rfl
  | [], _ :: _ => isFalse (by simp)
  | _ :: _, [] => isFalse (by simp)
  | (k, x) :: xs, (l, y) :: ys => match decEq x y, decEqMembers xs ys with
    | isTrue h, isTrue t =>
      if e : k = l then isTrue (by rw [h, t, e]) else isFalse (by simp [e])
    | isFalse h, _ => isFalse (by simp [h])
    | _, isFalse t => isFalse (by simp [t])

end

instance : DecidableEq Json := decEq

/-! ## Members -/

/-- The members under other keys than `key`. -/
def eraseMember (key : String) (members : List (String × Json)) : List (String × Json) :=
  members.filter fun m => m.1 ≠ key

/-- Members in the order of their first appearance, each with its last value. -/
def distinctMembers (members : List (String × Json)) : List (String × Json) :=
  members.foldl (fun acc m => Pairs.put m.1 m.2 acc) []

/-- The member of an object under `key`. -/
def member? (key : String) : Json → Option Json
  | .object members => members.lookup key
  | _ => none

/-- The text of a string. -/
def string? : Json → Option String
  | .string s => some s
  | _ => none

/-- The members of an object. -/
def members? : Json → Option (List (String × Json))
  | .object members => some members
  | _ => none

/-- The items of a list. -/
def items? : Json → Option (List Json)
  | .array items => some items
  | _ => none

/-- The truth value of a flag. -/
def bool? : Json → Option Bool
  | .bool b => some b
  | _ => none

/-- Whether a value is `null`. -/
def isNull : Json → Bool
  | .null => true
  | _ => false

/-- The list of some texts. -/
def strings (texts : List String) : Json := .array (texts.map .string)

/-! ## Distinct keys -/

mutual

/-- No object inside repeats a key. -/
def WellFormed : Json → Prop
  | .array items => WellFormedItems items
  | .object members => (members.map (·.1)).Nodup ∧ WellFormedMembers members
  | _ => True

/-- No object inside the items repeats a key. -/
def WellFormedItems : List Json → Prop
  | [] => True
  | x :: rest => WellFormed x ∧ WellFormedItems rest

/-- No object inside the values of the members repeats a key. -/
def WellFormedMembers : List (String × Json) → Prop
  | [] => True
  | (_, x) :: rest => WellFormed x ∧ WellFormedMembers rest

end

mutual

/-- Settle repeated keys in every object: the first place, the last value. -/
def settled : Json → Json
  | .array items => .array (settledItems items)
  | .object members => .object (distinctMembers (settledMembers members))
  | other => other

/-- Settle repeated keys inside each of the items. -/
def settledItems : List Json → List Json
  | [] => []
  | x :: rest => settled x :: settledItems rest

/-- Settle repeated keys inside the values, not among the members themselves. -/
def settledMembers : List (String × Json) → List (String × Json)
  | [] => []
  | (k, x) :: rest => (k, settled x) :: settledMembers rest

end

end Json

end EndpointTree
