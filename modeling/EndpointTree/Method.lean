/-!
# Methods

An endpoint declares handlers for seven HTTP methods and access rules for those
seven and for the pseudo-method that guards channel subscriptions. A read group
and a write group cover the methods between them; subscribing counts as a read.
-/

namespace EndpointTree

/-- The HTTP methods an endpoint can serve. -/
inductive HttpMethod where
  | get | head | options | post | put | patch | delete
  deriving DecidableEq, Repr

namespace HttpMethod

/-- Every method, in the order used for tables and headers. -/
def all : List HttpMethod := [.get, .head, .options, .post, .put, .patch, .delete]

/-- The name in a request, in upper case. -/
def name : HttpMethod → String
  | .get => "GET"
  | .head => "HEAD"
  | .options => "OPTIONS"
  | .post => "POST"
  | .put => "PUT"
  | .patch => "PATCH"
  | .delete => "DELETE"

/-- The method of a name; names are compared exactly, so lower case names none. -/
def ofName? (key : String) : Option HttpMethod := all.find? fun m => m.name = key

/-- Whether a method is in the read group; every other one is in the write group. -/
def isRead : HttpMethod → Bool
  | .get | .head | .options => true
  | .post | .put | .patch | .delete => false

/-- The place of a method among all methods. -/
def index : HttpMethod → Nat
  | .get => 0
  | .head => 1
  | .options => 2
  | .post => 3
  | .put => 4
  | .patch => 5
  | .delete => 6

theorem mem_all (m : HttpMethod) : m ∈ all := by cases m <;> decide

theorem ofName?_name (m : HttpMethod) : ofName? m.name = some m := by cases m <;> decide

theorem ofName?_eq_some_iff {key : String} {m : HttpMethod} :
    ofName? key = some m ↔ key = m.name := by
  constructor
  · intro found
    have same := List.find?_some found
    exact (of_decide_eq_true same).symm
  · rintro rfl
    exact ofName?_name m

end HttpMethod

/-- What an access rule can be declared for: an HTTP method, or subscribing to a channel. -/
inductive AccessMethod where
  | http (method : HttpMethod)
  | realTime
  deriving DecidableEq, Repr

namespace AccessMethod

instance : Coe HttpMethod AccessMethod := ⟨.http⟩

/-- The HTTP methods in their order, then the pseudo-method. -/
def all : List AccessMethod := HttpMethod.all.map .http ++ [.realTime]

/-- The key under which a rule for the method is declared. -/
def name : AccessMethod → String
  | .http m => m.name
  | .realTime => "realTime"

/-- The method of a declaration key. -/
def ofName? (key : String) : Option AccessMethod :=
  if key = "realTime" then some .realTime else (HttpMethod.ofName? key).map .http

/-- Whether a method is in the read group, as subscribing is. -/
def isRead : AccessMethod → Bool
  | .http m => m.isRead
  | .realTime => true

/-- The place of a method among all methods. -/
def index : AccessMethod → Nat
  | .http m => m.index
  | .realTime => 7

theorem mem_all (m : AccessMethod) : m ∈ all := by
  cases m with
  | http m => simp [all, HttpMethod.mem_all]
  | realTime => simp [all]

theorem ofName?_name (m : AccessMethod) : ofName? m.name = some m := by
  cases m with
  | http m => cases m <;> decide
  | realTime => rfl

theorem ofName?_eq_some_iff {key : String} {m : AccessMethod} :
    ofName? key = some m ↔ key = m.name := by
  constructor
  · intro found
    unfold ofName? at found
    split at found
    · next isRealTime =>
      cases found
      exact isRealTime
    · obtain ⟨http, named, rfl⟩ := Option.map_eq_some_iff.mp found
      exact HttpMethod.ofName?_eq_some_iff.mp named
  · rintro rfl
    exact ofName?_name m

end AccessMethod

end EndpointTree
