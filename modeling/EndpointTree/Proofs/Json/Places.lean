import EndpointTree.Proofs.Json.Members

/-!
# Places in a document

A place in a document is reached by keys, one after another, through the members of
objects. Lists are not entered: what stands in a list has no place of its own.

* `Json.at?` is the value at a place, and `Json.places` lists all places (`Json.mem_places`).
* `Json.WellFormed.distinct`: in a well-formed document every object at a place has its
  keys once.
-/

namespace EndpointTree.Json

/-- The value that the keys lead to, one after another. -/
def at? : Json → List String → Option Json
  | v, [] => some v
  | v, key :: path => (v.member? key).bind fun held => at? held path

/-- The four shapes of a document. -/
inductive Shape where
  | nothing | scalar | list | object
  deriving DecidableEq, Repr

/-- Which of the four shapes a value has. -/
def shape : Json → Shape
  | .null => .nothing
  | .bool _ | .number _ | .string _ => .scalar
  | .array _ => .list
  | .object _ => .object

mutual

/-- All places of a document, and what stands there. -/
def places : Json → List (List String × Json)
  | .object members => ([], .object members) :: placesBelow members
  | other => [([], other)]

/-- The places that are reached through the given members. -/
def placesBelow : List (String × Json) → List (List String × Json)
  | [] => []
  | (key, value) :: rest => (places value).map (fun p => (key :: p.1, p.2)) ++ placesBelow rest

end

variable {v w : Json} {key : String} {path : List String}

/-- A way in two parts is gone one part after the other. -/
theorem at?_append (v : Json) (path further : List String) :
    v.at? (path ++ further) = (v.at? path).bind fun held => held.at? further := by
  induction path generalizing v with
  | nil => rfl
  | cons key rest ih =>
    rw [List.cons_append, at?, at?]
    cases v.member? key with
    | none => rfl
    | some held => exact ih held

/-- The first step of a way goes to the member under its key. -/
theorem at?_of_member? (held : v.member? key = some w) (path : List String) :
    v.at? (key :: path) = w.at? path := by
  rw [at?, held]
  rfl

theorem shape_eq_nothing_iff : v.shape = .nothing ↔ v = .null := by
  cases v <;> simp [shape]

theorem shape_eq_list_iff : v.shape = .list ↔ ∃ items, v = .array items := by
  cases v <;> simp [shape]

theorem shape_eq_object_iff : v.shape = .object ↔ ∃ members, v = .object members := by
  cases v <;> simp [shape]

/-- Only objects have places below them. -/
theorem exists_of_member? (held : v.member? key = some w) :
    ∃ members, v = .object members ∧ (key, w) ∈ members := by
  cases v with
  | object members => exact ⟨members, rfl, mem_of_lookup held⟩
  | null | bool | number | string | array => cases held

/-- Anything but an object has no members. -/
theorem member?_eq_none_of_shape (other : v.shape ≠ .object) (key : String) :
    v.member? key = none := by
  refine Option.eq_none_iff_forall_ne_some.mpr fun w held => ?_
  obtain ⟨members, rfl, -⟩ := exists_of_member? held
  exact other rfl

theorem mem_placesBelow {members : List (String × Json)} (held : (key, v) ∈ members)
    (below : (path, w) ∈ v.places) : (key :: path, w) ∈ placesBelow members := by
  induction members with
  | nil => cases held
  | cons m rest ih =>
    rw [placesBelow]
    rcases List.mem_cons.mp held with rfl | held
    · exact List.mem_append_left _ (List.mem_map.mpr ⟨(path, w), below, rfl⟩)
    · exact List.mem_append_right _ (ih held)

/-- The listing of places leaves none of them out. -/
theorem mem_places (found : v.at? path = some w) : (path, w) ∈ v.places := by
  induction path generalizing v with
  | nil =>
    cases found
    cases w <;> exact List.mem_cons_self
  | cons key rest ih =>
    obtain ⟨held, heldEq, below⟩ := Option.bind_eq_some_iff.mp found
    obtain ⟨members, rfl, member⟩ := exists_of_member? heldEq
    exact List.mem_cons_of_mem _ (mem_placesBelow member (ih below))

/-- Each member of a well-formed object is well-formed. -/
theorem wellFormed_of_mem {members : List (String × Json)} (sound : WellFormedMembers members)
    {m : String × Json} (member : m ∈ members) : m.2.WellFormed := by
  induction members with
  | nil => cases member
  | cons first rest ih =>
    rw [WellFormedMembers] at sound
    rcases List.mem_cons.mp member with rfl | member
    · exact sound.1
    · exact ih sound.2 member

/-- What stands at a place of a well-formed document is well-formed. -/
theorem WellFormed.at? (sound : v.WellFormed) (found : v.at? path = some w) : w.WellFormed := by
  induction path generalizing v with
  | nil =>
    cases found
    exact sound
  | cons key rest ih =>
    obtain ⟨held, heldEq, below⟩ := Option.bind_eq_some_iff.mp found
    obtain ⟨members, rfl, member⟩ := exists_of_member? heldEq
    rw [WellFormed] at sound
    exact ih (wellFormed_of_mem sound.2 member) below

/-- An object anywhere in a well-formed document names no key twice. -/
theorem WellFormed.distinct (sound : v.WellFormed) {members : List (String × Json)}
    (found : v.at? path = some (.object members)) : (keys members).Nodup := by
  have here := sound.at? found
  rw [WellFormed] at here
  exact here.1

end EndpointTree.Json
