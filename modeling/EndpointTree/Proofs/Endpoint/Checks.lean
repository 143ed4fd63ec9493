import EndpointTree.Proofs.Endpoint.FailClosed

/-!
# What has to hold of a document for it to be read

Reading a document makes one check after another, depth first and in written order: that an
endpoint is an object, that a section is one, that what a section lists are names, that a
collection is named by a string, that cross-origin settings can be read. The stages of a
real-time section come in an order of their own. Everything else is left unchecked; `auth`
in particular is read whatever it is. The first check that does not hold gives the fault.

* `Declaration.checks` lists the checks of a document, `Declaration.Check.Holds` says what
  each of them asks.
* `Declaration.faultIn_ofJson`: the fault in reading is that of the first one that fails.
-/

namespace EndpointTree

/-- The fault in a result, if it has one. -/
def faultIn {ε α : Type} : Except ε α → Option ε
  | .ok _ => none
  | .error fault => some fault

section FaultIn

variable {ε α β : Type} {x : Except ε α}

/-- There is no fault in a result that there is. -/
theorem faultIn_eq_none_iff : faultIn x = none ↔ ∃ a, x = .ok a := by
  cases x with
  | ok a => exact ⟨fun _ => ⟨a, rfl⟩, fun _ => rfl⟩
  | error fault => exact ⟨nofun, nofun⟩

theorem faultIn_eq_some_iff {fault : ε} : faultIn x = some fault ↔ x = .error fault := by
  cases x with
  | ok a => exact ⟨nofun, nofun⟩
  | error fault => rw [faultIn, Option.some_inj, Except.error.injEq]

@[simp]
theorem faultIn_map (f : α → β) : faultIn (x.map f) = faultIn x := by
  cases x <;> rfl

/-- The fault in two steps is that of the first one, or else that of the second. -/
theorem faultIn_bind {f : α → Except ε β} {first second : Option ε} (here : faultIn x = first)
    (next : ∀ a, faultIn (f a) = second) : faultIn (x >>= f) = first.or second := by
  rw [← here]
  cases x with
  | ok a => exact next a
  | error fault => rfl

@[simp]
theorem faultIn_bind_pure (f : α → β) : faultIn (x >>= fun a => pure (f a)) = faultIn x := by
  cases x <;> rfl

end FaultIn

namespace Declaration

/-- A single thing that has to hold of a document. -/
inductive Check where
  /-- The endpoint at the path is an object. -/
  | node (path : String) (value : Json)
  /-- The section under the key is an object. -/
  | table (path key : String) (value : Json)
  /-- What a section has under a key is a name or a list of names. -/
  | names (path key : String) (value : Json)
  /-- The collection is a string. -/
  | collection (path : String) (value : Json)
  /-- The cross-origin settings can be read. -/
  | cors (path : String) (value : Json)

namespace Check

/-- What a check asks of its value. -/
def Holds : Check → Prop
  | .node _ value | .table _ _ value => ∃ members, value = .object members
  | .names _ _ value => IsNames value
  | .collection _ value => ∃ name, value = .string name
  | .cors _ value => ∃ cors, Cors.ofJson value = .ok cors

/-- The fault of a check that does not hold. -/
def fault? : Check → Option Fault
  | .node path value => if value.members?.isSome then none else some (.notANode path)
  | .table path key value => if value.members?.isSome then none else some (.notASection path key)
  | .names path key value => if (names? value).isSome then none else some (.notNames path key)
  | .collection path value =>
    if value.string?.isSome then none else some (.notASection path "collection")
  | .cors path value => (faultIn (Cors.ofJson value)).map (.cors path)

/-- A check finds a fault in just what does not hold. -/
theorem fault?_eq_none_iff (c : Check) : c.fault? = none ↔ c.Holds := by
  cases c with
  | node _ value | table _ _ value => cases value <;> simp [fault?, Holds, Json.members?]
  | collection _ value => cases value <;> simp [fault?, Holds, Json.string?]
  | names => simp [fault?, Holds, ← names?_eq_some_iff, Option.eq_none_iff_forall_ne_some]
  | cors => simp [fault?, Holds, faultIn_eq_none_iff]

end Check

/-! ## The checks of a document -/

/-- The members of an object; any other value has none. -/
def membersOf (value : Json) : List (String × Json) := value.members?.getD []

/-- The keys of a real-time section, in the order in which they are read. -/
def stageKeys : List String := ["connect", "message", "disconnect"]

/-- What a real-time section has under a key, unless that is `null`. -/
def stageValue? (value : Json) (key : String) : Option Json :=
  (value.member? key).filter fun v => !v.isNull

/-- The checks of one setting. -/
def checksOf (path key : String) (value : Json) : List Check :=
  if key = "cors" then [.cors path value]
  else if key = "handlers" ∨ key = "filters" then
    .table path key value :: (membersOf value).map fun m => .names path s!"{key}.{m.1}" m.2
  else if key = "realTime" then
    .table path key value :: stageKeys.flatMap fun stage =>
      (stageValue? value stage).toList.map (.names path s!"realTime.{stage}")
  else if key = "collection" then [.collection path value]
  else []

mutual

/-- The checks of the endpoint at `path` and of everything below it. -/
def checks (path : String) : Json → List Check
  | .object members => .node path (.object members) :: checksIn path members
  | other => [.node path other]

/-- The checks of what an object at `path` has under its keys. -/
def checksIn (path : String) : List (String × Json) → List Check
  | [] => []
  | (key, value) :: rest =>
    (if Path.isChildKey key then checks (Path.join path key) value else checksOf path key value) ++
      checksIn path rest

end

/-! ## Reading -/

/-- The fault of the first check that does not hold. -/
def firstFault? (cs : List Check) : Option Fault := cs.findSome? Check.fault?

/-- Checks in two parts are made one part after the other. -/
theorem firstFault?_append (cs further : List Check) :
    firstFault? (cs ++ further) = (firstFault? cs).or (firstFault? further) :=
  List.findSome?_append

theorem firstFault?_cons (c : Check) (rest : List Check) :
    firstFault? (c :: rest) = c.fault?.or (firstFault? rest) := by
  rw [← List.singleton_append, firstFault?_append]
  rw [firstFault?, List.findSome?_singleton]

/-- No fault is found where every check holds. -/
theorem firstFault?_eq_none_iff {cs : List Check} : firstFault? cs = none ↔ ∀ c ∈ cs, c.Holds := by
  simp only [firstFault?, List.findSome?_eq_none_iff, Check.fault?_eq_none_iff]

/-- The fault found is that of a check before which all hold. -/
theorem firstFault?_eq_some_iff {cs : List Check} {fault : Fault} :
    firstFault? cs = some fault ↔ ∃ before c after, cs = before ++ c :: after ∧
      (∀ c ∈ before, c.Holds) ∧ c.fault? = some fault := by
  simp only [firstFault?, List.findSome?_eq_some_iff, Check.fault?_eq_none_iff, and_comm]

/-- A list of handlers is looked at under every key, also one that names no method. -/
theorem faultIn_handlers (path key : String) (value : Json) :
    faultIn (HandlerLists.ofJson path key value) =
      firstFault? (.table path key value ::
        (membersOf value).map fun m => .names path s!"{key}.{m.1}" m.2) := by
  have listed (members : List (String × Json)) :
      faultIn (HandlerLists.ofMembers path key members) =
        firstFault? (members.map fun m => .names path s!"{key}.{m.1}" m.2) := by
    induction members with
    | nil => rfl
    | cons m rest ih =>
      rw [HandlerLists.ofMembers, List.map_cons, firstFault?_cons, ← ih, Check.fault?]
      cases names? m.2 with
      | none => rfl
      | some names =>
        cases HandlerLists.ofMembers path key rest with
        | error fault => rfl
        | ok lists => cases HandlerScope.ofKey? m.1 <;> rfl
  rw [firstFault?_cons]
  cases value with
  | object members => exact listed members
  | null | bool | number | string | array => rfl

/-- A stage that is absent, or `null`, is nothing to check. -/
theorem faultIn_stageNames (path key : String) (members : List (String × Json)) :
    faultIn (Channel.stageNames path key members) =
      firstFault? ((stageValue? (.object members) key).toList.map
        (.names path s!"realTime.{key}")) := by
  rw [Channel.stageNames, stageValue?, Json.member?]
  cases members.lookup key with
  | none => rfl
  | some value =>
    cases value with
    | null | bool | number | object => rfl
    | string => rfl
    | array items =>
      simp only [Option.filter, Json.isNull, Bool.not_false, if_true, Option.toList_some,
        List.map_cons, List.map_nil, firstFault?_cons, Check.fault?]
      cases names? (.array items) <;> rfl

/-- The stages are read in the order of their own, wherever their keys stand. -/
theorem faultIn_channel (path : String) (value : Json) :
    faultIn (Channel.ofJson path value) =
      firstFault? (.table path "realTime" value :: stageKeys.flatMap fun stage =>
        (stageValue? value stage).toList.map (.names path s!"realTime.{stage}")) := by
  rw [firstFault?_cons]
  cases value with
  | object members =>
    have isTable : (Check.table path "realTime" (.object members)).fault? = none := rfl
    rw [isTable, Option.none_or]
    simp only [stageKeys, List.flatMap_cons, List.flatMap_nil, List.append_nil,
      firstFault?_append, ← faultIn_stageNames]
    exact faultIn_bind rfl fun _ => faultIn_bind rfl fun _ => faultIn_bind_pure _
  | null | bool | number | string | array => rfl

/-- Each setting has the fault of the first of its checks that fails; other keys have none. -/
theorem faultIn_put (path key : String) (value : Json) (d : Declaration) :
    faultIn (put path key value d) = firstFault? (checksOf path key value) := by
  by_cases auth : key = "auth"
  · subst auth
    rfl
  unfold put
  rw [if_neg auth, checksOf]
  by_cases cors : key = "cors"
  · rw [if_pos cors, if_pos cors, firstFault?_cons, Check.fault?]
    cases Cors.ofJson value <;> rfl
  rw [if_neg cors, if_neg cors]
  by_cases handlers : key = "handlers"
  · rw [if_pos handlers, if_pos (.inl handlers), faultIn_map, faultIn_handlers]
  rw [if_neg handlers]
  by_cases filters : key = "filters"
  · rw [if_pos filters, if_pos (.inr filters), faultIn_map, faultIn_handlers]
  rw [if_neg filters, if_neg (not_or.mpr ⟨handlers, filters⟩)]
  by_cases realTime : key = "realTime"
  · subst realTime
    rw [if_pos rfl, if_pos rfl, faultIn_map, faultIn_channel]
  rw [if_neg realTime, if_neg realTime]
  by_cases collection : key = "collection"
  · subst collection
    cases value <;> rfl
  · rw [if_neg collection, if_neg collection]
    rfl

mutual

/-- The fault in reading a document is that of the first check that does not hold. -/
theorem faultIn_ofJson :
    ∀ (raw : Json) (path key : String),
      faultIn (ofJson path key raw) = firstFault? (checks path raw)
  | .object members, path, key => by
    rw [ofJson, checks, firstFault?_cons]
    exact faultIn_ofMembers members path _ _
  | .null, _, _ | .bool _, _, _ | .number _, _, _ | .string _, _, _ | .array _, _, _ => rfl

/-- What an object has under its keys is checked in written order, settings and children alike. -/
theorem faultIn_ofMembers :
    ∀ (members : List (String × Json)) (path : String) (d : Declaration)
      (children : List (Tree Declaration)),
      faultIn (ofMembers path d children members) = firstFault? (checksIn path members)
  | [], _, _, _ => rfl
  | (key, value) :: rest, path, d, children => by
    rw [ofMembers, checksIn, firstFault?_append]
    by_cases child : Path.isChildKey key = true
    · rw [if_pos child, if_pos child, ← faultIn_ofJson value (Path.join path key) key]
      cases ofJson (Path.join path key) key value with
      | error fault => rfl
      | ok t => exact faultIn_ofMembers rest path _ _
    · rw [if_neg child, if_neg child, ← faultIn_put path key value d]
      cases put path key value d with
      | error fault => rfl
      | ok next => exact faultIn_ofMembers rest path _ _

end

end Declaration

end EndpointTree
