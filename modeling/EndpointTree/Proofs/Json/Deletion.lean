import EndpointTree.Proofs.Json.Fragments

/-!
# Members taken away

A `null` that is laid over a document takes the member at its place away, however deep, as
long as the objects of the document lead there; whether they have the member itself does not
matter. Where a list stands on the way, what is laid over it becomes one of its items, and
the place is gone as well.

* `Json.Reaches` says to which places a document leads.
* `Json.at?_merge_of_null` and `Json.null_of_at?_merge`: which of the places with `null` are
  gone, and where a `null` comes from.
* `Json.merge_merge`: what is laid over a document once more changes nothing, but for lists.
-/

namespace EndpointTree.Json

/-- A document leads to a place: it has objects on the way there, of which the last need not
have the key that is left, or a list somewhere before that. -/
inductive Reaches : Json → List String → Prop
  | last (members : List (String × Json)) (key : String) : Reaches (.object members) [key]
  | list (items : List Json) (key : String) (path : List String) :
    Reaches (.array items) (key :: path)
  | next {members : List (String × Json)} {key : String} {held : Json} {path : List String} :
    members.lookup key = some held → Reaches held path → Reaches (.object members) (key :: path)

variable {left right : Json} {key : String} {path : List String}

/-- A single key is reached in a list or an object, whether or not it is there. -/
theorem reaches_singleton_iff : Reaches left [key] ↔ left.shape = .list ∨ left.shape = .object := by
  constructor
  · intro reaches
    cases reaches with
    | last => exact .inr rfl
    | list => exact .inl rfl
    | next => exact .inr rfl
  · intro shapes
    rcases shapes with list | object
    · obtain ⟨items, rfl⟩ := shape_eq_list_iff.mp list
      exact .list items key []
    · obtain ⟨members, rfl⟩ := shape_eq_object_iff.mp object
      exact .last members key

/-- Beyond a key, a place is reached from the member under it. -/
theorem reaches_cons_iff (further : path ≠ []) :
    Reaches left (key :: path) ↔
      left.shape = .list ∨ ∃ held, left.member? key = some held ∧ Reaches held path := by
  constructor
  · intro reaches
    cases reaches with
    | last => exact absurd rfl further
    | list => exact .inl rfl
    | next found reaches => exact .inr ⟨_, found, reaches⟩
  · intro holds
    rcases holds with list | ⟨held, found, reaches⟩
    · obtain ⟨items, rfl⟩ := shape_eq_list_iff.mp list
      exact .list items key path
    · obtain ⟨members, rfl, -⟩ := exists_of_member? found
      exact .next found reaches

/-- Through a member, a way reaches as far as within its value. -/
theorem reaches_of_member? {held : Json} (there : left.member? key = some held)
    (further : path ≠ []) : Reaches left (key :: path) ↔ Reaches held path := by
  obtain ⟨members, rfl, -⟩ := exists_of_member? there
  rw [reaches_cons_iff further]
  constructor
  · intro holds
    rcases holds with list | ⟨other, same, reaches⟩
    · cases list
    · cases there.symm.trans same
      exact reaches
  · exact fun reaches => .inr ⟨held, there, reaches⟩

/-- No way leads through a member that is absent. -/
theorem not_reaches_of_absent (notList : left.shape ≠ .list) (absent : left.member? key = none)
    (further : path ≠ []) : ¬ Reaches left (key :: path) := by
  rw [reaches_cons_iff further, absent]
  simp [notList]

theorem ne_nil_of_at?_null {v : Json} (null : v.at? path = some .null) (filled : v ≠ .null) :
    path ≠ [] := by
  rintro rfl
  exact filled (Option.some.inj null)

theorem at?_null (path : List String) : null.at? path = if path = [] then some null else none := by
  cases path <;> rfl

/-! ## One merge -/

/-- Over nothing, a document stays as it is. -/
theorem merge_null_left (v : Json) : merge .null v = v := by
  cases v <;> rfl

/-- Only nothing over nothing is nothing. -/
theorem merge_eq_null_iff : merge left right = .null ↔ left = .null ∧ right = .null := by
  cases right <;> cases left <;> simp [merge]

/-- Only an object brings members with it; anything else that is filled leaves none. -/
theorem member?_merge_of_shape (filled : right ≠ .null) (other : right.shape ≠ .object)
    (key : String) : (merge left right).member? key = none := by
  cases right with
  | null => exact absurd rfl filled
  | object => exact absurd rfl other
  | array | bool | number | string => cases left <;> rfl

/-- What is laid over a list joins it. -/
theorem member?_merge_of_list (list : left.shape = .list) (filled : right ≠ .null) (key : String) :
    (merge left right).member? key = none := by
  obtain ⟨items, rfl⟩ := shape_eq_list_iff.mp list
  cases right with
  | null => exact absurd rfl filled
  | array | object | bool | number | string => rfl

/-- Member by member, an object goes over an object, and takes the place of a scalar. -/
theorem member?_merge_object {members : List (String × Json)} (notList : left.shape ≠ .list)
    (distinct : (keys members).Nodup) (key : String) :
    (merge left (.object members)).member? key =
      if members.lookup key = some .null ∧ left.shape = .object then none
      else Option.merge merge (left.member? key) (members.lookup key) := by
  cases left with
  | array => exact absurd rfl notList
  | object existing =>
    rw [merge_objects, member?, lookup_mergeMembers_of_nodup distinct]
    simp only [shape, and_true]
    rfl
  | null | bool | number | string =>
    rw [if_neg (by simp [shape])]
    exact Option.merge_none_left.symm

theorem WellFormed.keys_nodup {members : List (String × Json)}
    (sound : (object members).WellFormed) : (keys members).Nodup := by
  rw [WellFormed] at sound
  exact sound.1

theorem WellFormed.of_lookup {members : List (String × Json)} {v : Json}
    (sound : (object members).WellFormed) (found : members.lookup key = some v) : v.WellFormed :=
  sound.at? (at?_of_member? (v := object members) found [])

/-- Where a member of a merge comes from. -/
theorem member?_merge_eq_some {v : Json} (sound : right.WellFormed)
    (found : (merge left right).member? key = some v) :
    left.member? key = some v ∨
      (right.member? key = some v ∧ left.member? key = none ∧ left.shape ≠ .list ∧
        (v = .null → left.shape ≠ .object)) ∨
      ∃ held upper, left.member? key = some held ∧ right.member? key = some upper ∧
        upper ≠ .null ∧ v = merge held upper := by
  by_cases empty : right = .null
  · subst empty
    exact .inl found
  · have notList : left.shape ≠ .list := fun list => by
      rw [member?_merge_of_list list empty] at found
      cases found
    have object : right.shape = .object := Decidable.of_not_not fun other => by
      rw [member?_merge_of_shape empty other] at found
      cases found
    obtain ⟨members, rfl⟩ := shape_eq_object_iff.mp object
    rw [member?_merge_object notList sound.keys_nodup] at found
    split at found
    · cases found
    · next kept =>
      cases there : left.member? key with
      | none =>
        rw [there, Option.merge_none_left] at found
        exact .inr (.inl ⟨found, rfl, notList, fun nothing => not_and.mp kept (nothing ▸ found)⟩)
      | some held =>
        cases laid : members.lookup key with
        | none =>
          rw [there, laid, Option.merge_none_right] at found
          exact .inl found
        | some upper =>
          rw [there, laid] at found
          obtain ⟨existing, rfl, -⟩ := exists_of_member? there
          exact .inr (.inr ⟨held, upper, rfl, laid, fun nothing => kept ⟨by rw [laid, nothing], rfl⟩,
            (Option.some.inj found).symm⟩)

/-- A `null` that is laid over a document takes its place away exactly if the document leads
there. -/
theorem at?_merge_of_null (sound : right.WellFormed) (filled : right ≠ .null)
    (null : right.at? path = some .null) :
    (Reaches left path → (merge left right).at? path = none) ∧
      (¬ Reaches left path → (merge left right).at? path = some .null) := by
  induction path generalizing left right with
  | nil => exact absurd rfl (ne_nil_of_at?_null null filled)
  | cons key path ih =>
    obtain ⟨v, found, below⟩ := Option.bind_eq_some_iff.mp null
    obtain ⟨members, rfl, -⟩ := exists_of_member? found
    have found : members.lookup key = some v := found
    by_cases list : left.shape = .list
    · obtain ⟨items, rfl⟩ := shape_eq_list_iff.mp list
      rw [at?, member?_merge_of_list list filled]
      exact ⟨fun _ => rfl, fun missed => absurd (.list items key path) missed⟩
    · rw [at?, member?_merge_object list sound.keys_nodup, found]
      by_cases empty : v = .null
      · subst empty
        obtain rfl : path = [] := by
          rw [at?_null] at below
          exact Decidable.of_not_not fun further => by simp [further] at below
        rw [reaches_singleton_iff]
        by_cases object : left.shape = .object
        · rw [if_pos ⟨rfl, object⟩]
          exact ⟨fun _ => rfl, fun missed => absurd (.inr object) missed⟩
        · rw [if_neg fun both => object both.2, member?_eq_none_of_shape object]
          exact ⟨fun shapes => absurd shapes (not_or.mpr ⟨list, object⟩), fun _ => below⟩
      · rw [if_neg fun both => empty (Option.some.inj both.1)]
        have further := ne_nil_of_at?_null below empty
        cases there : left.member? key with
        | none =>
          exact ⟨fun reaches => absurd reaches (not_reaches_of_absent list there further),
            fun _ => below⟩
        | some held =>
          rw [reaches_of_member? there further]
          exact ih (sound.of_lookup found) empty below

/-- A `null` in a merge stands at its place in the left document, or in the right one at a
place to which the left one does not lead. -/
theorem null_of_at?_merge (sound : right.WellFormed) (filled : right ≠ .null)
    (null : (merge left right).at? path = some .null) :
    left.at? path = some .null ∨ right.at? path = some .null ∧ ¬ Reaches left path := by
  induction path generalizing left right with
  | nil => exact absurd (merge_eq_null_iff.mp (Option.some.inj null)).2 filled
  | cons key path ih =>
    obtain ⟨v, found, below⟩ := Option.bind_eq_some_iff.mp null
    rcases member?_merge_eq_some sound found with
      held | ⟨laid, absent, notList, notObject⟩ | ⟨held, upper, there, laid, present, rfl⟩
    · exact .inl ((at?_of_member? held path).trans below)
    · refine .inr ⟨(at?_of_member? laid path).trans below, ?_⟩
      by_cases last : path = []
      · subst last
        rw [reaches_singleton_iff]
        exact not_or.mpr ⟨notList, notObject (Option.some.inj below)⟩
      · exact not_reaches_of_absent notList absent last
    · obtain ⟨members, rfl, -⟩ := exists_of_member? laid
      rcases ih (sound.of_lookup laid) present below with inLeft | ⟨inRight, missed⟩
      · exact .inl ((at?_of_member? there path).trans inLeft)
      · refine .inr ⟨(at?_of_member? laid path).trans inRight, ?_⟩
        rwa [reaches_of_member? there (ne_nil_of_at?_null inRight present)]

/-! ## The same merge once more -/

theorem eraseMember_of_absent {members : List (String × Json)} (absent : members.lookup key = none) :
    eraseMember key members = members := by
  refine List.filter_eq_self.mpr fun m member => decide_eq_true fun same => ?_
  exact lookup_eq_none_iff.mp absent (same ▸ List.mem_map_of_mem member)

/-- Members that say nothing new change nothing. -/
theorem mergeMembers_eq_self {existing members : List (String × Json)}
    (known : ∀ m ∈ members, (m.2 = .null ∧ existing.lookup m.1 = none) ∨
      m.2 ≠ .null ∧ ∃ held, existing.lookup m.1 = some held ∧ merge held m.2 = held) :
    mergeMembers existing members = existing := by
  induction members with
  | nil => rfl
  | cons m rest ih =>
    obtain ⟨first, further⟩ := List.forall_mem_cons.mp known
    obtain ⟨key, value⟩ := m
    rcases first with ⟨rfl, absent⟩ | ⟨filled, held, there, same⟩
    · have erased : mergeMembers existing ((key, .null) :: rest) =
          mergeMembers (eraseMember key existing) rest := rfl
      rw [erased, eraseMember_of_absent absent, ih further]
    · have kept : laid existing key value = existing := by
        have there : existing.lookup key = some held := there
        rw [laid, there]
        exact (congrArg (Pairs.put key · existing) same).trans (Pairs.put_of_lookup there)
      rw [mergeMembers_cons filled, kept, ih further]

/-- A scalar replaces all but a list. -/
theorem merge_of_scalar (scalar : right.shape = .scalar) (notList : left.shape ≠ .list) :
    merge left right = right := by
  cases right <;> cases scalar <;> cases left <;> first | rfl | exact absurd rfl notList

/-- Nothing changes if a document without lists is laid over another one once more, as long
as the other one leads to every `null` and no list of it is met by anything but a `null`. -/
theorem merge_merge (sound : right.WellFormed)
    (noLists : ∀ path items, right.at? path ≠ some (.array items))
    (reached : ∀ path, path ≠ [] → right.at? path = some .null → Reaches left path)
    (apart : ∀ path items v, left.at? path = some (.array items) → right.at? path = some v →
      v = .null) :
    merge (merge left right) right = merge left right := by
  induction size : sizeOf right using Nat.strongRecOn generalizing left right with
  | ind n ih =>
    have notList (filled : right ≠ .null) : left.shape ≠ .list := fun list => by
      obtain ⟨items, rfl⟩ := shape_eq_list_iff.mp list
      exact filled (apart [] items right rfl rfl)
    cases here : right.shape with
    | nothing =>
      obtain rfl := shape_eq_nothing_iff.mp here
      rfl
    | scalar =>
      have filled : right ≠ .null := by rintro rfl; cases here
      rw [merge_of_scalar here (notList filled), merge_of_scalars here here]
    | list =>
      obtain ⟨items, rfl⟩ := shape_eq_list_iff.mp here
      exact absurd rfl (noLists [] items)
    | object =>
      obtain ⟨members, rfl⟩ := shape_eq_object_iff.mp here
      have notList := notList nofun
      obtain ⟨merged, mergedEq⟩ : ∃ merged, merge left (.object members) = .object merged := by
        cases left with
        | array => exact absurd rfl notList
        | null | bool | number | string | object => exact ⟨_, rfl⟩
      rw [mergedEq, merge_objects]
      refine congrArg Json.object (mergeMembers_eq_self fun m member => ?_)
      have laid := lookup_of_mem sound.keys_nodup member
      have there := member?_merge_object notList sound.keys_nodup m.1
      rw [mergedEq, laid] at there
      by_cases empty : m.2 = .null
      · have null : (object members).at? [m.1] = some .null :=
          (at?_of_member? (v := object members) laid []).trans (congrArg some empty)
        have object : left.shape = .object :=
          (reaches_singleton_iff.mp (reached _ (List.cons_ne_nil _ _) null)).resolve_left notList
        rw [if_pos ⟨congrArg some empty, object⟩] at there
        exact .inl ⟨empty, there⟩
      · rw [if_neg fun both => empty (Option.some.inj both.1)] at there
        have deeper (path : List String) := at?_of_member? (v := object members) laid path
        have noLists' (path : List String) (items : List Json) :
            m.2.at? path ≠ some (.array items) := deeper path ▸ noLists (m.1 :: path) items
        -- what is laid over an absent member goes over nothing
        have again (held : Json)
            (reached' : ∀ path, path ≠ [] → Reaches left (m.1 :: path) → Reaches held path)
            (apart' : ∀ path items, held.at? path = some (.array items) →
              left.at? (m.1 :: path) = some (.array items)) :
            merge (merge held m.2) m.2 = merge held m.2 := by
          refine ih _ (size ▸ sizeOf_lookup laid) (sound.of_lookup laid) noLists'
            (fun path further null => reached' path further ?_)
            (fun path items v list value => apart (m.1 :: path) items v (apart' path items list) ?_)
            rfl
          · exact reached _ (List.cons_ne_nil _ _) ((deeper path).trans null)
          · exact (deeper path).trans value
        cases held : left.member? m.1 with
        | none =>
          rw [held, Option.merge_none_left] at there
          have self := again .null
            (fun path further reaches =>
              absurd reaches (not_reaches_of_absent notList held further))
            (fun path items list => by
              rw [at?_null] at list
              split at list <;> cases list)
          rw [merge_null_left] at self
          exact .inr ⟨empty, m.2, there, self⟩
        | some v =>
          rw [held] at there
          exact .inr ⟨empty, _, there, again v
            (fun path further => (reaches_of_member? held further).mp)
            (fun path items list => (at?_of_member? held path).trans list)⟩

/-! ## Fragments with nulls -/

/-- Where an object is laid over another one, every `null` of it takes its place away to which
the other leads; a `null` that is in the result was there before, or is one to whose place
the other does not lead; and laying the object over the result once more changes nothing, as
long as it has no lists, all of its nulls are led to, and nothing but a `null` of it meets a
list of the other. -/
theorem nulls_take_reached_members_away {left right : List (String × Json)}
    (sound : (object right).WellFormed) :
    let merged := merge (.object left) (.object right)
    (∀ path, (object right).at? path = some .null → Reaches (.object left) path →
      merged.at? path = none) ∧
    (∀ path, merged.at? path = some .null → (object left).at? path = some .null ∨
      (object right).at? path = some .null ∧ ¬ Reaches (.object left) path) ∧
    ((∀ path items, (object right).at? path ≠ some (.array items)) →
      (∀ path, (object right).at? path = some .null → Reaches (.object left) path) →
      (∀ path items v, (object left).at? path = some (.array items) →
        (object right).at? path = some v → v = .null) →
      merge merged (.object right) = merged) := by
  intro merged
  refine ⟨fun path null => (at?_merge_of_null sound nofun null).1,
    fun path => null_of_at?_merge sound nofun, fun noLists reached apart => ?_⟩
  exact merge_merge sound noLists (fun path _ => reached path) apart

/-- A fragment that takes the rule for reads and the collection of an endpoint away. -/
def closing : List (String × Json) :=
  [("auth", .object [("read", .null), ("GET", .bool false)]), ("collection", .null)]

/-- An endpoint with a rule for reads, a list of tags and no collection. -/
def readable : List (String × Json) :=
  [("auth", .object [("read", .bool true)]), ("tags", .array [.string "a"])]

theorem closing_takes_read_rule_away :
    (object closing).WellFormed ∧ Reaches (.object readable) ["auth", "read"] ∧
      (merge (.object readable) (.object closing)).at? ["auth", "read"] = none ∧
      merge (merge (.object readable) (.object closing)) (.object closing) =
        merge (.object readable) (.object closing) := by
  have sound : (object closing).WellFormed := by
    simp [closing, WellFormed, WellFormedMembers]
  have auth : Reaches (.object readable) ["auth", "read"] :=
    .next rfl (.last [("read", .bool true)] "read")
  obtain ⟨gone, -, again⟩ := @nulls_take_reached_members_away readable closing sound
  refine ⟨sound, auth, gone _ rfl auth, again ?noLists ?reached ?apart⟩
  case noLists =>
    have plain : ∀ p ∈ (object closing).places, p.2.shape ≠ .list := by decide
    exact fun path items list => plain _ (mem_places list) rfl
  case reached =>
    intro path null
    have here : path = ["auth", "read"] ∨ path = ["collection"] := by
      simpa [closing, places, placesBelow] using mem_places null
    rcases here with rfl | rfl
    · exact auth
    · exact .last _ _
  case apart =>
    intro path items v list value
    have here : path = ["tags"] := by
      have listed := mem_places list
      simp [readable, places, placesBelow] at listed
      exact listed.1
    subst here
    cases value

/-- Where the left document does not lead to it, a `null` stays; and a list that is met once
more is joined once more. -/
theorem unreached_null_stays :
    let fresh := Json.object [("auth", .object [("read", .null)])]
    let tagged := Json.object [("tags", .array [.string "a"])]
    let tag := Json.object [("tags", .string "b")]
    fresh.at? ["auth", "read"] = some .null ∧
      (merge (.object []) fresh).at? ["auth", "read"] = some .null ∧
      merge (merge (.object []) fresh) fresh ≠ merge (.object []) fresh ∧
      merge (merge tagged tag) tag ≠ merge tagged tag := by
  decide

end EndpointTree.Json
