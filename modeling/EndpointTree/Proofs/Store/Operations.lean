import EndpointTree.Proofs.Json.Members
import EndpointTree.Store.Basic
import Mathlib.Data.List.Nodup
import Mathlib.Data.List.Perm.Subperm

/-!
# Operations on a store

An operation either leaves the store as it was, or it writes one record of one
collection and publishes one change. What a write makes of the records of its collection
is one of three edits, and all that is said about runs of operations rests on these.

* `Store.Operation.perform` performs an operation; `Store.after` and `Store.log` perform
  a sequence of them.
* `Store.performed`: what an operation can do.
* `Store.readOne_nextDraw`: the identifier that is drawn for a new record is free.
* `Store.Edit.find?_hasId`, `Store.Edit.others` and `Store.Edit.inPlace`: what an edit does
  to look-ups, to the other records and to places.
-/

namespace EndpointTree

namespace Store

/-! ## Operations -/

/-- What can be asked of a store. -/
inductive Operation where
  | create (collection : String) (data : Json)
  | readOne (collection id : String)
  | readMany (collection : String) (query : Query)
  | update (collection id : String) (data : Json)
  | patch (collection id : String) (data : Json)
  | remove (collection id : String)

/-- What an operation answers: a document, nothing, or a fault. -/
abbrev Answer := Except StoreFault (Option Json)

namespace Operation

/-- Perform an operation; a page is answered as the document that it makes. -/
def perform (s : Store) : Operation → Answer × Store
  | .create collection data =>
    let (result, next) := s.create collection data
    (result.map some, next)
  | .readOne collection id => (.ok (s.readOne collection id), s)
  | .readMany collection query => ((s.readMany collection query).map fun p => some p.toJson, s)
  | .update collection id data =>
    let (result, next) := s.update collection id data
    (result.map some, next)
  | .patch collection id data => s.patch collection id data
  | .remove collection id =>
    let (result, next) := s.remove collection id
    (.ok result, next)

/-- The collection that an operation is on. -/
def collection : Operation → String
  | .create collection _ | .readOne collection _ | .readMany collection _
  | .update collection _ _ | .patch collection _ _ | .remove collection _ => collection

/-- The kind of change that an operation makes; reading makes none. -/
def kind? : Operation → Option ChangeKind
  | .create .. => some .created
  | .readOne .. | .readMany .. => none
  | .update .. => some .updated
  | .patch .. => some .patched
  | .remove .. => some .removed

/-- The identifier of the record that an operation is about. A record to be created has
that of its data, or one of the supply; a listing is about no single record. -/
def id? (s : Store) : Operation → Option String
  | .create collection data =>
    match data.member? "id" with
    | some given => given.string?
    | none => some (s.supply (s.nextDraw collection))
  | .readMany .. => none
  | .readOne _ id | .update _ id _ | .patch _ id _ | .remove _ id => some id

end Operation

/-- The store after operations, one after another. -/
def after (s : Store) (ops : List Operation) : Store :=
  ops.foldl (fun s op => (op.perform s).2) s

/-- What operations answer, one after another. -/
def log (s : Store) : List Operation → List (Operation × Answer)
  | [] => []
  | op :: rest =>
    let (answer, next) := op.perform s
    (op, answer) :: next.log rest

theorem after_concat (s : Store) (ops : List Operation) (op : Operation) :
    s.after (ops ++ [op]) = (op.perform (s.after ops)).2 := by
  rw [after, List.foldl_append]
  rfl

/-- The last operation of a log is answered by the store that the others leave. -/
theorem log_concat (s : Store) (ops : List Operation) (op : Operation) :
    s.log (ops ++ [op]) = s.log ops ++ [(op, (op.perform (s.after ops)).1)] := by
  induction ops generalizing s with
  | nil => rfl
  | cons first rest ih =>
    rw [List.cons_append, log, log, List.cons_append]
    exact congrArg _ (ih _)

theorem after_append (s : Store) (ops further : List Operation) :
    s.after (ops ++ further) = (s.after ops).after further :=
  List.foldl_append

/-- One store came from the other by operations. -/
def Grows (s s' : Store) : Prop := ∃ ops, s' = s.after ops

theorem Grows.refl (s : Store) : s.Grows s := ⟨[], rfl⟩

/-- Growth adds up. -/
theorem Grows.trans {s s' s'' : Store} (first : s.Grows s') (then_ : s'.Grows s'') :
    s.Grows s'' := by
  obtain ⟨ops, rfl⟩ := first
  obtain ⟨further, rfl⟩ := then_
  exact ⟨ops ++ further, (after_append s ops further).symm⟩

/-! ## Identifiers -/

theorem hasId_iff {id : String} {record : Json} :
    hasId id record = true ↔ recordId? record = some id := by
  simp only [hasId, decide_eq_true_eq]

/-- A record is an object with a text under `id`. -/
theorem recordId?_eq_some_iff {record : Json} {id : String} :
    recordId? record = some id ↔
      ∃ members, record = .object members ∧ members.lookup "id" = some (.string id) := by
  constructor
  · intro found
    obtain ⟨value, held, text⟩ := Option.bind_eq_some_iff.mp found
    cases record with
    | object members =>
      cases value with
      | string text' =>
        cases text
        exact ⟨members, rfl, held⟩
      | _ => cases text
    | _ => cases held
  · rintro ⟨members, rfl, held⟩
    simp only [recordId?, Json.member?, held, Option.bind_some, Json.string?]

theorem recordId?_put (id : String) (members : List (String × Json)) :
    recordId? (.object (Pairs.put "id" (.string id) members)) = some id := by
  rw [recordId?_eq_some_iff]
  exact ⟨_, rfl, by rw [Pairs.lookup_put, if_pos rfl]⟩

/-- A patch never touches the identifier. -/
theorem lookup_overlay_id (changes existing : List (String × Json)) :
    (overlay changes existing).lookup "id" = existing.lookup "id" := by
  rw [overlay]
  induction changes generalizing existing with
  | nil => rfl
  | cons m rest ih =>
    rw [List.foldl_cons, ih]
    split
    · rfl
    · next other => rw [Pairs.lookup_put, if_neg (Ne.symm other)]

/-- A patch cannot change the identifier. -/
theorem recordId?_patched (changes : List (String × Json)) (record : Json) :
    recordId? (patched changes record) = recordId? record := by
  cases record with
  | object existing => simp only [patched, recordId?, Json.member?, lookup_overlay_id]
  | _ => rfl

/-- Nothing is found under an identifier that no record has. -/
theorem find?_hasId_eq_none_iff {id : String} {records : List Json} :
    records.find? (hasId id) = none ↔ some id ∉ records.map recordId? := by
  simp only [List.find?_eq_none, hasId_iff, List.mem_map, not_exists, not_and]

/-! ## The supply -/

/-- Where the number behind all that were tried is taken too, so were all of these. -/
theorem taken_of_firstFree {supply : Nat → String} {records : List Json} {steps number : Nat}
    (taken : some (supply (firstFree supply records steps number)) ∈ records.map recordId?) :
    ∀ i ≤ steps, some (supply (number + i)) ∈ records.map recordId? := by
  induction steps generalizing number with
  | zero =>
    intro i bound
    obtain rfl := Nat.le_zero.mp bound
    exact taken
  | succ steps ih =>
    rw [firstFree] at taken
    split at taken
    · next held =>
      intro i bound
      cases i with
      | zero =>
        obtain ⟨record, member, here⟩ := List.any_eq_true.mp held
        exact List.mem_map.mpr ⟨record, member, hasId_iff.mp here⟩
      | succ i =>
        rw [Nat.add_comm i 1, ← Nat.add_assoc]
        exact ih taken i (Nat.le_of_succ_le_succ bound)
    · next free =>
      obtain ⟨record, member, here⟩ := List.mem_map.mp taken
      exact absurd (List.any_eq_true.mpr ⟨record, member, hasId_iff.mpr here⟩) free

/-- A supply that repeats nothing always has an identifier that is not taken. -/
theorem readOne_nextDraw (s : Store) (distinct : s.supply.Injective) (collection : String) :
    s.readOne collection (s.supply (s.nextDraw collection)) = none := by
  rw [readOne, find?_hasId_eq_none_iff]
  intro taken
  let records := s.records collection
  let tried := (List.range (records.length + 1)).map fun i => some (s.supply (s.drawn + i))
  have all : tried ⊆ records.map recordId? := by
    intro id member
    obtain ⟨i, bound, rfl⟩ := List.mem_map.mp member
    exact taken_of_firstFree taken i (Nat.le_of_lt_succ (List.mem_range.mp bound))
  have single : tried.Nodup := by
    refine List.nodup_range.map fun i j same => ?_
    exact Nat.add_left_cancel (distinct (Option.some.inj same))
  have many := (single.subperm all).length_le
  simp only [tried, List.length_map, List.length_range] at many
  omega

/-! ## Edits -/

/-- What a write of a kind makes of the records of its collection. -/
inductive Edit (id : String) (record : Json) (records : List Json) :
    ChangeKind → List Json → Prop
  | append : records.find? (hasId id) = none →
    Edit id record records .created (records ++ [record])
  | replace {kind : ChangeKind} : kind = .updated ∨ kind = .patched →
    records.find? (hasId id) ≠ none → Edit id record records kind (replaceFirst id record records)
  | take : records.find? (hasId id) = some record →
    Edit id record records .removed (removeFirst id records)

/-- To replace a record by one of its identifier leaves all identifiers. -/
theorem map_recordId?_replaceFirst {id : String} {record : Json}
    (own : recordId? record = some id) (records : List Json) :
    (replaceFirst id record records).map recordId? = records.map recordId? := by
  induction records with
  | nil => rfl
  | cons r rest ih =>
    rw [replaceFirst]
    split
    · next here => rw [List.map_cons, List.map_cons, own, hasId_iff.mp here]
    · rw [List.map_cons, List.map_cons, ih]

/-- To remove a record removes its identifier. -/
theorem map_recordId?_removeFirst (id : String) (records : List Json) :
    (removeFirst id records).map recordId? = (records.map recordId?).erase (some id) := by
  induction records with
  | nil => rfl
  | cons r rest ih =>
    rw [removeFirst, List.map_cons, List.erase_cons]
    by_cases here : recordId? r = some id
    · rw [if_pos (hasId_iff.mpr here), if_pos (beq_iff_eq.mpr here)]
    · rw [if_neg (hasId_iff.not.mpr here), if_neg (beq_iff_eq.not.mpr here), List.map_cons, ih]

/-- What a write leaves behind under its identifier. -/
def left (record : Json) : ChangeKind → Option Json
  | .removed => none
  | .created | .updated | .patched => some record

theorem not_hasId_of_ne {id i : String} {record : Json} (own : recordId? record = some id)
    (other : i ≠ id) : ¬ hasId i record = true := by
  rw [hasId_iff, own]
  exact fun equal => other (Option.some.inj equal).symm

/-- After a replacement the identifier finds the new record, every other one what it did. -/
theorem find?_replaceFirst {id : String} {record : Json} (own : recordId? record = some id)
    {records : List Json} (held : records.find? (hasId id) ≠ none) (i : String) :
    (replaceFirst id record records).find? (hasId i) =
      if i = id then some record else records.find? (hasId i) := by
  induction records with
  | nil => exact absurd rfl held
  | cons r rest ih =>
    rw [replaceFirst]
    by_cases here : hasId id r = true
    · rw [if_pos here]
      by_cases same : i = id
      · subst same
        rw [if_pos rfl, List.find?_cons_of_pos (hasId_iff.mpr own)]
      · rw [if_neg same, List.find?_cons_of_neg (not_hasId_of_ne own same),
          List.find?_cons_of_neg (not_hasId_of_ne (hasId_iff.mp here) same)]
    · rw [List.find?_cons_of_neg here] at held
      rw [if_neg here, List.find?_cons, List.find?_cons, ih held]
      by_cases same : i = id
      · subst same
        rw [if_pos rfl, if_pos rfl, Bool.eq_false_iff.mpr here]
      · rw [if_neg same, if_neg same]

/-- After a removal the identifier finds nothing, every other one what it did. -/
theorem find?_removeFirst {id : String} {records : List Json}
    (distinct : (records.map recordId?).Nodup) (i : String) :
    (removeFirst id records).find? (hasId i) =
      if i = id then none else records.find? (hasId i) := by
  by_cases same : i = id
  · subst same
    rw [if_pos rfl, find?_hasId_eq_none_iff, map_recordId?_removeFirst]
    exact distinct.not_mem_erase
  rw [if_neg same]
  clear distinct
  induction records with
  | nil => rfl
  | cons r rest ih =>
    rw [removeFirst]
    split
    · next here => rw [List.find?_cons_of_neg (not_hasId_of_ne (hasId_iff.mp here) same)]
    · rw [List.find?_cons, List.find?_cons, ih]

theorem filter_replaceFirst {id : String} {record : Json} (own : recordId? record = some id)
    (records : List Json) :
    (replaceFirst id record records).filter (fun r => !hasId id r) =
      records.filter (fun r => !hasId id r) := by
  have ownId := hasId_iff.mpr own
  induction records with
  | nil => rfl
  | cons r rest ih =>
    rw [replaceFirst]
    split
    · next here =>
      simp only [List.filter_cons, ownId, here, Bool.not_true, Bool.false_eq_true, if_false]
    · rw [List.filter_cons, List.filter_cons, ih]

theorem filter_removeFirst (id : String) (records : List Json) :
    (removeFirst id records).filter (fun r => !hasId id r) =
      records.filter (fun r => !hasId id r) := by
  induction records with
  | nil => rfl
  | cons r rest ih =>
    rw [removeFirst]
    split
    · next here => simp only [List.filter_cons, here, Bool.not_true, Bool.false_eq_true, if_false]
    · rw [List.filter_cons, List.filter_cons, ih]

namespace Edit

variable {id : String} {record : Json} {records next : List Json} {kind : ChangeKind}

/-- A record is found under its identifier, and nothing else is found differently. -/
theorem find?_hasId (edit : Edit id record records kind next) (own : recordId? record = some id)
    (distinct : (records.map recordId?).Nodup) (i : String) :
    next.find? (hasId i) = if i = id then left record kind else records.find? (hasId i) := by
  cases edit with
  | append fresh =>
    rw [List.find?_append]
    by_cases same : i = id
    · subst same
      rw [if_pos rfl, fresh, Option.none_or, List.find?_cons_of_pos (hasId_iff.mpr own)]
      rfl
    · rw [if_neg same, List.find?_cons_of_neg (not_hasId_of_ne own same), List.find?_nil,
        Option.or_none]
  | replace replaces held =>
    rw [find?_replaceFirst own held]
    rcases replaces with rfl | rfl <;> rfl
  | take found => exact find?_removeFirst distinct i

/-- The records under other identifiers stay, in their order. -/
theorem others (edit : Edit id record records kind next) (own : recordId? record = some id) :
    next.filter (fun r => !hasId id r) = records.filter (fun r => !hasId id r) := by
  cases edit with
  | append fresh =>
    rw [List.filter_append, List.filter_cons, hasId_iff.mpr own]
    exact List.append_nil _
  | replace replaces held => exact filter_replaceFirst own records
  | take found => exact filter_removeFirst id records

/-- A record that is changed keeps its place and its identifier. -/
theorem inPlace (edit : Edit id record records kind next) (own : recordId? record = some id)
    (changes : kind = .updated ∨ kind = .patched) :
    next.map recordId? = records.map recordId? := by
  cases edit with
  | append fresh => rcases changes with equal | equal <;> cases equal
  | replace replaces held => exact map_recordId?_replaceFirst own records
  | take found => rcases changes with equal | equal <;> cases equal

end Edit

/-! ## What an operation can do -/

/-- An operation wrote a record of its collection: it edited the records of the collection
and of no other one, and published the change. -/
structure Wrote (s : Store) (op : Operation) (kind : ChangeKind) (id : String) (record : Json)
    (next : Store) : Prop where
  kind?_eq : op.kind? = some kind
  id?_eq : op.id? s = some id
  own : recordId? record = some id
  edit : Edit id record (s.records op.collection) kind (next.records op.collection)
  elsewhere : ∀ c, c ≠ op.collection → next.records c = s.records c
  changes : next.changes = s.changes ++ [⟨kind, op.collection, record⟩]

/-- What an operation can do. -/
inductive Performed (s : Store) (op : Operation) : Answer × Store → Prop
  | kept {answer : Answer} :
    op.kind? = none ∨ (∀ record, answer ≠ .ok (some record)) → Performed s op (answer, s)
  | wrote {kind : ChangeKind} {id : String} {record : Json} {next : Store} :
    Wrote s op kind id record next → Performed s op (.ok (some record), next)

/-- An operation that fails leaves the store alone. -/
theorem Performed.failed {s : Store} {op : Operation} (fault : StoreFault) :
    Performed s op (.error fault, s) := by
  refine .kept (.inr fun record answered => ?_)
  cases answered

/-- An operation that finds nothing leaves the store alone. -/
theorem Performed.missed {s : Store} {op : Operation} : Performed s op (.ok none, s) := by
  refine .kept (.inr fun record answered => ?_)
  cases answered

/-- A commit touches its own collection alone. -/
theorem records_commit (s : Store) (kind : ChangeKind) (collection : String) (record : Json)
    (records : List Json) (c : String) :
    (s.commit kind collection record records).records c =
      if c = collection then records else s.records c := by
  simp only [commit, Store.records, Dict.get?_insert]
  split <;> rfl

/-- To commit an edit of the collection is to write. -/
theorem Wrote.of_commit {s : Store} {op : Operation} {kind : ChangeKind} {id : String}
    {record : Json} {records : List Json} (kindEq : op.kind? = some kind)
    (idEq : op.id? s = some id) (own : recordId? record = some id)
    (edit : Edit id record (s.records op.collection) kind records) :
    Wrote s op kind id record (s.commit kind op.collection record records) where
  kind?_eq := kindEq
  id?_eq := idEq
  own := own
  edit := by
    rw [records_commit, if_pos rfl]
    exact edit
  elsewhere c other := by rw [records_commit, if_neg other]
  changes := rfl

/-- How far the supply of identifiers is drawn does not count. -/
theorem Wrote.withDrawn {s : Store} {op : Operation} {kind : ChangeKind} {id : String}
    {record : Json} {next : Store} (wrote : Wrote s op kind id record next) (drawn : Nat) :
    Wrote s op kind id record { next with drawn } :=
  ⟨wrote.kind?_eq, wrote.id?_eq, wrote.own, wrote.edit, wrote.elsewhere, wrote.changes⟩

theorem any_hasId_iff {id : String} {records : List Json} :
    records.any (hasId id) = true ↔ records.find? (hasId id) ≠ none := by
  rw [← Option.isSome_iff_ne_none, List.find?_isSome, List.any_eq_true]

/-- A record is added, or its identifier is taken and nothing happens. -/
theorem add_cases (s : Store) (collection : String) {id : String}
    (members : List (String × Json)) {data : Json}
    (idEq : (Operation.create collection data).id? s = some id) :
    (∃ fault, s.add collection id members = (.error fault, s)) ∨
      ∃ record next, s.add collection id members = (.ok record, next) ∧
        Wrote s (.create collection data) .created id record next := by
  rw [add]
  by_cases taken : (s.records collection).any (hasId id) = true
  · rw [if_pos taken]
    exact .inl ⟨_, rfl⟩
  · rw [if_neg taken]
    have fresh : (s.records collection).find? (hasId id) = none :=
      not_ne_iff.mp (any_hasId_iff.not.mp taken)
    exact .inr ⟨_, _, rfl, .of_commit rfl idEq (recordId?_put id members) (.append fresh)⟩

/-- A create adds a record, or leaves the store alone. -/
theorem performed_create (s : Store) (collection : String) (data : Json) :
    Performed s (.create collection data) ((Operation.create collection data).perform s) := by
  rw [Operation.perform]
  cases data with
  | object members =>
    rw [create]
    cases given : members.lookup "id" with
    | none =>
      have idEq : (Operation.create collection (.object members)).id? s =
          some (s.supply (s.nextDraw collection)) := by
        simp only [Operation.id?, Json.member?, given]
      rcases add_cases s collection members idEq with ⟨fault, failed⟩ | ⟨record, next, added, wrote⟩
      · simp only [failed]
        exact .failed _
      · simp only [added]
        exact .wrote (wrote.withDrawn _)
    | some value =>
      cases value with
      | string id =>
        have idEq : (Operation.create collection (.object members)).id? s = some id := by
          simp only [Operation.id?, Json.member?, given, Json.string?]
        rcases add_cases s collection members idEq with
          ⟨fault, failed⟩ | ⟨record, next, added, wrote⟩
        · simp only [failed]
          exact .failed _
        · simp only [added]
          exact .wrote wrote
      | _ => exact .failed _
  | _ => exact .failed _

/-- An update replaces a record, or leaves the store alone. -/
theorem performed_update (s : Store) (collection id : String) (data : Json) :
    Performed s (.update collection id data) ((Operation.update collection id data).perform s) := by
  rw [Operation.perform]
  cases data with
  | object members =>
    rw [update]
    by_cases held : (s.records collection).any (hasId id) = true
    · rw [if_pos held]
      exact .wrote (.of_commit rfl rfl (recordId?_put id members)
        (.replace (.inl rfl) (any_hasId_iff.mp held)))
    · rw [if_neg held]
      exact .failed _
  | _ => exact .failed _

theorem performed_patch (s : Store) (collection id : String) (data : Json) :
    Performed s (.patch collection id data) ((Operation.patch collection id data).perform s) := by
  rw [Operation.perform]
  cases data with
  | object changes =>
    rw [patch]
    dsimp only
    cases found : (s.records collection).find? (hasId id) with
    | none => exact .missed
    | some existing =>
      have own : recordId? (patched changes existing) = some id := by
        rw [recordId?_patched, hasId_iff.mp (List.find?_some found)]
      have held : (s.records collection).find? (hasId id) ≠ none := by
        rw [found]
        exact Option.some_ne_none existing
      exact .wrote (.of_commit rfl rfl own (.replace (.inr rfl) held))
  | _ => exact .failed _

theorem performed_remove (s : Store) (collection id : String) :
    Performed s (.remove collection id) ((Operation.remove collection id).perform s) := by
  rw [Operation.perform, remove]
  dsimp only
  cases found : (s.records collection).find? (hasId id) with
  | none => exact .missed
  | some record =>
    exact .wrote (.of_commit rfl rfl (hasId_iff.mp (List.find?_some found)) (.take found))

/-- An operation leaves the store as it was, or it writes one record. -/
theorem performed (s : Store) (op : Operation) : Performed s op (op.perform s) := by
  cases op with
  | create collection data => exact performed_create s collection data
  | readOne collection id => exact .kept (.inl rfl)
  | readMany collection query => exact .kept (.inl rfl)
  | update collection id data => exact performed_update s collection id data
  | patch collection id data => exact performed_patch s collection id data
  | remove collection id => exact performed_remove s collection id

end Store

end EndpointTree
