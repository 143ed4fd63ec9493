import EndpointTree.Proofs.Pairs
import EndpointTree.Proofs.Store.ChangeLog

/-!
# Independent operations

Operations on different records do not hinder each other: each answers and publishes the
same whether the other one came before it or not, and in either order they leave the same
collections. Only two records that are created in one collection stand in the order in
which they came.

* `Change.replayIn_comm`: changes of different records can be followed in either order.
* `Store.exists_verdict`: an operation on a record goes by what it finds there, and by
  nothing else in the store.
* `Store.independent_operations_commute` says it of every store that operations lead to.
-/

namespace EndpointTree

/-! ## Changes in either order -/

namespace Change

/-- What becomes of a record where a change is followed. -/
def applied (change : Change) (r : Json) : List Json :=
  if Store.recordId? r = Store.recordId? change.record then
    match change.kind with
    | .created => [r]
    | .updated | .patched => [change.record]
    | .removed => []
  else [r]

/-- What comes behind all records where a change is followed. -/
def added (change : Change) : List Json := if change.kind = .created then [change.record] else []

variable {x y : Change} {id i : String}

/-- A change is applied record by record, and then adds what is new. -/
theorem replayIn_eq (change : Change) (records : List Json) :
    change.replayIn records = records.flatMap change.applied ++ change.added := by
  obtain ⟨kind, collection, record⟩ := change
  rw [replayIn, added]
  cases kind with
  | created =>
    have whole : applied ⟨.created, collection, record⟩ = fun r => [r] :=
      funext fun r => ite_self [r]
    rw [whole, List.flatMap_singleton', if_pos rfl]
  | updated | patched =>
    rw [if_neg (by simp), List.append_nil]
    dsimp only
    rw [List.map_eq_flatMap]
    refine List.flatMap_congr fun r _ => ?_
    rw [applied]
    split <;> rfl
  | removed =>
    rw [if_neg (by simp), List.append_nil]
    dsimp only
    induction records with
    | nil => rfl
    | cons r rest ih =>
      rw [List.filter_cons, List.flatMap_cons, ← ih, applied]
      by_cases same : Store.recordId? r = Store.recordId? record
      · rw [if_neg (by simpa using same), if_pos same]
        rfl
      · rw [if_pos (by simpa using same), if_neg same]
        rfl

theorem applied_of_ne {r : Json} (other : Store.recordId? r ≠ Store.recordId? x.record) :
    x.applied r = [r] := if_neg other

/-- What a change makes of its record has the identifier of that record. -/
theorem recordId?_of_mem_applied {r r' : Json} (made : r' ∈ x.applied r) :
    Store.recordId? r' = Store.recordId? r := by
  rw [applied] at made
  split at made
  · next same =>
    split at made
    · rw [List.mem_singleton.mp made]
    · rw [List.mem_singleton.mp made, same]
    · rw [List.mem_singleton.mp made, same]
    · cases made
  · rw [List.mem_singleton.mp made]

/-- A change leaves all records but its own. -/
theorem flatMap_applied_of_ne {records : List Json}
    (other : ∀ r ∈ records, Store.recordId? r ≠ Store.recordId? x.record) :
    records.flatMap x.applied = records := by
  rw [List.flatMap_congr fun r member => applied_of_ne (other r member)]
  exact List.flatMap_singleton' records

/-- At most one of two changes of different records touches a record. -/
theorem flatMap_applied_applied (other : Store.recordId? x.record ≠ Store.recordId? y.record)
    (r : Json) :
    (x.applied r).flatMap y.applied = (y.applied r).flatMap x.applied := by
  by_cases here : Store.recordId? r = Store.recordId? x.record
  · have elsewhere : Store.recordId? r ≠ Store.recordId? y.record := here ▸ other
    rw [applied_of_ne elsewhere, List.flatMap_singleton]
    refine flatMap_applied_of_ne fun r' made => ?_
    rwa [recordId?_of_mem_applied made]
  · rw [applied_of_ne here, List.flatMap_singleton]
    refine (flatMap_applied_of_ne fun r' made => ?_).symm
    rwa [recordId?_of_mem_applied made]

theorem flatMap_applied_added (other : Store.recordId? x.record ≠ Store.recordId? y.record) :
    x.added.flatMap y.applied = x.added := by
  refine flatMap_applied_of_ne fun r member => ?_
  rw [added] at member
  split at member
  · rwa [List.mem_singleton.mp member]
  · cases member

/-- Changes of different records can be followed in either order, unless both are new. -/
theorem replayIn_comm (other : Store.recordId? x.record ≠ Store.recordId? y.record)
    (notBothNew : ¬ (x.kind = .created ∧ y.kind = .created)) (records : List Json) :
    y.replayIn (x.replayIn records) = x.replayIn (y.replayIn records) := by
  have behind : x.added ++ y.added = y.added ++ x.added := by
    rw [added, added]
    by_cases new : x.kind = .created
    · rw [if_neg fun new' => notBothNew ⟨new, new'⟩, List.append_nil, List.nil_append]
    · rw [if_neg new, List.nil_append, List.append_nil]
  have inFront :
      (fun r => (x.applied r).flatMap y.applied) = fun r => (y.applied r).flatMap x.applied :=
    funext (flatMap_applied_applied other)
  rw [replayIn_eq x, replayIn_eq y, replayIn_eq y records, replayIn_eq x, List.flatMap_append,
    List.flatMap_append, flatMap_applied_added other, flatMap_applied_added other.symm,
    List.flatMap_assoc, List.flatMap_assoc, inFront, List.append_assoc, List.append_assoc, behind]

/-- A change to one record does not touch what is found under another identifier. -/
theorem find?_applied (own : Store.recordId? x.record = some id) (other : i ≠ id) (r : Json) :
    (x.applied r).find? (Store.hasId i) = [r].find? (Store.hasId i) := by
  by_cases here : Store.recordId? r = Store.recordId? x.record
  · have unfound (records : List Json) (same : ∀ r' ∈ records, Store.recordId? r' = some id) :
        records.find? (Store.hasId i) = none := by
      refine List.find?_eq_none.mpr fun r' member found => ?_
      exact Store.not_hasId_of_ne (same r' member) other found
    rw [unfound (x.applied r) fun r' made => by rw [recordId?_of_mem_applied made, here, own],
      unfound [r] fun r' member => by rw [List.mem_singleton.mp member, here, own]]
  · rw [applied_of_ne here]

/-- Following a change of one record leaves what is found under any other identifier. -/
theorem find?_replayIn (own : Store.recordId? x.record = some id) (other : i ≠ id)
    (records : List Json) :
    (x.replayIn records).find? (Store.hasId i) = records.find? (Store.hasId i) := by
  have behind : x.added.find? (Store.hasId i) = none := by
    rw [added]
    split
    · rw [List.find?_cons_of_neg (Store.not_hasId_of_ne own other), List.find?_nil]
    · rfl
  rw [replayIn_eq, List.find?_append, behind, Option.or_none]
  induction records with
  | nil => rfl
  | cons r rest ih =>
    rw [List.flatMap_cons, List.find?_append, find?_applied own other, ih, ← List.find?_append]
    rfl

end Change

/-! ## Operations in either order -/

namespace Store

variable {s : Store} {x y : Change} {c d i j : String}

/-- Follow a change in a store. -/
def follow (s : Store) (x : Change) : Store :=
  s.commit x.kind x.collection x.record (x.replayIn (s.records x.collection))

/-- Follow a change, if there is one. -/
def followed (s : Store) : Option Change → Store
  | none => s
  | some x => s.follow x

/-- A change is followed in its collection alone. -/
theorem records_follow (s : Store) (x : Change) (c : String) :
    (s.follow x).records c =
      if c = x.collection then x.replayIn (s.records x.collection) else s.records c :=
  records_commit s x.kind x.collection x.record _ c

/-- A change to one record is not seen in another. -/
theorem readOne_follow (own : recordId? x.record = some j) (apart : (x.collection, j) ≠ (c, i)) :
    (s.follow x).readOne c i = s.readOne c i := by
  rw [readOne, readOne, records_follow]
  split
  · next here =>
    subst here
    exact Change.find?_replayIn own (fun same => apart (same ▸ rfl)) _
  · rfl

/-- Changes to different records commute, unless both of them create one. -/
theorem collections_follow_comm
    (apart : x.collection = y.collection → recordId? x.record ≠ recordId? y.record)
    (notBothNew : ¬ (x.collection = y.collection ∧ x.kind = .created ∧ y.kind = .created)) :
    ((s.follow x).follow y).collections = ((s.follow y).follow x).collections := by
  have twice (x y : Change) : ((s.follow x).follow y).collections =
      (s.collections.insert x.collection (x.replayIn (s.records x.collection))).insert y.collection
        (y.replayIn ((s.follow x).records y.collection)) := rfl
  rw [twice x y, twice y x, records_follow, records_follow]
  by_cases here : x.collection = y.collection
  · rw [if_pos here.symm, if_pos here, here, Dict.insert_insert, Dict.insert_insert,
      Change.replayIn_comm (apart here) fun new => notBothNew ⟨here, new⟩]
  · rw [if_neg (Ne.symm here), if_neg here, Dict.insert_comm here]

namespace Operation

/-- The record that an operation is about, whatever the store holds: its collection and
its identifier. A record to be created has to bring its identifier along. -/
def target? : Operation → Option (String × String)
  | .create collection data => (recordId? data).map fun id => (collection, id)
  | .readMany .. => none
  | .readOne collection id | .update collection id _ | .patch collection id _
  | .remove collection id => some (collection, id)

end Operation

/-- What an operation on a record comes to: an answer and the change of a write. -/
abbrev Verdict := Answer × Option Change

/-- An operation on a record goes by what it finds under the identifier. A change that it
makes is one of that record, and one that creates it answers with it. -/
structure Settled (op : Operation) (c i : String) (verdict : Option Json → Verdict) : Prop where
  perform_eq : ∀ s : Store, Sound (s.records c) →
    op.perform s = ((verdict (s.readOne c i)).1, s.followed (verdict (s.readOne c i)).2)
  concerns : ∀ found x, (∀ r ∈ found, recordId? r = some i) → (verdict found).2 = some x →
    x.collection = c ∧ recordId? x.record = some i
  creates : ∀ found x, (verdict found).2 = some x → x.kind = .created →
    ∃ data, op = .create c data ∧ (verdict found).1 = .ok (some x.record)

/-- To commit an edit of sound records is to follow its change. -/
theorem commit_eq_follow {kind : ChangeKind} {record : Json} {records : List Json}
    (edit : Edit i record (s.records c) kind records) (own : recordId? record = some i)
    (sound : Sound (s.records c)) :
    s.commit kind c record records = s.follow ⟨kind, c, record⟩ := by
  rw [follow, edit.replayIn_eq own sound.distinct]

/-- An operation that never writes goes by what it finds, if its answer does. -/
theorem settled_of_kept {op : Operation} (answer : Option Json → Answer)
    (kept : ∀ s : Store, op.perform s = (answer (s.readOne c i), s)) :
    ∃ verdict, Settled op c i verdict := by
  refine ⟨fun found => (answer found, none), fun s _ => kept s, fun found x ids made => ?_,
    fun found x made => ?_⟩ <;> cases made

theorem any_hasId_eq_isSome (s : Store) : (s.records c).any (hasId i) = (s.readOne c i).isSome :=
  List.isSome_find?.symm

/-- Whether a create succeeds depends on what stands under its identifier. -/
theorem settled_create {members : List (String × Json)}
    (given : members.lookup "id" = some (.string i)) :
    ∃ verdict, Settled (.create c (.object members)) c i verdict := by
  have own := recordId?_put i members
  let record := Json.object (Pairs.put "id" (.string i) members)
  refine ⟨fun found => found.elim (.ok (some record), some ⟨.created, c, record⟩)
    fun _ => (.error (.invalidData (.duplicateId i)), none), fun s sound => ?_, ?_, ?_⟩
  · rw [Operation.perform, create, given]
    dsimp only
    rw [add, any_hasId_eq_isSome]
    cases found : s.readOne c i with
    | some r => rfl
    | none =>
      dsimp only [Option.isSome_none, Bool.false_eq_true, if_false]
      rw [commit_eq_follow (.append found) own sound]
      rfl
  · rintro (_ | r) x - made
    · cases made
      exact ⟨rfl, own⟩
    · cases made
  · rintro (_ | r) x made -
    · cases made
      exact ⟨_, rfl, rfl⟩
    · cases made

/-- Whether an update succeeds depends on what stands under its identifier. -/
theorem settled_update (data : Json) : ∃ verdict, Settled (.update c i data) c i verdict := by
  cases data with
  | object members =>
    have own := recordId?_put i members
    let record := Json.object (Pairs.put "id" (.string i) members)
    refine ⟨fun found => found.elim (.error (.notFound c i), none)
      fun _ => (.ok (some record), some ⟨.updated, c, record⟩), fun s sound => ?_, ?_, ?_⟩
    · rw [Operation.perform, update]
      dsimp only
      rw [any_hasId_eq_isSome]
      cases found : s.readOne c i with
      | some r =>
        have held : (s.records c).find? (hasId i) ≠ none :=
          ne_of_eq_of_ne found (Option.some_ne_none r)
        dsimp only [Option.isSome_some, if_true]
        rw [commit_eq_follow (.replace (.inl rfl) held) own sound]
        rfl
      | none => rfl
    · rintro (_ | r) x - made <;> cases made
      exact ⟨rfl, own⟩
    · rintro (_ | r) x made new <;> cases made
      cases new
  | _ => exact settled_of_kept (fun _ => .error (.invalidData (.notAnObject _))) fun s => rfl

theorem settled_patch (data : Json) : ∃ verdict, Settled (.patch c i data) c i verdict := by
  cases data with
  | object changes =>
    refine ⟨fun found => found.elim (.ok none, none) fun existing =>
      (.ok (some (patched changes existing)), some ⟨.patched, c, patched changes existing⟩),
      fun s sound => ?_, ?_, ?_⟩
    · rw [Operation.perform, patch]
      dsimp only
      cases found : s.readOne c i with
      | some existing =>
        have found' : (s.records c).find? (hasId i) = some existing := found
        have own : recordId? (patched changes existing) = some i := by
          rw [recordId?_patched, hasId_iff.mp (List.find?_some found')]
        have held : (s.records c).find? (hasId i) ≠ none :=
          ne_of_eq_of_ne found (Option.some_ne_none existing)
        rw [found']
        dsimp only
        rw [commit_eq_follow (.replace (.inr rfl) held) own sound]
        rfl
      | none =>
        have found' : (s.records c).find? (hasId i) = none := found
        rw [found']
        rfl
    · rintro (_ | existing) x ids made <;> cases made
      exact ⟨rfl, (recordId?_patched changes existing).trans (ids existing rfl)⟩
    · rintro (_ | existing) x made new <;> cases made
      cases new
  | _ => exact settled_of_kept (fun _ => .error (.invalidData (.notAnObject _))) fun s => rfl

theorem settled_remove : ∃ verdict, Settled (.remove c i) c i verdict := by
  refine ⟨fun found => (.ok found, found.map fun record => ⟨.removed, c, record⟩),
    fun s sound => ?_, ?_, ?_⟩
  · rw [Operation.perform, remove]
    dsimp only
    cases found : s.readOne c i with
    | some record =>
      have found' : (s.records c).find? (hasId i) = some record := found
      have own := hasId_iff.mp (List.find?_some found')
      rw [found']
      dsimp only
      rw [commit_eq_follow (.take found') own sound]
      rfl
    | none =>
      have found' : (s.records c).find? (hasId i) = none := found
      rw [found']
      rfl
  · rintro (_ | record) x ids made <;> cases made
    exact ⟨rfl, ids record rfl⟩
  · rintro (_ | record) x made new <;> cases made
    cases new

/-- An operation on a record goes by what it finds there, and by nothing else. -/
theorem exists_verdict {op : Operation} (target : op.target? = some (c, i)) :
    ∃ verdict, Settled op c i verdict := by
  cases op with
  | create collection data =>
    obtain ⟨id, own, same⟩ := Option.map_eq_some_iff.mp target
    cases same
    obtain ⟨members, rfl, given⟩ := recordId?_eq_some_iff.mp own
    exact settled_create given
  | readMany collection query => cases target
  | readOne collection id =>
    cases target
    exact settled_of_kept .ok fun s => rfl
  | update collection id data =>
    cases target
    exact settled_update data
  | patch collection id data =>
    cases target
    exact settled_patch data
  | remove collection id =>
    cases target
    exact settled_remove

section Order

variable {a b : Operation} {verdict verdict' : Option Json → Verdict}

theorem recordId?_of_readOne : ∀ r ∈ s.readOne c i, recordId? r = some i :=
  fun _ found => hasId_iff.mp (List.find?_some found)

/-- An operation on another record has no say in what an operation comes to. -/
theorem Settled.perform_after (settled : Settled a c i verdict) (settled' : Settled b d j verdict')
    (apart : (c, i) ≠ (d, j)) (sound : Sound (s.records d))
    (further : Sound ((b.perform s).2.records c)) :
    a.perform (b.perform s).2 =
      ((verdict (s.readOne c i)).1, (b.perform s).2.followed (verdict (s.readOne c i)).2) := by
  have left : (b.perform s).2 = s.followed (verdict' (s.readOne d j)).2 :=
    congrArg Prod.snd (settled'.perform_eq s sound)
  have kept : (b.perform s).2.readOne c i = s.readOne c i := by
    rw [left]
    cases change : (verdict' (s.readOne d j)).2 with
    | none => rfl
    | some x =>
      obtain ⟨place, own⟩ := settled'.concerns _ x recordId?_of_readOne change
      exact readOne_follow own (place ▸ apart.symm)
  rw [settled.perform_eq _ further, kept]

theorem changes_followed (s : Store) (x? : Option Change) :
    (s.followed x?).changes = s.changes ++ x?.toList := by
  cases x? with
  | none => exact (List.append_nil _).symm
  | some x => rfl

theorem supply_followed (s : Store) (x? : Option Change) :
    (s.followed x?).supply = s.supply ∧ (s.followed x?).drawn = s.drawn := by
  cases x? <;> exact ⟨rfl, rfl⟩

end Order

/-- Two operations on a store answer and publish the same in either order, and the stores
that they leave differ at most in the order of two records that they both created. -/
structure Interchangeable (s : Store) (a b : Operation) : Prop where
  first : (a.perform (b.perform s).2).1 = (a.perform s).1
  second : (b.perform (a.perform s).2).1 = (b.perform s).1
  changes : ∃ x y : List Change,
    (a.perform s).2.changes = s.changes ++ x ∧ (b.perform s).2.changes = s.changes ++ y ∧
      (s.after [a, b]).changes = s.changes ++ x ++ y ∧
      (s.after [b, a]).changes = s.changes ++ y ++ x
  supply : (s.after [a, b]).supply = (s.after [b, a]).supply ∧
    (s.after [a, b]).drawn = (s.after [b, a]).drawn
  collections : (s.after [a, b]).collections = (s.after [b, a]).collections ∨
    ∃ c data data' r r', a = .create c data ∧ b = .create c data' ∧
      (a.perform s).1 = .ok (some r) ∧ (b.perform s).1 = .ok (some r') ∧
      (s.after [a, b]).collections = s.collections.insert c (s.records c ++ [r, r']) ∧
      (s.after [b, a]).collections = s.collections.insert c (s.records c ++ [r', r])

/-- Operations keep identifiers distinct. -/
theorem sound_perform (op : Operation) (sound : ∀ c, Sound (s.records c)) (c : String) :
    Sound ((op.perform s).2.records c) := by
  have done := performed s op
  generalize op.perform s = result at done ⊢
  cases done with
  | kept => exact sound c
  | wrote wrote =>
    by_cases here : c = op.collection
    · subst here
      exact wrote.edit.sound wrote.own (sound _)
    · rw [wrote.elsewhere c here]
      exact sound c

/-- Records that are created stand in the order of their creation. -/
theorem collections_follow_created (place : x.collection = c) (place' : y.collection = c)
    (new : x.kind = .created) (new' : y.kind = .created) :
    ((s.follow x).follow y).collections =
      s.collections.insert c (s.records c ++ [x.record, y.record]) := by
  obtain ⟨kind, collection, record⟩ := x
  obtain ⟨kind', collection', record'⟩ := y
  subst place new new'
  cases place'
  have twice : ((s.follow ⟨.created, collection, record⟩).follow
        ⟨.created, collection, record'⟩).collections =
      (s.collections.insert collection (s.records collection ++ [record])).insert collection
        ((s.follow ⟨.created, collection, record⟩).records collection ++ [record']) := rfl
  rw [twice, Dict.insert_insert, records_follow, if_pos rfl]
  exact congrArg _ (List.append_assoc _ _ _)

/-- The collections that two operations on different records leave. -/
theorem collections_in_either_order {a b : Operation} {verdict verdict' : Option Json → Verdict}
    (settled : Settled a c i verdict) (settled' : Settled b d j verdict')
    (apart : (c, i) ≠ (d, j)) :
    let (answer, x?) := verdict (s.readOne c i)
    let (answer', y?) := verdict' (s.readOne d j)
    ((s.followed x?).followed y?).collections = ((s.followed y?).followed x?).collections ∨
      ∃ c data data' r r', a = .create c data ∧ b = .create c data' ∧
        answer = .ok (some r) ∧ answer' = .ok (some r') ∧
        ((s.followed x?).followed y?).collections =
          s.collections.insert c (s.records c ++ [r, r']) ∧
        ((s.followed y?).followed x?).collections =
          s.collections.insert c (s.records c ++ [r', r]) := by
  have concerns := settled.concerns (s.readOne c i)
  have concerns' := settled'.concerns (s.readOne d j)
  have creates := settled.creates (s.readOne c i)
  have creates' := settled'.creates (s.readOne d j)
  generalize verdict (s.readOne c i) = v at concerns creates ⊢
  generalize verdict' (s.readOne d j) = v' at concerns' creates' ⊢
  obtain ⟨answer, _ | x⟩ := v
  · exact .inl rfl
  obtain ⟨answer', _ | y⟩ := v'
  · exact .inl rfl
  obtain ⟨place, own⟩ := concerns x recordId?_of_readOne rfl
  obtain ⟨place', own'⟩ := concerns' y recordId?_of_readOne rfl
  by_cases bothNew : x.collection = y.collection ∧ x.kind = .created ∧ y.kind = .created
  · obtain ⟨same, new, new'⟩ := bothNew
    obtain rfl : d = c := by rw [← place', ← same, place]
    obtain ⟨data, rfl, answered⟩ := creates x rfl new
    obtain ⟨data', rfl, answered'⟩ := creates' y rfl new'
    exact .inr ⟨d, data, data', x.record, y.record, rfl, rfl, answered, answered',
      collections_follow_created place place' new new',
      collections_follow_created place' place new' new⟩
  · refine .inl (collections_follow_comm (fun same ids => apart ?_) bothNew)
    rw [own, own', Option.some.injEq] at ids
    rw [← place, same, place', ids]

/-- In every store that operations lead to, two operations on different records can be
performed in either order: each answers the same, the same is published and the same
collections are left, two new records of one collection standing as they came. -/
theorem independent_operations_commute (supply : Nat → String) (ops : List Operation)
    {a b : Operation} {t u : String × String} (first : a.target? = some t)
    (second : b.target? = some u) (apart : t ≠ u) :
    Interchangeable ((new supply).after ops) a b := by
  have sound := (reflects_after supply ops).sound
  generalize (new supply).after ops = s at sound ⊢
  obtain ⟨c, i⟩ := t
  obtain ⟨d, j⟩ := u
  obtain ⟨verdict, settled⟩ := exists_verdict first
  obtain ⟨verdict', settled'⟩ := exists_verdict second
  have alone := settled.perform_eq s (sound c)
  have alone' := settled'.perform_eq s (sound d)
  have behind := settled.perform_after settled' apart (sound d) (sound_perform b sound c)
  have behind' := settled'.perform_after settled apart.symm (sound c) (sound_perform a sound d)
  have order : s.after [a, b] = (b.perform (a.perform s).2).2 := rfl
  have order' : s.after [b, a] = (a.perform (b.perform s).2).2 := rfl
  rw [behind', alone] at order
  rw [behind, alone'] at order'
  refine ⟨?_, ?_,
    ⟨(verdict (s.readOne c i)).2.toList, (verdict' (s.readOne d j)).2.toList, ?_⟩, ?_, ?_⟩
  · rw [behind, alone]
  · rw [behind', alone']
  · rw [order, order', alone, alone']
    simp only [changes_followed, and_self]
  · rw [order, order']
    simp only [supply_followed, and_self]
  · rw [order, order', alone, alone']
    exact collections_in_either_order settled settled' apart

/-- Two notes that are created one after the other stand in that order. -/
theorem new_notes_stand_as_they_came :
    let note (id : String) := Operation.create "notes" (.object [("id", .string id)])
    (note "1").target? = some ("notes", "1") ∧ (note "2").target? = some ("notes", "2") ∧
      ("notes", "1") ≠ ("notes", "2") ∧
      Interchangeable ((new Nat.repr).after [note "0"]) (note "1") (note "2") := by
  refine ⟨rfl, rfl, by decide, ?_⟩
  exact independent_operations_commute Nat.repr [_] rfl rfl (by decide)

end Store

end EndpointTree
