import EndpointTree.Proofs.Store.Operations
import Mathlib.Data.List.Dedup
import Mathlib.Data.List.Induction

/-!
# The records of a store

After any operations on an empty store, every record is an object with an identifier
that no other one of its collection has, the records stand in the order in which they
were created, and what is read under an identifier is what the last successful write
left there. An operation touches no record but the one that it is about.

* `Store.Reflects` says what a store has to do with the log of what happened to it.
* `Store.Reflects.concat`: an operation keeps it that way.
* `Store.records_reflect_the_log` says it of every run.
-/

namespace EndpointTree.Store

/-! ## Sound collections -/

/-- Every record is an object whose `id` is a string, and no two records share it. -/
structure Sound (records : List Json) : Prop where
  keyed : ∀ r ∈ records, ∃ members id,
    r = .object members ∧ members.lookup "id" = some (.string id)
  distinct : (records.map recordId?).Nodup

/-- Soundness is a matter of the identifiers alone. -/
theorem sound_iff {records : List Json} :
    Sound records ↔ none ∉ records.map recordId? ∧ (records.map recordId?).Nodup := by
  have keyed_iff (r : Json) : (∃ members id,
      r = .object members ∧ members.lookup "id" = some (.string id)) ↔ recordId? r ≠ none := by
    rw [Option.ne_none_iff_exists', exists_comm]
    simp only [recordId?_eq_some_iff]
  constructor
  · rintro ⟨keyed, distinct⟩
    refine ⟨fun member => ?_, distinct⟩
    obtain ⟨r, member, none⟩ := List.mem_map.mp member
    exact (keyed_iff r).mp (keyed r member) none
  · rintro ⟨keyed, distinct⟩
    refine ⟨fun r member => (keyed_iff r).mpr fun none => keyed ?_, distinct⟩
    exact none ▸ List.mem_map_of_mem member

variable {id : String} {record : Json} {records next : List Json} {kind : ChangeKind}

/-- An edit keeps identifiers distinct. -/
theorem Edit.sound (edit : Edit id record records kind next) (own : recordId? record = some id)
    (sound : Sound records) : Sound next := by
  rw [sound_iff] at sound ⊢
  obtain ⟨keyed, distinct⟩ := sound
  cases edit with
  | append fresh =>
    have free := find?_hasId_eq_none_iff.mp fresh
    rw [List.map_append, List.map_singleton, own]
    refine ⟨?_, ?_⟩
    · simpa using keyed
    · exact (List.nodup_cons.mpr ⟨free, distinct⟩).perm (List.perm_append_singleton _ _).symm
  | replace replaces held =>
    rw [map_recordId?_replaceFirst own]
    exact ⟨keyed, distinct⟩
  | take found =>
    rw [map_recordId?_removeFirst]
    exact ⟨fun member => keyed (List.mem_of_mem_erase member), distinct.erase _⟩

/-! ## Logs -/

/-- What a logged operation left under an identifier, where it wrote there: a record, or
nothing if it took the record out. -/
def leaves? (c i : String) : Operation × Answer → Option (Option Json)
  | (.create c' _, .ok (some record)) =>
    if c' = c ∧ recordId? record = some i then some (some record) else none
  | (.update c' i' _, .ok (some record)) => if c' = c ∧ i' = i then some (some record) else none
  | (.patch c' i' _, .ok (some record)) => if c' = c ∧ i' = i then some (some record) else none
  | (.remove c' i', .ok (some _)) => if c' = c ∧ i' = i then some none else none
  | _ => none

/-- The identifier of the record that a logged operation created in a collection. -/
def creates? (c : String) : Operation × Answer → Option String
  | (.create c' _, .ok (some record)) => if c' = c then recordId? record else none
  | _ => none

/-- What the last successful write under an identifier left. -/
def lastLeft (c i : String) (log : List (Operation × Answer)) : Option Json :=
  (log.reverse.findSome? (leaves? c i)).getD none

/-- The last entry of a log decides where it has to do with the record. -/
theorem lastLeft_concat (c i : String) (log : List (Operation × Answer))
    (entry : Operation × Answer) :
    lastLeft c i (log ++ [entry]) = (leaves? c i entry).getD (lastLeft c i log) := by
  rw [lastLeft, List.reverse_append, List.reverse_singleton, List.singleton_append,
    List.findSome?_cons]
  cases leaves? c i entry <;> rfl

section

variable {s after : Store} {op : Operation} {answer : Answer}

/-- An operation without effect leaves nothing in the log. -/
theorem nothing_logged_of_kept
    (kept : op.kind? = none ∨ ∀ record, answer ≠ .ok (some record)) (c i : String) :
    leaves? c i (op, answer) = none ∧ creates? c (op, answer) = none := by
  rcases kept with reads | quiet
  · cases op with
    | readOne | readMany => exact ⟨rfl, rfl⟩
    | _ => cases reads
  · match answer with
    | .ok (some record) => exact absurd rfl (quiet record)
    | .ok none => cases op <;> exact ⟨rfl, rfl⟩
    | .error fault => cases op <;> exact ⟨rfl, rfl⟩

/-- A write leaves something under its own identifier alone. -/
theorem Wrote.leaves?_eq (wrote : Wrote s op kind id record after) (c i : String) :
    leaves? c i (op, .ok (some record)) =
      if op.collection = c ∧ id = i then some (left record kind) else none := by
  obtain ⟨kindEq, idEq, own, -⟩ := wrote
  cases op with
  | create c' data =>
    cases kindEq
    refine if_congr (and_congr_right fun _ => ?_) rfl rfl
    rw [own, Option.some.injEq]
  | readOne | readMany => cases kindEq
  | update | patch | remove =>
    cases kindEq
    cases idEq
    rfl

theorem Wrote.creates?_eq (wrote : Wrote s op kind id record after) (c : String) :
    creates? c (op, .ok (some record)) =
      if op.collection = c ∧ kind = .created then some id else none := by
  obtain ⟨kindEq, -, own, -⟩ := wrote
  cases op with
  | create c' data =>
    cases kindEq
    simp only [creates?, own, Operation.collection, and_true]
  | readOne | readMany => cases kindEq
  | update | patch | remove =>
    cases kindEq
    simp only [creates?, reduceCtorEq, and_false, if_false]

/-- A write is read under its own identifier, and seen under no other. -/
theorem Wrote.readOne_eq (wrote : Wrote s op kind id record after)
    (sound : Sound (s.records op.collection)) (c i : String) :
    after.readOne c i =
      if op.collection = c ∧ id = i then left record kind else s.readOne c i := by
  rw [readOne, readOne]
  by_cases here : c = op.collection
  · subst here
    rw [wrote.edit.find?_hasId wrote.own sound.distinct]
    simp only [true_and, eq_comm]
  · rw [wrote.elsewhere c here, if_neg fun both => here both.1.symm]

end

/-! ## The order of creation -/

theorem dedup_concat {α : Type} [DecidableEq α] (xs : List α) (a : α) :
    (xs ++ [a]).dedup = xs.dedup.filter (fun x => x ≠ a) ++ [a] := by
  induction xs with
  | nil => rfl
  | cons x xs ih =>
    rw [List.cons_append]
    by_cases again : x ∈ xs
    · rw [List.dedup_cons_of_mem again, List.dedup_cons_of_mem (List.mem_append_left _ again), ih]
    · rw [List.dedup_cons_of_notMem again]
      by_cases same : x = a
      · subst same
        rw [List.dedup_cons_of_mem (List.mem_append_right _ (List.mem_singleton_self _)), ih,
          List.filter_cons_of_neg (by simp)]
      · have absent : x ∉ xs ++ [a] := by simp [again, same]
        rw [List.dedup_cons_of_notMem absent, ih, List.filter_cons_of_pos (by simpa using same),
          List.cons_append]

/-- The identifiers that records have, in the order of their creation; of several
creations of one identifier the last counts. -/
def living (records : List Json) (created : List String) : List String :=
  created.dedup.filter fun i => (records.find? (hasId i)).isSome

section

variable {created : List String}

/-- A new record stands last. -/
theorem living_concat (fresh : records.find? (hasId id) = none)
    (found : ∀ i, next.find? (hasId i) = if i = id then some record else records.find? (hasId i)) :
    living next (created ++ [id]) = living records created ++ [id] := by
  -- The identifier is free, so a creation of it that came before is of a record that is gone.
  have others : (created.dedup.filter (fun i => i ≠ id)).filter
        (fun i => (next.find? (hasId i)).isSome) =
      created.dedup.filter fun i => (records.find? (hasId i)).isSome := by
    rw [List.filter_filter]
    refine List.filter_congr fun i _ => ?_
    by_cases same : i = id
    · subst same
      simp [fresh]
    · simp [found, same]
  have last : [id].filter (fun i => (next.find? (hasId i)).isSome) = [id] := by
    simp [found]
  rw [living, living, dedup_concat, List.filter_append, others, last]

/-- A record that takes the place of another one does not move. -/
theorem living_of_held (held : records.find? (hasId id) ≠ none)
    (found : ∀ i, next.find? (hasId i) = if i = id then some record else records.find? (hasId i)) :
    living next created = living records created := by
  refine List.filter_congr fun i _ => ?_
  rw [found]
  by_cases same : i = id
  · subst same
    rw [if_pos rfl, Option.isSome_iff_ne_none.mpr held]
    rfl
  · rw [if_neg same]

/-- A record that is taken out leaves the others where they are. -/
theorem living_of_gone
    (found : ∀ i, next.find? (hasId i) = if i = id then none else records.find? (hasId i)) :
    living next created = (living records created).filter fun i => i ≠ id := by
  rw [living, living, List.filter_filter]
  refine List.filter_congr fun i _ => ?_
  by_cases same : i = id
  · subst same
    simp [found]
  · simp [found, same]

/-- An edit keeps the order of creation: a new record stands last, and no other one moves. -/
theorem Edit.map_recordId?_living (edit : Edit id record records kind next)
    (own : recordId? record = some id) (sound : Sound records)
    (ordered : records.map recordId? = (living records created).map some) :
    next.map recordId? =
      (living next (created ++ if kind = .created then [id] else [])).map some := by
  have found := edit.find?_hasId own sound.distinct
  cases edit with
  | append fresh =>
    rw [if_pos rfl, living_concat fresh found, List.map_append, List.map_append, ordered,
      List.map_singleton, own, List.map_singleton]
  | replace replaces held =>
    have notCreated : kind ≠ .created := by
      rintro rfl
      rcases replaces with equal | equal <;> cases equal
    have alive : left record kind = some record := by
      rcases replaces with rfl | rfl <;> rfl
    rw [alive] at found
    rw [if_neg notCreated, List.append_nil, map_recordId?_replaceFirst own, ordered,
      living_of_held held found]
  | take present =>
    rw [if_neg (by decide), List.append_nil, living_of_gone found, map_recordId?_removeFirst,
      sound.distinct.erase_eq_filter, ordered, List.filter_map]
    refine congrArg _ (List.filter_congr fun i _ => ?_)
    rw [Bool.eq_iff_iff]
    simp

end

/-! ## Runs -/

/-- A store and the log of what happened to it: its records are sound, they stand in the
order of their creation, and a look-up finds what the last successful write left. -/
structure Reflects (s : Store) (log : List (Operation × Answer)) : Prop where
  sound : ∀ c, Sound (s.records c)
  ordered : ∀ c, (s.records c).map recordId? =
    (living (s.records c) (log.filterMap (creates? c))).map some
  readOne_eq : ∀ c i, s.readOne c i = lastLeft c i log

/-- A new store reflects an empty log. -/
theorem reflects_new (supply : Nat → String) : Reflects (new supply) [] where
  sound _ := ⟨fun _ member => absurd member List.not_mem_nil, List.nodup_nil⟩
  ordered _ := rfl
  readOne_eq _ _ := rfl

/-- An operation and its answer in the log, a store is as the log says. -/
theorem Reflects.concat {s : Store} {log : List (Operation × Answer)} (reflects : Reflects s log)
    (op : Operation) : Reflects (op.perform s).2 (log ++ [(op, (op.perform s).1)]) := by
  have done := performed s op
  generalize op.perform s = result at done ⊢
  cases done with
  | @kept answer kept =>
    have nothing := nothing_logged_of_kept kept
    refine ⟨reflects.sound, fun c => ?_, fun c i => ?_⟩
    · rw [List.filterMap_append, List.filterMap_cons_none (nothing c "").2, List.filterMap_nil,
        List.append_nil]
      exact reflects.ordered c
    · rw [lastLeft_concat, (nothing c i).1]
      exact reflects.readOne_eq c i
  | @wrote kind id record next wrote =>
    refine ⟨fun c => ?_, fun c => ?_, fun c i => ?_⟩
    · by_cases here : c = op.collection
      · subst here
        exact wrote.edit.sound wrote.own (reflects.sound _)
      · rw [wrote.elsewhere c here]
        exact reflects.sound c
    · rw [List.filterMap_append, List.filterMap_cons, wrote.creates?_eq]
      by_cases here : op.collection = c
      · subst here
        have ordered := wrote.edit.map_recordId?_living wrote.own (reflects.sound _)
          (reflects.ordered _)
        by_cases created : kind = .created
        · rw [if_pos ⟨rfl, created⟩]
          rwa [if_pos created] at ordered
        · rw [if_neg fun both => created both.2]
          rwa [if_neg created] at ordered
      · rw [if_neg fun both => here both.1, wrote.elsewhere c (Ne.symm here)]
        exact (List.append_nil (log.filterMap (creates? c))).symm ▸ reflects.ordered c
    · rw [lastLeft_concat, wrote.leaves?_eq, wrote.readOne_eq (reflects.sound _)]
      split
      · rfl
      · exact reflects.readOne_eq c i

/-- What is left after operations on an empty store is as their log says. -/
theorem reflects_after (supply : Nat → String) (ops : List Operation) :
    Reflects ((new supply).after ops) ((new supply).log ops) := by
  induction ops using List.reverseRecOn with
  | nil => exact reflects_new supply
  | append_singleton ops op reflects =>
    rw [after_concat, log_concat]
    exact reflects.concat op

/-- What an operation has not to do with: the other collections, the other records of its
own, with their places, and, where it changes a record that is there, the record's own
place and identifier. -/
structure Framed (s : Store) (op : Operation) (next : Store) : Prop where
  elsewhere : ∀ c, c ≠ op.collection → next.records c = s.records c
  others : ∀ id, op.id? s = some id →
    (next.records op.collection).filter (fun r => !hasId id r) =
      (s.records op.collection).filter (fun r => !hasId id r)
  unaddressed : op.id? s = none → next.records op.collection = s.records op.collection
  inPlace : op.kind? = some .updated ∨ op.kind? = some .patched →
    (next.records op.collection).map recordId? = (s.records op.collection).map recordId?

theorem framed (s : Store) (op : Operation) : Framed s op (op.perform s).2 := by
  have done := performed s op
  generalize op.perform s = result at done ⊢
  cases done with
  | kept => exact ⟨fun _ _ => rfl, fun _ _ => rfl, fun _ => rfl, fun _ => rfl⟩
  | @wrote kind id record next wrote =>
    refine ⟨wrote.elsewhere, fun i about => ?_, fun nowhere => ?_, fun changes => ?_⟩
    · rw [wrote.id?_eq] at about
      cases about
      exact wrote.edit.others wrote.own
    · rw [wrote.id?_eq] at nowhere
      cases nowhere
    · rw [wrote.kind?_eq] at changes
      exact wrote.edit.inPlace wrote.own (changes.imp Option.some.inj Option.some.inj)

/-- After any operations on an empty store, every record is an object with a string `id`
of its own, the records of a collection stand in the order of their creation, and reading
gives what the last successful write left. Any further operation leaves alone all that it
is not about. -/
theorem records_reflect_the_log (supply : Nat → String) (ops : List Operation) :
    let s := (new supply).after ops
    Reflects s ((new supply).log ops) ∧ ∀ op, Framed s op (op.perform s).2 :=
  ⟨reflects_after supply ops, framed _⟩

end EndpointTree.Store
