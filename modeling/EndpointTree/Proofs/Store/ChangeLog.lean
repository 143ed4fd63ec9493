import EndpointTree.Proofs.Store.Records
import Mathlib.Logic.Function.Basic

/-!
# Changes as a log

Whoever starts with nothing and follows the published changes, one after another, holds
the very records of the store, in the same order. An operation that fails or finds
nothing publishes nothing and changes nothing; any other write publishes one change with
the full record.

* `Change.replay` follows changes. It goes by identifiers and knows nothing of operations.
* `Store.Edit.replayIn_eq`: to follow the change of an edit is to make the edit.
* `Store.changes_after`: the log of operations says what they publish.
* `Store.changes_replay_to_the_records` says it of every run.
-/

namespace EndpointTree

namespace Change

/-- Follow a change in a copy of its collection: a new record goes to the end, a changed
one takes the place of the record with its identifier, a removed one goes. -/
def replayIn (change : Change) (records : List Json) : List Json :=
  let same := fun r => Store.recordId? r = Store.recordId? change.record
  match change.kind with
  | .created => records ++ [change.record]
  | .updated | .patched => records.map fun r => if same r then change.record else r
  | .removed => records.filter fun r => ¬ same r

/-- Follow changes from the first to the last, starting with no records anywhere. -/
def replay (changes : List Change) : String → List Json :=
  changes.foldl
    (fun mirror change => Function.update mirror change.collection
      (change.replayIn (mirror change.collection)))
    fun _ => []

/-- One more change is replayed in its collection alone. -/
theorem replay_concat (changes : List Change) (change : Change) :
    replay (changes ++ [change]) = Function.update (replay changes) change.collection
      (change.replayIn (replay changes change.collection)) := by
  rw [replay, List.foldl_append]
  rfl

end Change

namespace Store

variable {id : String} {record : Json} {records next : List Json} {kind : ChangeKind}

/-! ## Edits as changes -/

theorem ne_of_distinct {r : Json} {rest : List Json}
    (distinct : ((r :: rest).map recordId?).Nodup) (here : recordId? r = some id) :
    ∀ r' ∈ rest, recordId? r' ≠ some id := by
  intro r' member same
  refine (List.nodup_cons.mp distinct).1 ?_
  rw [here, ← same]
  exact List.mem_map_of_mem member

/-- Where identifiers are distinct, replacing goes by identifier. -/
theorem replaceFirst_eq_map (distinct : (records.map recordId?).Nodup) :
    replaceFirst id record records =
      records.map fun r => if recordId? r = some id then record else r := by
  induction records with
  | nil => rfl
  | cons r rest ih =>
    rw [replaceFirst, List.map_cons]
    by_cases here : recordId? r = some id
    · rw [if_pos (hasId_iff.mpr here), if_pos here]
      have others : ∀ r' ∈ rest, (if recordId? r' = some id then record else r') = r' :=
        fun r' member => if_neg (ne_of_distinct distinct here r' member)
      rw [List.map_congr_left others, List.map_id']
    · rw [if_neg (hasId_iff.not.mpr here), if_neg here, ih (List.nodup_cons.mp distinct).2]

/-- Where identifiers are distinct, removing goes by identifier. -/
theorem removeFirst_eq_filter (distinct : (records.map recordId?).Nodup) :
    removeFirst id records = records.filter fun r => ¬ recordId? r = some id := by
  induction records with
  | nil => rfl
  | cons r rest ih =>
    rw [removeFirst, List.filter_cons]
    by_cases here : recordId? r = some id
    · rw [if_pos (hasId_iff.mpr here), if_neg (by simpa using here)]
      refine (List.filter_eq_self.mpr fun r' member => ?_).symm
      exact decide_eq_true (ne_of_distinct distinct here r' member)
    · rw [if_neg (hasId_iff.not.mpr here), if_pos (by simpa using here),
        ih (List.nodup_cons.mp distinct).2]

/-- Among distinct identifiers, to follow the change of an edit is to make the edit. -/
theorem Edit.replayIn_eq (edit : Edit id record records kind next)
    (own : recordId? record = some id) (distinct : (records.map recordId?).Nodup)
    (collection : String) : Change.replayIn ⟨kind, collection, record⟩ records = next := by
  cases edit with
  | append fresh => rfl
  | replace replaces held =>
    rw [replaceFirst_eq_map distinct]
    rcases replaces with rfl | rfl <;> simp only [Change.replayIn, own]
  | take found =>
    rw [removeFirst_eq_filter distinct]
    simp only [Change.replayIn, own]

/-! ## Runs -/

/-- What an operation publishes: nothing, if it reads or comes to nothing, and then no
record changes either; otherwise one change, with the record that it leaves or takes out. -/
structure Published (s : Store) (op : Operation) (result : Answer × Store) : Prop where
  nothing : op.kind? = none ∨ (∀ record, result.1 ≠ .ok (some record)) →
    result.2.changes = s.changes ∧ result.2.records = s.records
  one : ∀ kind record, op.kind? = some kind → result.1 = .ok (some record) →
    result.2.changes = s.changes ++ [⟨kind, op.collection, record⟩] ∧
      ∃ id, op.id? s = some id ∧ recordId? record = some id ∧
        (kind = .removed → s.readOne op.collection id = some record ∧
          result.2.readOne op.collection id = none) ∧
        (kind ≠ .removed → result.2.readOne op.collection id = some record)

theorem Edit.found_of_removed (edit : Edit id record records .removed next) :
    records.find? (hasId id) = some record := by
  cases edit with
  | replace replaces held => rcases replaces with equal | equal <;> cases equal
  | take found => exact found

theorem left_of_ne_removed (kept : kind ≠ .removed) : left record kind = some record := by
  cases kind with
  | removed => exact absurd rfl kept
  | _ => rfl

/-- Every operation publishes what it does. -/
theorem published {s : Store} (op : Operation) (sound : Sound (s.records op.collection)) :
    Published s op (op.perform s) := by
  have done := performed s op
  generalize op.perform s = result at done ⊢
  cases done with
  | kept quiet =>
    refine ⟨fun _ => ⟨rfl, rfl⟩, fun kind record kindEq answered => ?_⟩
    rcases quiet with reads | quiet
    · rw [reads] at kindEq
      cases kindEq
    · exact absurd answered (quiet record)
  | @wrote kind id record next wrote =>
    have now : next.readOne op.collection id = left record kind := by
      rw [wrote.readOne_eq sound, if_pos ⟨rfl, rfl⟩]
    refine ⟨fun quiet => ?_, fun kind' record' kindEq answered => ?_⟩
    · rcases quiet with reads | quiet
      · rw [wrote.kind?_eq] at reads
        cases reads
      · exact absurd rfl (quiet record)
    · rw [wrote.kind?_eq] at kindEq
      cases kindEq
      cases answered
      refine ⟨wrote.changes, id, wrote.id?_eq, wrote.own, ?_, fun kept => ?_⟩
      · rintro rfl
        exact ⟨wrote.edit.found_of_removed, now⟩
      · rw [now, left_of_ne_removed kept]

/-- Where the changes replay to the records, they do so after one more operation. -/
theorem replay_perform {s : Store} (op : Operation) (sound : ∀ c, Sound (s.records c))
    (replayed : Change.replay s.changes = s.records) :
    Change.replay (op.perform s).2.changes = (op.perform s).2.records := by
  have done := performed s op
  generalize op.perform s = result at done ⊢
  cases done with
  | kept => exact replayed
  | @wrote kind id record next wrote =>
    rw [wrote.changes, Change.replay_concat, replayed]
    funext c
    by_cases here : c = op.collection
    · subst here
      rw [Function.update_self]
      exact wrote.edit.replayIn_eq wrote.own (sound _).distinct op.collection
    · rw [Function.update_of_ne here]
      exact (wrote.elsewhere c here).symm

/-- The change that a logged operation published: one with the record that it answered, if
it wrote one. -/
def change? (entry : Operation × Answer) : Option Change :=
  match entry.1.kind?, entry.2 with
  | some kind, .ok (some record) => some ⟨kind, entry.1.collection, record⟩
  | _, _ => none

/-- An operation adds its own change to the log, if it makes one. -/
theorem changes_perform (s : Store) (op : Operation) :
    (op.perform s).2.changes = s.changes ++ (change? (op, (op.perform s).1)).toList := by
  have done := performed s op
  generalize op.perform s = result at done ⊢
  cases done with
  | @kept answer quiet =>
    have silent : change? (op, answer) = none := by
      rcases quiet with reads | quiet
      · simp only [change?, reads]
      · match answer with
        | .ok (some record) => exact absurd rfl (quiet record)
        | .ok none | .error _ => cases op <;> rfl
    rw [silent]
    exact (List.append_nil _).symm
  | @wrote kind id record next wrote =>
    have told : change? (op, .ok (some record)) = some ⟨kind, op.collection, record⟩ := by
      simp only [change?, wrote.kind?_eq]
    rw [told]
    exact wrote.changes

/-- Operations publish what their log says, in its order. -/
theorem changes_after (s : Store) (ops : List Operation) :
    (s.after ops).changes = s.changes ++ (s.log ops).filterMap change? := by
  induction ops using List.reverseRecOn with
  | nil => exact (List.append_nil _).symm
  | append_singleton ops op ih =>
    rw [after_concat, log_concat, changes_perform, ih, List.filterMap_append, List.append_assoc,
      List.filterMap_cons, List.filterMap_nil]
    cases change? (op, (op.perform (s.after ops)).1) <;> rfl

/-- A store that grows keeps the changes it has published. -/
theorem Grows.changes_prefix {s s' : Store} (grows : s.Grows s') : s.changes <+: s'.changes := by
  obtain ⟨ops, rfl⟩ := grows
  exact ⟨_, (changes_after s ops).symm⟩

/-- After any operations on an empty store, following the changes from nothing comes to
the records of every collection, and any further operation publishes exactly what it does
to a record. -/
theorem changes_replay_to_the_records (supply : Nat → String) (ops : List Operation) :
    let s := (new supply).after ops
    Change.replay s.changes = s.records ∧ ∀ op, Published s op (op.perform s) := by
  have sound (ops : List Operation) (c : String) : Sound (((new supply).after ops).records c) :=
    (reflects_after supply ops).sound c
  refine ⟨?_, fun op => published op (sound ops _)⟩
  induction ops using List.reverseRecOn with
  | nil => rfl
  | append_singleton ops op replayed =>
    rw [after_concat]
    exact replay_perform op (sound ops) replayed

end Store

end EndpointTree
