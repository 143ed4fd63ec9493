import EndpointTree.Proofs.Store.Records
import EndpointTree.Proofs.Text.Unsigned

/-!
# Paging by cursors

A page starts at the position that its cursor spells and has at most as many documents as the
query asks for. Its own cursor spells the position behind it, which is below the number of the
records that the filter accepts, so that following cursors from page to page moves forward and
ends. The pages on the way are the accepted records, cut into pieces.

* `Store.Walk` is what following cursors reads.
* `Store.exists_walk`: from every position that a cursor can stand at there is a walk, and its
  pages hold what lies behind the position.
* `Store.paging_visits_every_record_once` puts it together for a walk from the first page.
-/

namespace EndpointTree.Store

/-- The pages that are read by following cursors from one on, up to the page that has none. -/
inductive Walk (s : Store) (collection : String) (q : Query) : Option String → List Page → Prop
  | last {cursor : Option String} {page : Page}
      (read : s.readMany collection { q with cursor } = .ok page) (ends : page.cursor = none) :
      Walk s collection q cursor [page]
  | next {cursor : Option String} {page : Page} {more : String} {pages : List Page}
      (read : s.readMany collection { q with cursor } = .ok page)
      (goesOn : page.cursor = some more) (rest : Walk s collection q (some more) pages) :
      Walk s collection q cursor (page :: pages)

/-- Pages that hold the documents from a position on, in their order, each page with the number
of all of them and none with more than the limit. There are as many pages as it takes, but one
at least, and all but the last have a cursor. -/
structure Covers (found : List Json) (limit position : Nat) (pages : List Page) : Prop where
  documents : pages.flatMap Page.documents = found.drop position
  counts : ∀ page ∈ pages, page.count = found.length
  sizes : ∀ page ∈ pages, page.documents.length ≤ limit
  length : pages.length = max 1 ((found.length - position + (limit - 1)) / limit)
  going : ∀ page ∈ pages.dropLast, page.cursor ≠ none
  ends : ∀ page ∈ pages.getLast?, page.cursor = none

variable {s : Store} {collection : String} {q : Query} {cursor : Option String}
  {pages : List Page} {found : List Json} {limit position : Nat}

/-! ## Single pages -/

/-- The page of documents that starts at a position. -/
def pageAt (found : List Json) (limit position : Nat) : Page :=
  let documents := (found.drop position).take limit
  let next := position + documents.length
  ⟨documents, found.length, if next < found.length then some (Nat.repr next) else none⟩

theorem readMany_eq_pageAt (asks : q.limit = some limit) (starts : q.offset = .ok position) :
    s.readMany collection q =
      .ok (pageAt ((s.records collection).filter q.accepts) limit position) := by
  simp only [readMany, starts, asks, Option.getD_some, pageAt]

/-- A page behind which there is more is full, and its cursor spells the position behind it. -/
theorem pageAt_going (more : position + limit < found.length) :
    (pageAt found limit position).documents.length = limit ∧
      (pageAt found limit position).cursor = some (Nat.repr (position + limit)) := by
  have full : ((found.drop position).take limit).length = limit := by
    rw [List.length_take, List.length_drop]
    omega
  refine ⟨full, ?_⟩
  simp only [pageAt, full, if_pos more]

/-- The last page reaches the end and has no cursor. -/
theorem pageAt_last (last : found.length ≤ position + limit) :
    (pageAt found limit position).documents = found.drop position ∧
      (pageAt found limit position).cursor = none := by
  have rest : (found.drop position).take limit = found.drop position := by
    refine List.take_of_length_le ?_
    rw [List.length_drop]
    omega
  refine ⟨rest, ?_⟩
  simp only [pageAt, rest, List.length_drop]
  exact if_neg (by omega)

/-! ## Walks -/

/-- There is only one way to follow cursors. -/
theorem Walk.unique {pages' : List Page} (walk : Walk s collection q cursor pages)
    (walk' : Walk s collection q cursor pages') : pages' = pages := by
  induction walk generalizing pages' with
  | last read ends =>
    cases walk' with
    | last read' ends' =>
      rw [read] at read'
      rw [Except.ok.inj read']
    | next read' goesOn' =>
      rw [read] at read'
      rw [← Except.ok.inj read', ends] at goesOn'
      cases goesOn'
  | next read goesOn rest ih =>
    cases walk' with
    | last read' ends' =>
      rw [read] at read'
      rw [← Except.ok.inj read', goesOn] at ends'
      cases ends'
    | next read' goesOn' rest' =>
      rw [read] at read'
      obtain rfl := Except.ok.inj read'
      rw [goesOn] at goesOn'
      obtain rfl := Option.some.inj goesOn'
      rw [ih rest']

theorem Covers.ne_nil (covers : Covers found limit position pages) : pages ≠ [] := by
  rintro rfl
  have none := covers.length
  rw [List.length_nil] at none
  omega

theorem covers_last (positive : 0 < limit) (last : found.length ≤ position + limit) :
    Covers found limit position [pageAt found limit position] where
  documents := by
    rw [List.flatMap_singleton]
    exact (pageAt_last last).1
  counts := List.forall_mem_singleton.mpr rfl
  sizes := List.forall_mem_singleton.mpr (List.length_take_le _ _)
  length := by
    have few : (found.length - position + (limit - 1)) / limit ≤ 1 :=
      Nat.lt_succ_iff.mp ((Nat.div_lt_iff_lt_mul positive).mpr (by omega))
    rw [List.length_singleton, Nat.max_eq_left few]
  going := nofun
  ends := by
    rintro page ⟨⟩
    exact (pageAt_last last).2

theorem covers_next (positive : 0 < limit) (more : position + limit < found.length)
    (covers : Covers found limit (position + limit) pages) :
    Covers found limit position (pageAt found limit position :: pages) where
  documents := by
    rw [List.flatMap_cons, covers.documents, ← List.drop_drop]
    exact List.take_append_drop limit (found.drop position)
  counts := List.forall_mem_cons.mpr ⟨rfl, covers.counts⟩
  sizes := List.forall_mem_cons.mpr ⟨List.length_take_le _ _, covers.sizes⟩
  length := by
    have split : found.length - position + (limit - 1) =
        found.length - (position + limit) + (limit - 1) + limit := by omega
    have some : 1 ≤ (found.length - (position + limit) + (limit - 1)) / limit :=
      (Nat.one_le_div_iff positive).mpr (by omega)
    rw [List.length_cons, covers.length, split, Nat.add_div_right _ positive]
    omega
  going := by
    rw [List.dropLast_cons_of_ne_nil covers.ne_nil]
    refine List.forall_mem_cons.mpr ⟨?_, covers.going⟩
    rw [(pageAt_going more).2]
    exact Option.some_ne_none _
  ends := by
    rw [List.getLast?_cons_of_ne_nil covers.ne_nil]
    exact covers.ends

/-- From every position there is a walk, and its pages hold what lies behind. The induction is
on the number of documents that are left. -/
theorem exists_walk (asks : q.limit = some limit) (positive : 0 < limit)
    (countable : ((s.records collection).filter q.accepts).length < Text.count64)
    (starts : { q with cursor }.offset = .ok position) :
    ∃ pages, Walk s collection q cursor pages ∧
      Covers ((s.records collection).filter q.accepts) limit position pages := by
  generalize left : ((s.records collection).filter q.accepts).length - position = rest
  induction rest using Nat.strongRecOn generalizing cursor position with
  | ind rest ih =>
    have read : s.readMany collection { q with cursor } =
        .ok (pageAt ((s.records collection).filter q.accepts) limit position) :=
      readMany_eq_pageAt (q := { q with cursor }) asks starts
    by_cases more : position + limit < ((s.records collection).filter q.accepts).length
    · -- The cursor is a number of records, so it is small enough to be read back.
      have goesOn := (pageAt_going more).2
      have resumes : { q with cursor := some (Nat.repr (position + limit)) : Query }.offset =
          .ok (position + limit) := by
        simp only [Query.offset, Text.unsigned?_repr (Nat.lt_trans more countable)]
      obtain ⟨pages, walk, covers⟩ := ih _ (by omega) resumes rfl
      exact ⟨_, .next read goesOn walk, covers_next positive more covers⟩
    · have last := Nat.le_of_not_lt more
      exact ⟨_, .last read (pageAt_last last).2, covers_last positive last⟩

theorem lt_of_offset_eq_ok (starts : q.offset = .ok position) : position < Text.count64 := by
  rw [Query.offset] at starts
  split at starts
  · cases starts
    decide
  · split at starts
    · next read =>
      cases starts
      exact Text.lt_of_unsigned? read
    · cases starts

/-- A page is read from a position that is below 2^64, and so is the position behind it. From
the number of all accepted records on there is nothing to read and no cursor. -/
theorem exists_position_of_readMany {page : Page}
    (countable : (s.records collection).length < Text.count64)
    (read : s.readMany collection q = .ok page) :
    ∃ position, q.offset = .ok position ∧ position < Text.count64 ∧
      position + page.documents.length < Text.count64 ∧
      (page.count ≤ position → page.documents = [] ∧ page.cursor = none) := by
  rw [readMany] at read
  split at read
  · cases read
  · next position starts =>
    obtain rfl := Except.ok.inj read
    have below := lt_of_offset_eq_ok starts
    have fewer := List.length_filter_le q.accepts (s.records collection)
    refine ⟨position, starts, below, ?_, fun past => ?_⟩
    · dsimp only
      rw [List.length_take, List.length_drop]
      omega
    · have nothing := List.drop_eq_nil_of_le past
      simp only [nothing, List.take_nil, List.length_nil]
      exact ⟨trivial, if_neg (Nat.not_lt.mpr past)⟩

/-- Following cursors from the first page on comes to an end, in one way only, and reads the
records that the filter accepts, each once and in their order, in as many pages as the limit
asks for. Wherever a page starts, positions stay below 2^64. As a cursor has to spell one, a
collection must have fewer records than that. -/
theorem paging_visits_every_record_once (s : Store) (collection : String) {q : Query}
    {limit : Nat} (asks : q.limit = some limit) (positive : 0 < limit)
    (countable : (s.records collection).length < Text.count64) :
    (∃ pages, (∀ pages', Walk s collection q none pages' ↔ pages' = pages) ∧
      Covers ((s.records collection).filter q.accepts) limit 0 pages ∧
      (Sound (s.records collection) →
        ((pages.flatMap Page.documents).map recordId?).Nodup)) ∧
    ∀ (q' : Query) page, s.readMany collection q' = .ok page →
      ∃ position, q'.offset = .ok position ∧ position < Text.count64 ∧
        position + page.documents.length < Text.count64 ∧
        (page.count ≤ position → page.documents = [] ∧ page.cursor = none) := by
  refine ⟨?walk, fun q' page read => exists_position_of_readMany countable read⟩
  have fewer := List.length_filter_le q.accepts (s.records collection)
  have starts : { q with cursor := none : Query }.offset = .ok 0 := rfl
  obtain ⟨pages, walk, covers⟩ :=
    exists_walk asks positive (Nat.lt_of_le_of_lt fewer countable) starts
  refine ⟨pages, fun pages' => ⟨walk.unique, fun same => same ▸ walk⟩, covers, fun sound => ?_⟩
  rw [covers.documents, List.drop_zero]
  exact sound.distinct.sublist (List.filter_sublist.map recordId?)

/-- A store with four notes. -/
def shelf : Store :=
  (new fun n => Nat.repr n).after
    [.create "notes" (.object [("id", .string "a"), ("kind", .string "draft")]),
      .create "notes" (.object [("id", .string "b"), ("kind", .string "plan")]),
      .create "notes" (.object [("id", .string "c"), ("kind", .string "draft")]),
      .create "notes" (.object [("id", .string "d"), ("kind", .string "draft")])]

/-- The drafts among four notes, two a page. -/
def drafts : Query where
  filter := Dict.empty.insert "kind" "draft"
  limit := some 2

theorem drafts_fill_two_pages :
    ∃ pages, Walk shelf "notes" drafts none pages ∧ pages.length = 2 ∧
      (pages.flatMap Page.documents).map recordId? = [some "a", some "c", some "d"] := by
  obtain ⟨⟨pages, walk, covers, -⟩, -⟩ := paging_visits_every_record_once shelf "notes"
    (rfl : drafts.limit = some 2) (by decide) (by decide)
  exact ⟨pages, (walk pages).mpr rfl, covers.length, covers.documents ▸ rfl⟩

end EndpointTree.Store
