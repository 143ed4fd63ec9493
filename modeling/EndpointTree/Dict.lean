/-!
# Dictionaries in key order

`Dict α` maps strings to values of `α` and keeps its entries strictly ascending
by key, so that two dictionaries with the same look-ups are the same value and a
listing never depends on the order of insertion. Path parameters, query strings
and the tables of a registry are dictionaries.

* `Dict.get?_insert` and `Dict.get?_erase` describe the two updates through `get?`.
* `Dict.ext_get?`: a dictionary is determined by its look-ups.
-/

namespace EndpointTree

/-- String-keyed entries, each key once, in ascending order of the keys. -/
structure Dict (α : Type) where
  entries : List (String × α)
  ascending : entries.Pairwise (fun a b => a.1 < b.1)

namespace Dict

variable {α : Type}

def empty : Dict α := ⟨[], .nil⟩

instance : Inhabited (Dict α) := ⟨empty⟩

/-- The value under a key. -/
def get? (d : Dict α) (key : String) : Option α := d.entries.lookup key

/-- Whether there is an entry under a key. -/
def contains (d : Dict α) (key : String) : Bool := (d.get? key).isSome

/-- The keys in ascending order. -/
def keys (d : Dict α) : List String := d.entries.map (·.1)

/-- Put an entry at its place, or replace the value under a key that is there. -/
def insertEntry (key : String) (value : α) : List (String × α) → List (String × α)
  | [] => [(key, value)]
  | (k, v) :: rest =>
    if key < k then (key, value) :: (k, v) :: rest
    else if k < key then (k, v) :: insertEntry key value rest
    else (key, value) :: rest

/-- An insertion brings in no other entry than its own. -/
theorem mem_insertEntry {key : String} {value : α} {entries : List (String × α)}
    {e : String × α} (member : e ∈ insertEntry key value entries) :
    e = (key, value) ∨ e ∈ entries := by
  induction entries with
  | nil => exact .inl (List.mem_singleton.mp member)
  | cons head rest ih =>
    obtain ⟨k, v⟩ := head
    rw [insertEntry] at member
    split at member
    · exact List.mem_cons.mp member
    · split at member
      · rcases List.mem_cons.mp member with rfl | member
        · exact .inr List.mem_cons_self
        · exact (ih member).imp_right (List.mem_cons_of_mem _)
      · exact (List.mem_cons.mp member).imp_right (List.mem_cons_of_mem _)

/-- A key that comes neither before nor behind another one is the same. -/
theorem eq_of_not_lt {key k : String} (notBefore : ¬ key < k) (notBehind : ¬ k < key) : k = key :=
  String.le_antisymm (String.not_lt.mp notBefore) (String.not_lt.mp notBehind)

/-- An insertion keeps the ascending order. -/
theorem pairwise_insertEntry (key : String) (value : α) {entries : List (String × α)}
    (ascending : entries.Pairwise (fun a b => a.1 < b.1)) :
    (insertEntry key value entries).Pairwise (fun a b => a.1 < b.1) := by
  induction entries with
  | nil => exact List.pairwise_singleton _ _
  | cons head rest ih =>
    obtain ⟨k, v⟩ := head
    obtain ⟨first, further⟩ := List.pairwise_cons.mp ascending
    rw [insertEntry]
    split
    · next before =>
      refine List.pairwise_cons.mpr ⟨fun e member => ?_, ascending⟩
      rcases List.mem_cons.mp member with rfl | member
      · exact before
      · exact String.lt_trans before (first e member)
    · next notBefore =>
      split
      · next behind =>
        refine List.pairwise_cons.mpr ⟨fun e member => ?_, ih further⟩
        rcases mem_insertEntry member with rfl | member
        · exact behind
        · exact first e member
      · next notBehind =>
        obtain rfl := eq_of_not_lt notBefore notBehind
        exact List.pairwise_cons.mpr ⟨first, further⟩

/-- Map `key` to `value`, whether or not it had a value before. -/
def insert (d : Dict α) (key : String) (value : α) : Dict α :=
  ⟨insertEntry key value d.entries, pairwise_insertEntry key value d.ascending⟩

/-- Drop the entry under `key`, if there is one. -/
def erase (d : Dict α) (key : String) : Dict α :=
  ⟨d.entries.filter (fun e => e.1 ≠ key), d.ascending.filter _⟩

/-- Insert pairs one after another, so that the last pair of a key decides. -/
def ofList (pairs : List (String × α)) : Dict α :=
  pairs.foldl (fun d p => d.insert p.1 p.2) empty

/-- The entries in ascending order of their keys. -/
def toList (d : Dict α) : List (String × α) := d.entries

/-! ## Look-ups after an update -/

@[simp] theorem get?_empty (key : String) : (empty : Dict α).get? key = none := rfl

/-- The first entry decides for its key, the rest for all others. -/
theorem lookup_cons_ite (k key : String) (value : α) (rest : List (String × α)) :
    ((key, value) :: rest).lookup k = if k = key then some value else rest.lookup k := by
  by_cases here : k = key
  · simp [here]
  · simp [List.lookup_cons, here, beq_false_of_ne here]

/-- After an insertion the key has its new value, and every other key what it had. -/
theorem lookup_insertEntry (key k : String) (value : α) (entries : List (String × α)) :
    (insertEntry key value entries).lookup k =
      if k = key then some value else entries.lookup k := by
  induction entries with
  | nil => exact lookup_cons_ite k key value []
  | cons head rest ih =>
    obtain ⟨k', v⟩ := head
    rw [insertEntry]
    split
    · exact lookup_cons_ite k key value ((k', v) :: rest)
    · next notBefore =>
      split
      · next behind =>
        by_cases here : k = k'
        · subst here
          have other : k ≠ key := fun same => String.lt_irrefl _ (same ▸ behind)
          simp [other]
        · simp [lookup_cons_ite, here, ih]
      · next notBehind =>
        obtain rfl := eq_of_not_lt notBefore notBehind
        by_cases here : k = k' <;> simp [lookup_cons_ite, here]

@[simp] theorem get?_insert (d : Dict α) (key k : String) (value : α) :
    (d.insert key value).get? k = if k = key then some value else d.get? k :=
  lookup_insertEntry key k value d.entries

/-- Without the entries of a key, every other key has what it had. -/
theorem lookup_filter_ne (key k : String) (entries : List (String × α)) :
    (entries.filter (fun e => e.1 ≠ key)).lookup k =
      if k = key then none else entries.lookup k := by
  induction entries with
  | nil => simp
  | cons head rest ih =>
    obtain ⟨k', v⟩ := head
    by_cases dropped : k' = key
    · subst dropped
      by_cases here : k = k'
      · simpa [here] using ih
      · simpa [here, lookup_cons_ite] using ih
    · by_cases here : k = k'
      · subst here
        simp [dropped]
      · simpa [dropped, here, lookup_cons_ite] using ih

@[simp] theorem get?_erase (d : Dict α) (key k : String) :
    (d.erase key).get? k = if k = key then none else d.get? k :=
  lookup_filter_ne key k d.entries

/-- A key before all others has no entry. -/
theorem lookup_eq_none_of_lt {k : String} {entries : List (String × α)}
    (before : ∀ e ∈ entries, k < e.1) : entries.lookup k = none := by
  induction entries with
  | nil => rfl
  | cons head rest ih =>
    obtain ⟨k', v⟩ := head
    obtain ⟨first, further⟩ := List.forall_mem_cons.mp before
    have other : k ≠ k' := fun same => String.lt_irrefl _ (same ▸ first)
    rw [lookup_cons_ite, if_neg other, ih further]

/-- Where the first key of some entries is found among others, not all of these come behind it. -/
theorem not_lt_of_lookup_eq {k k' : String} {v v' : α} {rest rest' : List (String × α)}
    (ascending : ((k', v') :: rest').Pairwise (fun a b => a.1 < b.1))
    (same : ((k, v) :: rest).lookup k = ((k', v') :: rest').lookup k) : ¬ k < k' := by
  intro before
  have behind : ∀ e ∈ (k', v') :: rest', k < e.1 := by
    intro e member
    rcases List.mem_cons.mp member with rfl | member
    · exact before
    · exact String.lt_trans before ((List.pairwise_cons.mp ascending).1 e member)
  rw [lookup_eq_none_of_lt behind, lookup_cons_ite, if_pos rfl] at same
  cases same

/-- Two ascending lists with the same look-ups are one list. -/
theorem entries_eq_of_lookup_eq {entries entries' : List (String × α)}
    (ascending : entries.Pairwise (fun a b => a.1 < b.1))
    (ascending' : entries'.Pairwise (fun a b => a.1 < b.1))
    (same : ∀ k, entries.lookup k = entries'.lookup k) : entries = entries' := by
  induction entries generalizing entries' with
  | nil =>
    cases entries' with
    | nil => rfl
    | cons e _ =>
      obtain ⟨k, v⟩ := e
      simpa using same k
  | cons e rest ih =>
    cases entries' with
    | nil =>
      obtain ⟨k, v⟩ := e
      simpa using same k
    | cons e' rest' =>
      obtain ⟨k, v⟩ := e
      obtain ⟨k', v'⟩ := e'
      obtain rfl : k' = k := eq_of_not_lt (not_lt_of_lookup_eq ascending' (same k))
        (not_lt_of_lookup_eq ascending (same k').symm)
      obtain ⟨first, further⟩ := List.pairwise_cons.mp ascending
      obtain ⟨first', further'⟩ := List.pairwise_cons.mp ascending'
      obtain rfl : v = v' := by simpa [lookup_cons_ite] using same k'
      refine congrArg _ (ih further further' fun k => ?_)
      by_cases here : k = k'
      · subst here
        rw [lookup_eq_none_of_lt first, lookup_eq_none_of_lt first']
      · simpa [lookup_cons_ite, here] using same k

/-- A dictionary is determined by its look-ups. -/
theorem ext_get? {d d' : Dict α} (same : ∀ k, d.get? k = d'.get? k) : d = d' := by
  obtain ⟨entries, ascending⟩ := d
  obtain ⟨entries', ascending'⟩ := d'
  obtain rfl := entries_eq_of_lookup_eq ascending ascending' same
  rfl

end Dict

end EndpointTree
