import EndpointTree.Json.Value
import EndpointTree.Proofs.Pairs

/-!
# Members of an object

The members of an object are its keys, in order, and a value under each of them.

* `Json.members_ext`: members are determined by their keys, in order, and their values.
-/

namespace EndpointTree.Json

/-- The keys of members, in order. -/
def keys (members : List (String × Json)) : List String := members.map (·.1)

variable {key : String} {value : Json} {members members' : List (String × Json)}

/-- A key without a value is none of the keys. -/
theorem lookup_eq_none_iff : members.lookup key = none ↔ key ∉ keys members := by
  rw [List.lookup_eq_none_iff, keys, List.mem_map]
  constructor
  · intro absent held
    obtain ⟨m, member, rfl⟩ := held
    exact bne_iff_ne.mp (absent m member) rfl
  · intro absent m member
    exact bne_iff_ne.mpr fun same => absent ⟨m, member, same.symm⟩

/-- Members with the same keys in the same order and the same values are the same. -/
theorem members_ext (sameKeys : keys members = keys members') (distinct : (keys members).Nodup)
    (sameValues : ∀ key, members.lookup key = members'.lookup key) : members = members' := by
  induction members generalizing members' with
  | nil => exact (List.map_eq_nil_iff.mp sameKeys.symm).symm
  | cons m rest ih =>
    obtain ⟨name, held⟩ := m
    obtain ⟨⟨name', held'⟩, rest', rfl, rfl, tail⟩ := List.map_eq_cons_iff.mp sameKeys.symm
    have tail : keys rest' = keys rest := tail
    obtain ⟨absent, distinct⟩ := List.nodup_cons.mp distinct
    have first := sameValues name'
    rw [Dict.lookup_cons_ite, Dict.lookup_cons_ite, if_pos rfl, if_pos rfl] at first
    have further : ∀ key, rest.lookup key = rest'.lookup key := by
      intro key
      by_cases here : key = name'
      · subst here
        have absent' : key ∉ keys rest' := tail ▸ absent
        rw [lookup_eq_none_iff.mpr absent, lookup_eq_none_iff.mpr absent']
      · have other := sameValues key
        rwa [Dict.lookup_cons_ite, Dict.lookup_cons_ite, if_neg here, if_neg here] at other
    rw [Option.some.inj first, ih tail.symm distinct further]

end EndpointTree.Json
