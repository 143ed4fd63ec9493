import EndpointTree.Dict
import EndpointTree.Pairs
import Mathlib.Data.List.Nodup

/-!
# Pairs under keys

Where a list pairs keys with values and repeats a key, it is the last pair that counts:
the last rule of a scope, the last parameter of a name. Where no key is repeated, the
order of the pairs does not count at all.

* `lastUnder?` is the value of the last pair under a key, and what `Dict.ofList` keeps
  (`Dict.get?_ofList`).
* `lookup_perm` and `lastUnder?_perm` are look-ups in another order.
* `Pairs.lookup_put` and `Pairs.keys_put` describe an update that keeps keys in their places.
-/

namespace EndpointTree

/-- The value of the last pair under a key. -/
def lastUnder? {κ α : Type} [DecidableEq κ] (key : κ) (pairs : List (κ × α)) : Option α :=
  (pairs.reverse.find? fun p => p.1 = key).map (·.2)

/-- Of two lists of pairs the second one decides wherever it has the key. -/
theorem lastUnder?_append {κ α : Type} [DecidableEq κ] (key : κ) (pairs further : List (κ × α)) :
    lastUnder? key (pairs ++ further) = (lastUnder? key further).or (lastUnder? key pairs) := by
  rw [lastUnder?, List.reverse_append, List.find?_append, Option.map_or]
  rfl

theorem lastUnder?_cons {κ α : Type} [DecidableEq κ] (key : κ) (p : κ × α) (rest : List (κ × α)) :
    lastUnder? key (p :: rest) =
      (lastUnder? key rest).or (if p.1 = key then some p.2 else none) := by
  rw [← List.singleton_append, lastUnder?_append]
  by_cases here : p.1 = key <;> simp [lastUnder?, here]

/-- Of pairs inserted one after another the last one under a key is found. -/
theorem Dict.get?_foldl_insert {α : Type} (pairs : List (String × α)) (d : Dict α)
    (key : String) :
    (pairs.foldl (fun d p => d.insert p.1 p.2) d).get? key =
      (lastUnder? key pairs).or (d.get? key) := by
  induction pairs generalizing d with
  | nil => rfl
  | cons p rest ih =>
    rw [List.foldl_cons, ih, Dict.get?_insert, lastUnder?_cons, Option.or_assoc]
    by_cases here : p.1 = key
    · rw [if_pos here, if_pos here.symm, Option.some_or]
    · rw [if_neg here, if_neg (Ne.symm here), Option.none_or]

/-- A dictionary of pairs has the last value of every key, and nothing else. -/
theorem Dict.get?_ofList {α : Type} (pairs : List (String × α)) (key : String) :
    (Dict.ofList pairs).get? key = lastUnder? key pairs := by
  rw [Dict.ofList, Dict.get?_foldl_insert, Dict.get?_empty, Option.or_none]

/-- Of two entries under one key the later one stays. -/
theorem Dict.insert_insert {α : Type} (d : Dict α) (key : String) (value value' : α) :
    (d.insert key value).insert key value' = d.insert key value' := by
  refine Dict.ext_get? fun k => ?_
  rw [Dict.get?_insert, Dict.get?_insert, Dict.get?_insert]
  by_cases here : k = key
  · rw [if_pos here, if_pos here]
  · rw [if_neg here, if_neg here, if_neg here]

/-- Entries under different keys can be put in either order. -/
theorem Dict.insert_comm {α : Type} {key key' : String} (other : key ≠ key') (d : Dict α)
    (value value' : α) :
    (d.insert key value).insert key' value' = (d.insert key' value').insert key value := by
  refine Dict.ext_get? fun k => ?_
  rw [Dict.get?_insert, Dict.get?_insert, Dict.get?_insert, Dict.get?_insert]
  by_cases here : k = key
  · rw [if_pos here, if_pos here, if_neg fun there => other (here.symm.trans there)]
  · rw [if_neg here, if_neg here]

/-! ## Putting a value under a key -/

namespace Pairs

variable {α : Type} {key : String} {value : α} {pairs : List (String × α)}

/-- What was put under a key is found there, and nothing else is found differently. -/
theorem lookup_put (key k : String) (value : α) (pairs : List (String × α)) :
    (put key value pairs).lookup k = if k = key then some value else pairs.lookup k := by
  induction pairs with
  | nil => exact Dict.lookup_cons_ite k key value []
  | cons p rest ih =>
    obtain ⟨name, held⟩ := p
    rw [put]
    by_cases here : name = key
    · subst here
      rw [if_pos rfl, Dict.lookup_cons_ite, Dict.lookup_cons_ite]
      split <;> rfl
    · rw [if_neg here, Dict.lookup_cons_ite, Dict.lookup_cons_ite, ih]
      by_cases found : k = name
      · subst found
        rw [if_pos rfl, if_neg here, if_pos rfl]
      · rw [if_neg found, if_neg found]

/-- Keys keep their places, and a new one comes last. -/
theorem keys_put (key : String) (value : α) (pairs : List (String × α)) :
    (put key value pairs).map (·.1) =
      if key ∈ pairs.map (·.1) then pairs.map (·.1) else pairs.map (·.1) ++ [key] := by
  induction pairs with
  | nil => rfl
  | cons p rest ih =>
    obtain ⟨name, held⟩ := p
    rw [put]
    by_cases here : name = key
    · simp [here]
    · rw [if_neg here, List.map_cons, ih]
      simp only [List.map_cons, List.mem_cons, Ne.symm here, false_or]
      split <;> rfl

/-- A new key comes last. -/
theorem put_of_absent (absent : key ∉ pairs.map (·.1)) (value : α) :
    put key value pairs = pairs ++ [(key, value)] := by
  induction pairs with
  | nil => rfl
  | cons p rest ih =>
    obtain ⟨other, absent⟩ := not_or.mp (List.mem_cons.not.mp absent)
    rw [put, if_neg (Ne.symm other), ih absent, List.cons_append]

theorem put_of_lookup (there : pairs.lookup key = some value) : put key value pairs = pairs := by
  induction pairs with
  | nil => cases there
  | cons p rest ih =>
    obtain ⟨name, held⟩ := p
    rw [Dict.lookup_cons_ite] at there
    rw [put]
    by_cases here : name = key
    · rw [if_pos here.symm] at there
      rw [if_pos here, Option.some.inj there]
    · rw [if_neg (Ne.symm here)] at there
      rw [if_neg here, ih there]

end Pairs

/-! ## Look-ups among distinct keys -/

/-- Every entry is found under its key. -/
theorem Dict.get?_of_mem {α : Type} {d : Dict α} {entry : String × α} (member : entry ∈ d.toList) :
    d.get? entry.1 = some entry.2 := by
  obtain ⟨front, rest, split⟩ := List.append_of_mem member
  refine List.lookup_eq_some_iff.mpr ⟨front, rest, split, fun earlier before => ?_⟩
  have ascending := d.ascending
  rw [show d.entries = front ++ entry :: rest from split] at ascending
  have below := (List.pairwise_append.mp ascending).2.2 earlier before entry List.mem_cons_self
  exact bne_iff_ne.mpr fun same => String.lt_irrefl _ (same ▸ below)

theorem mem_of_lookup {α : Type} {pairs : List (String × α)} {key : String} {value : α}
    (found : pairs.lookup key = some value) : (key, value) ∈ pairs := by
  obtain ⟨front, back, rfl, -⟩ := List.lookup_eq_some_iff.mp found
  exact List.mem_append_right _ List.mem_cons_self

theorem lookup_of_mem {α : Type} {pairs : List (String × α)}
    (distinct : (pairs.map (·.1)).Nodup) {p : String × α} (member : p ∈ pairs) :
    pairs.lookup p.1 = some p.2 := by
  induction pairs with
  | nil => cases member
  | cons first rest ih =>
    obtain ⟨name, value⟩ := first
    obtain ⟨absent, distinct⟩ := List.nodup_cons.mp distinct
    rw [Dict.lookup_cons_ite]
    rcases List.mem_cons.mp member with rfl | member
    · exact if_pos rfl
    · have held : p.1 ∈ rest.map (·.1) := List.mem_map_of_mem member
      rw [if_neg fun same : p.1 = name => absent (same ▸ held)]
      exact ih distinct member

theorem fst_ne_of_distinct {α : Type} {p q : String × α} {rest : List (String × α)}
    (distinct : ((p :: q :: rest).map (·.1)).Nodup) : p.1 ≠ q.1 := by
  intro same
  have absent := (List.nodup_cons.mp distinct).1
  exact absent (List.mem_cons.mpr (.inl same))

/-- Where keys are distinct, their order does not matter to a look-up. -/
theorem lookup_perm {α : Type} {pairs pairs' : List (String × α)} (perm : pairs.Perm pairs')
    (distinct : (pairs.map (·.1)).Nodup) (key : String) :
    pairs.lookup key = pairs'.lookup key := by
  induction perm with
  | nil => rfl
  | cons p _ ih =>
    obtain ⟨k, v⟩ := p
    rw [Dict.lookup_cons_ite, Dict.lookup_cons_ite, ih (List.nodup_cons.mp distinct).2]
  | swap p q rest =>
    have ne := fst_ne_of_distinct distinct
    obtain ⟨k, v⟩ := p
    obtain ⟨k', v'⟩ := q
    rw [Dict.lookup_cons_ite, Dict.lookup_cons_ite, Dict.lookup_cons_ite, Dict.lookup_cons_ite]
    by_cases first : key = k'
    · rw [if_pos first, if_neg fun second => ne (first.symm.trans second), if_pos first]
    · rw [if_neg first, if_neg first]
  | trans perm _ ih ih' =>
    rw [ih distinct, ih' ((perm.map _).nodup_iff.mp distinct)]

theorem find?_eq_lookup {α : Type} (key : String) (pairs : List (String × α)) :
    (pairs.find? fun p => p.1 = key).map (·.2) = pairs.lookup key := by
  induction pairs with
  | nil => rfl
  | cons p rest ih =>
    obtain ⟨k, v⟩ := p
    rw [Dict.lookup_cons_ite]
    by_cases here : k = key
    · rw [List.find?_cons_of_pos (by simpa using here), if_pos here.symm]
      rfl
    · rw [List.find?_cons_of_neg (by simpa using here), if_neg (Ne.symm here), ih]

/-- Where keys are distinct, their order does not matter to the last pair under one. -/
theorem lastUnder?_perm {α : Type} {pairs pairs' : List (String × α)}
    (perm : pairs.Perm pairs') (distinct : (pairs.map (·.1)).Nodup) (key : String) :
    lastUnder? key pairs = lastUnder? key pairs' := by
  have reversed : pairs.reverse.Perm pairs'.reverse :=
    (pairs.reverse_perm.trans perm).trans pairs'.reverse_perm.symm
  rw [lastUnder?, lastUnder?, find?_eq_lookup, find?_eq_lookup]
  refine lookup_perm reversed ?_ key
  rw [List.map_reverse]
  exact List.nodup_reverse.mpr distinct

end EndpointTree
