import EndpointTree.Json.Merge
import EndpointTree.Proofs.Json.Places
import Mathlib.Data.List.Induction

/-!
# Fragments laid over one another

Fragments that agree on the shape of every place they share, and delete nothing, can be
merged in any grouping: to merge is then to merge at every place by itself. So whatever a
model is cut into, nothing of it gets lost, and nothing is added.

* `Json.Compatible` says which fragments these are.
* `Json.at?_merge`: what a merge has at a place is the merge of what the two sides have.
* `Json.merge_assoc`: compatible documents merge in any grouping.
* `Json.Joined` is what fragments come to at one place, and `Json.joined_mergeAll` says
  that they do.
-/

namespace EndpointTree.Json

/-! ## Laying members over others -/

/-- Lay one member over others: it is merged into the value under its key, or comes last. -/
def laid (existing : List (String × Json)) (key : String) (value : Json) : List (String × Json) :=
  match existing.lookup key with
  | some held => Pairs.put key (merge held value) existing
  | none => existing ++ [(key, value)]

section Members

variable {key : String} {value : Json} {existing members : List (String × Json)}

/-- Members are laid over one after another, as long as none of them is `null`. -/
theorem mergeMembers_cons (filled : value ≠ .null) (rest : List (String × Json)) :
    mergeMembers existing ((key, value) :: rest) = mergeMembers (laid existing key value) rest := by
  have present : value.isNull = false := by
    cases value with
    | null => exact absurd rfl filled
    | bool | number | string | array | object => rfl
  rw [mergeMembers, present]
  rfl

/-- A value laid under a key is merged with what stands there, and touches no other key. -/
theorem lookup_laid (existing : List (String × Json)) (key k : String) (value : Json) :
    (laid existing key value).lookup k =
      if k = key then Option.merge merge (existing.lookup key) (some value)
      else existing.lookup k := by
  rw [laid]
  cases found : existing.lookup key with
  | some held => exact Pairs.lookup_put key k (merge held value) existing
  | none =>
    simp only [List.lookup_append, Dict.lookup_cons_ite]
    by_cases here : k = key
    · subst here
      rw [found, if_pos rfl, if_pos rfl]
      rfl
    · rw [if_neg here, if_neg here]
      exact Option.or_none

/-- A new key comes last, and a key that is there keeps its place. -/
theorem keys_laid (existing : List (String × Json)) (key : String) (value : Json) :
    keys (laid existing key value) =
      if key ∈ keys existing then keys existing else keys existing ++ [key] := by
  rw [laid]
  cases found : existing.lookup key with
  | some held =>
    have present : key ∈ keys existing := by
      refine Decidable.of_not_not fun absent => ?_
      rw [lookup_eq_none_iff.mpr absent] at found
      cases found
    rw [if_pos present]
    exact (Pairs.keys_put _ _ _).trans (if_pos present)
  | none =>
    rw [if_neg (lookup_eq_none_iff.mp found)]
    exact List.map_append

/-- A member that `null` is laid over is gone; any other is merged with what is laid over it. -/
theorem lookup_mergeMembers_of_nodup (distinct : (keys members).Nodup)
    (existing : List (String × Json)) (key : String) :
    (mergeMembers existing members).lookup key =
      if members.lookup key = some .null then none
      else Option.merge merge (existing.lookup key) (members.lookup key) := by
  induction members generalizing existing with
  | nil => exact Option.merge_none_right.symm
  | cons m rest ih =>
    obtain ⟨name, value⟩ := m
    obtain ⟨absent, others⟩ := List.nodup_cons.mp distinct
    rw [Dict.lookup_cons_ite]
    by_cases empty : value = .null
    · subst empty
      have erased : mergeMembers existing ((name, .null) :: rest) =
          mergeMembers (eraseMember name existing) rest := rfl
      rw [erased, ih others, eraseMember, Dict.lookup_filter_ne]
      by_cases here : key = name
      · subst here
        simp only [if_true, lookup_eq_none_iff.mpr absent, Option.merge_none_right, ite_self]
      · rw [if_neg here, if_neg here]
    · rw [mergeMembers_cons empty, ih others, lookup_laid]
      by_cases here : key = name
      · subst here
        have filled : some value ≠ some .null := mt Option.some.inj empty
        simp only [if_true, lookup_eq_none_iff.mpr absent, Option.merge_none_right, reduceCtorEq,
          if_false, if_neg filled]
      · rw [if_neg here, if_neg here]

/-- Under every key stand the two values merged, or the one that there is. -/
theorem lookup_mergeMembers (distinct : (keys members).Nodup)
    (filled : ∀ m ∈ members, m.2 ≠ .null) (existing : List (String × Json)) (key : String) :
    (mergeMembers existing members).lookup key =
      Option.merge merge (existing.lookup key) (members.lookup key) := by
  have present : members.lookup key ≠ some .null :=
    fun empty => filled _ (mem_of_lookup empty) rfl
  rw [lookup_mergeMembers_of_nodup distinct, if_neg present]

/-- The keys that are there stay in front; those that are new follow in their own order. -/
theorem keys_mergeMembers (distinct : (keys members).Nodup)
    (filled : ∀ m ∈ members, m.2 ≠ .null) (existing : List (String × Json)) :
    keys (mergeMembers existing members) =
      keys existing ++ (keys members).filter (· ∉ keys existing) := by
  induction members generalizing existing with
  | nil => exact (List.append_nil _).symm
  | cons m rest ih =>
    obtain ⟨name, value⟩ := m
    obtain ⟨absent, distinct⟩ := List.nodup_cons.mp distinct
    obtain ⟨first, filled⟩ := List.forall_mem_cons.mp filled
    have split : keys ((name, value) :: rest) = name :: keys rest := rfl
    rw [mergeMembers_cons first, ih distinct filled, keys_laid, split]
    by_cases here : name ∈ keys existing
    · rw [if_pos here, List.filter_cons_of_neg (by simpa using here)]
    · rw [if_neg here, List.filter_cons_of_pos (by simpa using here), List.append_assoc,
        List.singleton_append]
      refine congrArg (fun further => keys existing ++ name :: further) ?_
      refine List.filter_congr fun key member => ?_
      have other : key ≠ name := fun same => absent (same ▸ member)
      simp [other]

end Members

/-! ## Compatible fragments -/

/-- Fragments that agree on the shape of every place that several of them have, and that
delete nothing: none of them is `null` as a whole or has a member that is. As in every
document that is read, an object has each of its keys once. -/
structure Compatible (fragments : List Json) : Prop where
  distinct : ∀ f ∈ fragments, ∀ path members, f.at? path = some (.object members) →
    (keys members).Nodup
  filled : ∀ f ∈ fragments, ∀ path, f.at? path ≠ some .null
  alike : ∀ f ∈ fragments, ∀ g ∈ fragments, ∀ path v w, f.at? path = some v →
    g.at? path = some w → v.shape = w.shape

section Compatible

variable {a b c : Json} {fragments rest : List Json}

/-- Well-formed fragments are compatible if their places, gone through one by one, are. -/
theorem Compatible.of_places (sound : ∀ f ∈ fragments, f.WellFormed)
    (filled : ∀ f ∈ fragments, ∀ p ∈ f.places, p.2.shape ≠ .nothing)
    (alike : ∀ f ∈ fragments, ∀ g ∈ fragments, ∀ p ∈ f.places, ∀ q ∈ g.places, p.1 = q.1 →
      p.2.shape = q.2.shape) : Compatible fragments where
  distinct f member _ _ found := (sound f member).distinct found
  filled f member _ found := filled f member _ (mem_places found) rfl
  alike f memberF g memberG _ _ _ foundV foundW :=
    alike f memberF g memberG _ (mem_places foundV) _ (mem_places foundW) rfl

/-- Among compatible fragments, fewer of them are compatible. -/
theorem Compatible.of_subset {some : List Json} (sound : Compatible fragments)
    (subset : some ⊆ fragments) : Compatible some where
  distinct f member := sound.distinct f (subset member)
  filled f member := sound.filled f (subset member)
  alike f memberF g memberG := sound.alike f (subset memberF) g (subset memberG)

/-- What compatible fragments have at one place is compatible. -/
theorem Compatible.parts (sound : Compatible fragments) (path : List String) {parts : List Json}
    (found : ∀ v ∈ parts, ∃ f ∈ fragments, f.at? path = some v) : Compatible parts := by
  have deeper : ∀ {f v : Json}, f.at? path = some v → ∀ further,
      f.at? (path ++ further) = v.at? further := by
    intro f v here further
    rw [at?_append, here]
    rfl
  refine ⟨fun v member further => ?_, fun v member further => ?_,
    fun v memberV w memberW further => ?_⟩
  · obtain ⟨f, memberF, here⟩ := found v member
    rw [← deeper here]
    exact sound.distinct f memberF _
  · obtain ⟨f, memberF, here⟩ := found v member
    rw [← deeper here]
    exact sound.filled f memberF _
  · obtain ⟨f, memberF, hereF⟩ := found v memberV
    obtain ⟨g, memberG, hereG⟩ := found w memberW
    rw [← deeper hereF, ← deeper hereG]
    exact sound.alike f memberF g memberG _

/-- Compatible fragments have one shape. -/
theorem Compatible.shape_eq (sound : Compatible fragments) (memberA : a ∈ fragments)
    (memberB : b ∈ fragments) : a.shape = b.shape :=
  sound.alike a memberA b memberB [] a b rfl rfl

theorem Compatible.shape_ne_nothing (sound : Compatible fragments) (member : a ∈ fragments) :
    a.shape ≠ .nothing :=
  fun empty => sound.filled a member [] (congrArg some (shape_eq_nothing_iff.mp empty))

/-- Two compatible documents are both scalars, both lists or both objects. -/
theorem Compatible.shapes (sound : Compatible [a, b]) :
    (a.shape = .scalar ∧ b.shape = .scalar) ∨ (∃ xs ys, a = .array xs ∧ b = .array ys) ∨
      ∃ ms ns, a = .object ms ∧ b = .object ns := by
  have same : b.shape = a.shape := sound.shape_eq (by simp) (by simp)
  cases here : a.shape with
  | nothing => exact absurd here (sound.shape_ne_nothing List.mem_cons_self)
  | scalar => exact .inl ⟨rfl, same.trans here⟩
  | list =>
    obtain ⟨xs, rfl⟩ := shape_eq_list_iff.mp here
    obtain ⟨ys, rfl⟩ := shape_eq_list_iff.mp same
    exact .inr (.inl ⟨xs, ys, rfl, rfl⟩)
  | object =>
    obtain ⟨ms, rfl⟩ := shape_eq_object_iff.mp here
    obtain ⟨ns, rfl⟩ := shape_eq_object_iff.mp same
    exact .inr (.inr ⟨ms, ns, rfl, rfl⟩)

theorem merge_of_scalars (scalarA : a.shape = .scalar) (scalarB : b.shape = .scalar) :
    merge a b = b := by
  cases a <;> cases scalarA <;> cases b <;> cases scalarB <;> rfl

theorem merge_lists (xs ys : List Json) : merge (.array xs) (.array ys) = .array (xs ++ ys) := rfl

theorem merge_objects (ms ns : List (String × Json)) :
    merge (.object ms) (.object ns) = .object (mergeMembers ms ns) := rfl

/-- A compatible object has no key twice. -/
theorem Compatible.keys_nodup {members : List (String × Json)} (sound : Compatible fragments)
    (member : .object members ∈ fragments) : (keys members).Nodup :=
  sound.distinct _ member [] members rfl

/-- A compatible object has no member that is `null`. -/
theorem Compatible.members_filled {members : List (String × Json)} (sound : Compatible fragments)
    (member : .object members ∈ fragments) : ∀ m ∈ members, m.2 ≠ .null := by
  intro m held empty
  refine sound.filled _ member [m.1] ?_
  have found : (object members).member? m.1 = some m.2 :=
    lookup_of_mem (sound.keys_nodup member) held
  rw [at?_of_member? found, empty]
  rfl

/-! ## Merging, place by place -/

/-- A member of a merged document is the two members merged. -/
theorem member?_merge (sound : Compatible [a, b]) (key : String) :
    (merge a b).member? key = Option.merge merge (a.member? key) (b.member? key) := by
  rcases sound.shapes with ⟨scalarA, scalarB⟩ | ⟨xs, ys, rfl, rfl⟩ | ⟨ms, ns, rfl, rfl⟩
  · have notA : a.shape ≠ .object := by simp [scalarA]
    have notB : b.shape ≠ .object := by simp [scalarB]
    rw [merge_of_scalars scalarA scalarB, member?_eq_none_of_shape notA,
      member?_eq_none_of_shape notB]
    rfl
  · rfl
  · have member : object ns ∈ [object ms, object ns] := List.mem_cons_of_mem _ List.mem_cons_self
    exact lookup_mergeMembers (sound.keys_nodup member) (sound.members_filled member) ms key

/-- What compatible fragments have under one key is compatible. -/
theorem Compatible.member? (sound : Compatible fragments) (key : String) {parts : List Json}
    (found : ∀ v ∈ parts, ∃ f ∈ fragments, f.member? key = some v) : Compatible parts := by
  refine sound.parts [key] fun v member => ?_
  obtain ⟨f, memberF, here⟩ := found v member
  exact ⟨f, memberF, at?_of_member? here []⟩

/-- What a merge has at a place is the merge of what the two sides have there. -/
theorem at?_merge (sound : Compatible [a, b]) (path : List String) :
    (merge a b).at? path = Option.merge merge (a.at? path) (b.at? path) := by
  induction path generalizing a b with
  | nil => rfl
  | cons key rest ih =>
    rw [at?, at?, at?, member?_merge sound]
    cases left : a.member? key with
    | none => rw [Option.merge_none_left, Option.bind_none, Option.merge_none_left]
    | some x =>
      cases right : b.member? key with
      | none => exact Option.merge_none_right.symm
      | some y => exact ih (sound.member? key (by simp [left, right]))

/-- What a merge has at a place is what one side has there, or a merge of what both have. -/
theorem at?_merge_cases (sound : Compatible [a, b]) {path : List String} {v : Json}
    (found : (merge a b).at? path = some v) :
    (∃ f ∈ [a, b], f.at? path = some v) ∨
      ∃ x y, b.at? path = some y ∧ Compatible [x, y] ∧ merge x y = v := by
  rw [at?_merge sound] at found
  cases left : a.at? path with
  | none =>
    rw [left, Option.merge_none_left] at found
    exact .inl ⟨b, List.mem_cons_of_mem _ List.mem_cons_self, found⟩
  | some x =>
    rw [left] at found
    cases right : b.at? path with
    | none =>
      rw [right, Option.merge_none_right] at found
      exact .inl ⟨a, List.mem_cons_self, left.trans found⟩
    | some y =>
      rw [right] at found
      have parts : Compatible [x, y] := sound.parts path (by simp [left, right])
      exact .inr ⟨x, y, rfl, parts, Option.some.inj found⟩

/-- Merging keeps the shape. -/
theorem shape_merge (sound : Compatible [a, b]) : (merge a b).shape = b.shape := by
  rcases sound.shapes with ⟨scalarA, scalarB⟩ | ⟨xs, ys, rfl, rfl⟩ | ⟨ms, ns, rfl, rfl⟩
  · rw [merge_of_scalars scalarA scalarB]
  · rfl
  · rfl

theorem nodup_keys_of_merge_eq (sound : Compatible [a, b]) {members : List (String × Json)}
    (merged : merge a b = .object members) : (keys members).Nodup := by
  have memberA : a ∈ [a, b] := List.mem_cons_self
  have memberB : b ∈ [a, b] := List.mem_cons_of_mem _ List.mem_cons_self
  rcases sound.shapes with ⟨scalarA, scalarB⟩ | ⟨xs, ys, rfl, rfl⟩ | ⟨ms, ns, rfl, rfl⟩
  · rw [merge_of_scalars scalarA scalarB] at merged
    exact sound.keys_nodup (merged ▸ memberB)
  · cases merged
  · rw [← Json.object.inj merged,
      keys_mergeMembers (sound.keys_nodup memberB) (sound.members_filled memberB)]
    refine (sound.keys_nodup memberA).append ((sound.keys_nodup memberB).filter _) ?_
    intro key old new
    exact of_decide_eq_true (List.mem_filter.mp new).2 old

/-- A merge can stand in for the two documents that it is made of. -/
theorem Compatible.merge (sound : Compatible (a :: b :: rest)) :
    Compatible (merge a b :: rest) := by
  have pair : Compatible [a, b] := sound.of_subset (by simp)
  have before : [a, b] ⊆ a :: b :: rest := by simp
  have others : rest ⊆ a :: b :: rest := by simp
  -- Every place of a merge has the shape that one of the documents has there.
  have shapes : ∀ f ∈ a.merge b :: rest, ∀ path v, f.at? path = some v →
      ∃ g ∈ a :: b :: rest, ∃ w, g.at? path = some w ∧ v.shape = w.shape := by
    intro f member path v found
    rcases List.mem_cons.mp member with rfl | member
    · rcases at?_merge_cases pair found with ⟨g, member, here⟩ | ⟨x, y, right, parts, rfl⟩
      · exact ⟨g, before member, v, here, rfl⟩
      · exact ⟨b, before (by simp), y, right, shape_merge parts⟩
    · exact ⟨f, others member, v, found, rfl⟩
  refine ⟨fun f member path members found => ?distinct, fun f member path empty => ?filled,
    fun f memberF g memberG path v w foundV foundW => ?alike⟩
  case distinct =>
    rcases List.mem_cons.mp member with rfl | member
    · rcases at?_merge_cases pair found with ⟨g, member, here⟩ | ⟨x, y, -, parts, merged⟩
      · exact pair.distinct g member path members here
      · exact nodup_keys_of_merge_eq parts merged
    · exact sound.distinct f (others member) path members found
  case filled =>
    obtain ⟨g, member, w, here, same⟩ := shapes f member path .null empty
    rw [shape_eq_nothing_iff.mp same.symm] at here
    exact sound.filled g member path here
  case alike =>
    obtain ⟨f', memberF', v', here, sameV⟩ := shapes f memberF path v foundV
    obtain ⟨g', memberG', w', here', sameW⟩ := shapes g memberG path w foundW
    rw [sameV, sameW]
    exact sound.alike f' memberF' g' memberG' path v' w' here here'

/-! ## Groupings -/

theorem sizeOf_lookup {members : List (String × Json)} {key : String} {x : Json}
    (found : members.lookup key = some x) : sizeOf x < sizeOf (Json.object members) := by
  have inside : sizeOf (key, x) < sizeOf members := List.sizeOf_lt_of_mem (mem_of_lookup found)
  simp only [Prod.mk.sizeOf_spec] at inside
  simp only [object.sizeOf_spec]
  omega

/-- To lay keys behind others leaves out those that are there, and may be done in any grouping. -/
theorem keys_grouping (xs ys zs : List String) :
    (xs ++ ys.filter (· ∉ xs)) ++ zs.filter (· ∉ xs ++ ys.filter (· ∉ xs)) =
      xs ++ (ys ++ zs.filter (· ∉ ys)).filter (· ∉ xs) := by
  rw [List.filter_append, List.filter_filter, List.append_assoc]
  refine congrArg (fun further => xs ++ (ys.filter (· ∉ xs) ++ further)) ?_
  refine List.filter_congr fun key _ => ?_
  by_cases here : key ∈ xs <;> simp [here]

/-- The members of three objects merge in any grouping if the values under their keys do. -/
theorem mergeMembers_assoc {ms ns os : List (String × Json)}
    (sound : Compatible [.object ms, .object ns, .object os])
    (values : ∀ key x y z, ms.lookup key = some x → ns.lookup key = some y →
      os.lookup key = some z → Json.merge (Json.merge x y) z = Json.merge x (Json.merge y z)) :
    mergeMembers (mergeMembers ms ns) os = mergeMembers ms (mergeMembers ns os) := by
  have memberN : object ns ∈ [object ms, object ns, object os] := by simp
  have memberO : object os ∈ [object ms, object ns, object os] := by simp
  have memberNO : object (mergeMembers ns os) ∈ [object ms, object (mergeMembers ns os)] := by simp
  have first : Compatible [object ms, object ns] := sound.of_subset (by simp)
  have last : Compatible [object ns, object os] := sound.of_subset (by simp)
  have left : Compatible [object (mergeMembers ms ns), object os] := sound.merge
  have right : Compatible [object ms, object (mergeMembers ns os)] := by
    have turned : Compatible [object ns, object os, object ms] := sound.of_subset (by simp)
    exact turned.merge.of_subset (by simp [merge_objects])
  refine members_ext ?keys (nodup_keys_of_merge_eq left rfl) fun key => ?values
  case keys =>
    rw [keys_mergeMembers (sound.keys_nodup memberO) (sound.members_filled memberO),
      keys_mergeMembers (sound.keys_nodup memberN) (sound.members_filled memberN),
      keys_mergeMembers (right.keys_nodup memberNO) (right.members_filled memberNO),
      keys_mergeMembers (sound.keys_nodup memberO) (sound.members_filled memberO)]
    exact keys_grouping _ _ _
  case values =>
    have outerLeft := member?_merge left key
    have outerRight := member?_merge right key
    rw [← merge_objects, member?_merge first] at outerLeft
    rw [← merge_objects ns, member?_merge last] at outerRight
    refine outerLeft.trans (Eq.trans ?_ outerRight.symm)
    cases underM : (object ms).member? key with
    | none => rw [Option.merge_none_left, Option.merge_none_left]
    | some x =>
      cases underN : (object ns).member? key with
      | none => rw [Option.merge_none_right, Option.merge_none_left]
      | some y =>
        cases underO : (object os).member? key with
        | none => rw [Option.merge_none_right, Option.merge_none_right]
        | some z => exact congrArg some (values key x y z underM underN underO)

/-- Compatible documents merge in any grouping. -/
theorem merge_assoc (sound : Compatible [a, b, c]) :
    Json.merge (Json.merge a b) c = Json.merge a (Json.merge b c) := by
  induction size : sizeOf a using Nat.strongRecOn generalizing a b c with
  | ind n ih =>
    have sameB : b.shape = a.shape := sound.shape_eq (by simp) (by simp)
    have sameC : c.shape = a.shape := sound.shape_eq (by simp) (by simp)
    cases here : a.shape with
    | nothing => exact absurd here (sound.shape_ne_nothing List.mem_cons_self)
    | scalar =>
      rw [here] at sameB sameC
      rw [merge_of_scalars here sameB, merge_of_scalars sameB sameC, merge_of_scalars here sameC]
    | list =>
      obtain ⟨xs, rfl⟩ := shape_eq_list_iff.mp here
      obtain ⟨ys, rfl⟩ := shape_eq_list_iff.mp sameB
      obtain ⟨zs, rfl⟩ := shape_eq_list_iff.mp sameC
      rw [merge_lists, merge_lists, merge_lists, merge_lists, List.append_assoc]
    | object =>
      obtain ⟨ms, rfl⟩ := shape_eq_object_iff.mp here
      obtain ⟨ns, rfl⟩ := shape_eq_object_iff.mp sameB
      obtain ⟨os, rfl⟩ := shape_eq_object_iff.mp sameC
      refine congrArg Json.object (mergeMembers_assoc sound fun key x y z inM inN inO => ?_)
      have parts : Compatible [x, y, z] :=
        sound.member? key (by simp [Json.member?, inM, inN, inO])
      exact ih _ (size ▸ sizeOf_lookup inM) parts rfl

theorem mergeAll_singleton (f : Json) : mergeAll [f] = f := by
  cases f <;> rfl

theorem mergeAll_concat (fragments : List Json) (f : Json) :
    mergeAll (fragments ++ [f]) = Json.merge (mergeAll fragments) f := List.foldl_concat ..

/-- What is merged of some fragments is compatible with all others. -/
theorem Compatible.mergeAll (filled : fragments ≠ []) (sound : Compatible (fragments ++ rest)) :
    Compatible (mergeAll fragments :: rest) := by
  induction fragments using List.reverseRecOn generalizing rest with
  | nil => exact absurd rfl filled
  | append_singleton front f ih =>
    rcases eq_or_ne front [] with rfl | some
    · rw [List.nil_append, mergeAll_singleton]
      exact sound
    · rw [List.append_assoc] at sound
      rw [mergeAll_concat]
      exact (ih some sound).merge

/-- Fragments in two parts can be merged part by part. -/
theorem mergeAll_append {further : List Json} (filled : fragments ≠ []) (filled' : further ≠ [])
    (sound : Compatible (fragments ++ further)) :
    Json.merge (mergeAll fragments) (mergeAll further) = mergeAll (fragments ++ further) := by
  induction further using List.reverseRecOn with
  | nil => exact absurd rfl filled'
  | append_singleton front f ih =>
    rcases eq_or_ne front [] with rfl | some
    · rw [List.nil_append, mergeAll_singleton, mergeAll_concat]
    · have inner : Compatible (fragments ++ front) := sound.of_subset (by simp)
      have outer : Compatible [mergeAll fragments, mergeAll front, f] := by
        have turned : Compatible (mergeAll front :: f :: [mergeAll fragments]) :=
          (sound.mergeAll filled).of_subset (by simp) |>.mergeAll some
        exact turned.of_subset (by simp)
      rw [mergeAll_concat, ← merge_assoc outer, ih some inner, ← mergeAll_concat,
        List.append_assoc]

end Compatible

/-- A grouping of fragments, in their order: which documents are merged with which. -/
inductive Grouping where
  | single (fragment : Json)
  | pair (left right : Grouping)

namespace Grouping

/-- The fragments that are grouped. -/
def fragments : Grouping → List Json
  | .single fragment => [fragment]
  | .pair left right => left.fragments ++ right.fragments

/-- The document that is made by merging as grouped. -/
def merged : Grouping → Json
  | .single fragment => fragment
  | .pair left right => merge left.merged right.merged

/-- Every grouping has a fragment. -/
theorem fragments_ne_nil (g : Grouping) : g.fragments ≠ [] := by
  induction g with
  | single f => exact List.cons_ne_nil f []
  | pair left right ih _ => exact List.append_ne_nil_of_left_ne_nil ih _

/-- However compatible fragments are grouped, merging makes the same of them. -/
theorem merged_eq {g : Grouping} (sound : Compatible g.fragments) :
    g.merged = mergeAll g.fragments := by
  induction g with
  | single f => exact (mergeAll_singleton f).symm
  | pair left right ihLeft ihRight =>
    have soundLeft : Compatible left.fragments := sound.of_subset (List.subset_append_left _ _)
    have soundRight : Compatible right.fragments :=
      sound.of_subset (List.subset_append_right _ _)
    rw [merged, ihLeft soundLeft, ihRight soundRight]
    exact mergeAll_append left.fragments_ne_nil right.fragments_ne_nil sound

end Grouping

/-! ## What becomes of the fragments at one place -/

/-- What the parts that fragments have at a place come to. An object has the keys of all
parts, each where it comes first; what is under them is said of the places below. -/
inductive Joined : List Json → Option Json → Prop
  | nothing : Joined [] none
  | scalar {parts : List Json} {last : Json} :
    (∀ v ∈ parts, v.shape = .scalar) → parts.getLast? = some last → Joined parts (some last)
  | list {lists : List (List Json)} :
    lists ≠ [] → Joined (lists.map .array) (some (.array lists.flatten))
  | object {objects : List (List (String × Json))} {members : List (String × Json)} :
    objects ≠ [] → keys members = (objects.flatMap keys).eraseDups →
    Joined (objects.map .object) (some (.object members))

theorem eraseDups_eq_self {names : List String} (distinct : names.Nodup) :
    names.eraseDups = names := by
  induction names with
  | nil => rfl
  | cons name rest ih =>
    obtain ⟨absent, distinct⟩ := List.nodup_cons.mp distinct
    have others : rest.filter (fun other => !other == name) = rest := by
      refine List.filter_eq_self.mpr fun other member => ?_
      have apart : other ≠ name := fun same => absent (same ▸ member)
      simp [apart]
    rw [List.eraseDups_cons, others, ih distinct]

/-- Of further names only those that are new are added. -/
theorem eraseDups_append_of_nodup (names : List String) {fresh : List String}
    (distinct : fresh.Nodup) :
    (names ++ fresh).eraseDups =
      names.eraseDups ++ fresh.filter (· ∉ names.eraseDups) := by
  have fresher : fresh.removeAll names = fresh.filter (· ∉ names.eraseDups) := by
    refine List.filter_congr fun name _ => ?_
    simp
  rw [List.eraseDups_append, fresher, eraseDups_eq_self (distinct.filter _)]

/-- A single fragment is joined to itself. -/
theorem joined_singleton {v : Json} (sound : Compatible [v]) : Joined [v] (some v) := by
  have member : v ∈ [v] := List.mem_cons_self
  cases here : v.shape with
  | nothing => exact absurd here (sound.shape_ne_nothing member)
  | scalar => exact .scalar (List.forall_mem_singleton.mpr here) rfl
  | list =>
    obtain ⟨items, rfl⟩ := shape_eq_list_iff.mp here
    have joined := Joined.list (List.cons_ne_nil items [])
    rwa [List.flatten_singleton] at joined
  | object =>
    obtain ⟨members, rfl⟩ := shape_eq_object_iff.mp here
    refine Joined.object (List.cons_ne_nil members []) ?_
    rw [List.flatMap_singleton, eraseDups_eq_self (sound.keys_nodup member)]

/-- One further fragment is merged into what is joined so far. -/
theorem Joined.concat {parts : List Json} {joined : Option Json} {v : Json}
    (sofar : Joined parts joined) (sound : Compatible (parts ++ [v])) :
    Joined (parts ++ [v]) (Option.merge merge joined (some v)) := by
  have last : v ∈ parts ++ [v] := by simp
  cases sofar with
  | nothing => exact joined_singleton sound
  | @scalar parts held scalars lastly =>
    have member : held ∈ parts := List.mem_of_getLast? lastly
    have scalar : v.shape = .scalar :=
      (sound.shape_eq last (List.mem_append_left _ member)).trans (scalars held member)
    refine .scalar ?_ ?_
    · intro w among
      rcases List.mem_append.mp among with among | among
      · exact scalars w among
      · rwa [List.mem_singleton.mp among]
    · rw [merge_of_scalars (scalars held member) scalar, List.getLast?_concat]
  | @list lists filled =>
    obtain ⟨first, further, rfl⟩ := List.exists_cons_of_ne_nil filled
    have same : v.shape = .list := sound.shape_eq last (b := .array first) (by simp)
    obtain ⟨items, rfl⟩ := shape_eq_list_iff.mp same
    have joined : Joined ((first :: further ++ [items]).map .array) _ := .list (by simp)
    rwa [List.map_append, List.flatten_concat] at joined
  | @object objects members filled ordered =>
    obtain ⟨first, further, rfl⟩ := List.exists_cons_of_ne_nil filled
    have same : v.shape = .object := sound.shape_eq last (b := .object first) (by simp)
    obtain ⟨fresh, rfl⟩ := shape_eq_object_iff.mp same
    have distinct : (keys fresh).Nodup := sound.keys_nodup last
    have order : keys (mergeMembers members fresh) =
        ((first :: further ++ [fresh]).flatMap keys).eraseDups := by
      rw [keys_mergeMembers distinct (sound.members_filled last), ordered, List.flatMap_append,
        List.flatMap_singleton, eraseDups_append_of_nodup _ distinct]
    have joined : Joined ((first :: further ++ [fresh]).map .object) _ := .object (by simp) order
    rwa [List.map_append] at joined

/-- What compatible fragments have at a place, each in its turn, is all that their merge
has there. -/
theorem joined_mergeAll {fragments : List Json} (sound : Compatible fragments)
    (nonempty : fragments ≠ []) (path : List String) :
    Joined (fragments.filterMap (·.at? path)) ((mergeAll fragments).at? path) := by
  induction fragments using List.reverseRecOn with
  | nil => exact absurd rfl nonempty
  | append_singleton front f ih =>
    have parts : Compatible ((front ++ [f]).filterMap (·.at? path)) :=
      sound.parts path fun v member => List.mem_filterMap.mp member
    have last : [f].filterMap (·.at? path) = (f.at? path).toList := by
      cases here : f.at? path <;> simp [here]
    rw [List.filterMap_append, last] at parts ⊢
    rcases eq_or_ne front [] with rfl | some
    · rw [List.nil_append, mergeAll_singleton]
      cases here : f.at? path with
      | none => exact .nothing
      | some v =>
        rw [here] at parts
        exact joined_singleton parts
    · have pair : Compatible [mergeAll front, f] := sound.mergeAll some
      have sofar := ih (sound.of_subset (List.subset_append_left _ _)) some
      rw [mergeAll_concat, at?_merge pair]
      cases here : f.at? path with
      | none => rwa [Option.merge_none_right, Option.toList_none, List.append_nil]
      | some v =>
        rw [here] at parts
        exact sofar.concat parts

/-- Compatible fragments can be merged in any grouping, and their merge has, at every place,
what they have there, each in its turn, and nothing else. -/
theorem fragments_join_in_any_grouping {fragments : List Json} (sound : Compatible fragments) :
    (∀ a ∈ fragments, ∀ b ∈ fragments, ∀ c ∈ fragments,
      merge (merge a b) c = merge a (merge b c)) ∧
    (∀ g : Grouping, g.fragments = fragments → g.merged = mergeAll fragments) ∧
    ∀ path, fragments ≠ [] ∨ path ≠ [] →
      Joined (fragments.filterMap (·.at? path)) ((mergeAll fragments).at? path) := by
  refine ⟨fun a memberA b memberB c memberC => ?triples, fun g same => ?groupings,
    fun path inside => ?places⟩
  case triples =>
    refine merge_assoc (sound.of_subset fun f member => ?_)
    simp only [List.mem_cons, List.not_mem_nil, or_false] at member
    rcases member with rfl | rfl | rfl
    · exact memberA
    · exact memberB
    · exact memberC
  case groupings =>
    subst same
    exact Grouping.merged_eq sound
  case places =>
    rcases eq_or_ne fragments [] with rfl | nonempty
    · obtain ⟨key, rest, rfl⟩ := List.exists_cons_of_ne_nil (inside.resolve_left (· rfl))
      exact .nothing
    · exact joined_mergeAll sound nonempty path

/-- Three fragments with a list that all of them have, an object that two of them have, and
a scalar that gives way. -/
def samples : List Json :=
  [.object [("tags", .array [.string "a"]), ("auth", .object [("read", .bool true)])],
    .object [("collection", .string "old"), ("tags", .array [.string "b", .string "a"])],
    .object [("auth", .object [("create", .bool true)]), ("tags", .array []),
      ("collection", .string "new")]]

theorem samples_join :
    Compatible samples ∧
      Joined [.array [.string "a"], .array [.string "b", .string "a"], .array []]
        ((mergeAll samples).at? ["tags"]) := by
  have wellFormed : ∀ f ∈ samples, f.WellFormed := by
    simp [samples, WellFormed, WellFormedMembers, WellFormedItems]
  have sound : Compatible samples := .of_places wellFormed (by decide) (by decide)
  exact ⟨sound, (fragments_join_in_any_grouping sound).2.2 ["tags"] (.inr (by decide))⟩

example : mergeAll samples = .object
    [("tags", .array [.string "a", .string "b", .string "a"]),
      ("auth", .object [("read", .bool true), ("create", .bool true)]),
      ("collection", .string "new")] := by
  decide

end EndpointTree.Json
