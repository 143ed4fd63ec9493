import EndpointTree.Tree
import Mathlib.Order.Basic

/-!
# Addresses in trees

A place in a tree is the way to it from the root, as the numbers of the children that it passes.
Two places may hold the same subtree, so what is said about each place of a listing is said
about addresses. The way to what stands above a place is a proper start of the way to it, and
the listing of a tree goes through the addresses in lexicographic order.

* `Tree.subtree?` is the subtree at an address, and `Tree.addressed` lists all of them.
* `Tree.map_snd_addressed`, `Tree.mem_addressed_iff` and `Tree.pairwise_addressed`: it is the
  listing of the tree, it has every place, and each of them once.
-/

namespace EndpointTree

namespace Tree

variable {α : Type}

/-- The subtree at an address; where a child is missing on the way there is none. -/
def subtree? : Tree α → List Nat → Option (Tree α)
  | t, [] => some t
  | t, i :: rest => t.children[i]?.bind (·.subtree? rest)

theorem subtree?_append (t : Tree α) (a b : List Nat) :
    t.subtree? (a ++ b) = (t.subtree? a).bind (·.subtree? b) := by
  induction a generalizing t with
  | nil => rfl
  | cons i rest ih =>
    rw [List.cons_append, subtree?, subtree?]
    cases t.children[i]? with
    | none => rfl
    | some child => exact ih child

mutual

/-- The tree and all trees below it, with their addresses, each before its own subtrees. -/
def addressed : Tree α → List (List Nat × Tree α)
  | .node value children => ([], .node value children) :: addressedFrom 0 children

/-- The same for trees that are the children from number `i` on. -/
def addressedFrom (i : Nat) : List (Tree α) → List (List Nat × Tree α)
  | [] => []
  | t :: rest => (addressed t).map (fun p => (i :: p.1, p.2)) ++ addressedFrom (i + 1) rest

end

mutual

/-- Without its addresses it is the listing of the tree. -/
theorem map_snd_addressed : ∀ t : Tree α, t.addressed.map (·.2) = t.subtrees
  | .node value children => by
    rw [addressed, List.map_cons, map_snd_addressedFrom 0 children, subtrees]

theorem map_snd_addressedFrom (i : Nat) :
    ∀ trees : List (Tree α), (addressedFrom i trees).map (·.2) = subtreesOf trees
  | [] => rfl
  | t :: rest => by
    rw [addressedFrom, List.map_append, List.map_map, subtreesOf,
      map_snd_addressedFrom (i + 1) rest, ← map_snd_addressed t]
    rfl

end

mutual

/-- The listing has what stands at an address, under that address. -/
theorem mem_addressed_iff {s : Tree α} :
    ∀ {t : Tree α} {a : List Nat}, (a, s) ∈ t.addressed ↔ t.subtree? a = some s
  | .node value children, [] => by
    rw [addressed, List.mem_cons, mem_addressedFrom_iff, subtree?]
    constructor
    · rintro (same | ⟨j, rest, t, same, -⟩)
      · cases same
        rfl
      · cases same
    · intro same
      cases same
      exact .inl rfl
  | .node value children, i :: below => by
    rw [addressed, List.mem_cons, mem_addressedFrom_iff, subtree?, Option.bind_eq_some_iff]
    constructor
    · rintro (same | ⟨j, rest, t, same, child, found⟩)
      · cases same
      · rw [Nat.zero_add] at same
        cases same
        exact ⟨t, child, found⟩
    · rintro ⟨t, child, found⟩
      exact .inr ⟨i, below, t, by rw [Nat.zero_add], child, found⟩

theorem mem_addressedFrom_iff {s : Tree α} : ∀ {trees : List (Tree α)} {i : Nat} {a : List Nat},
    (a, s) ∈ addressedFrom i trees ↔
      ∃ j rest t, a = (i + j) :: rest ∧ trees[j]? = some t ∧ t.subtree? rest = some s
  | [], i, a => by simp only [addressedFrom, List.not_mem_nil, List.getElem?_nil, reduceCtorEq,
      false_and, and_false, exists_false]
  | t :: rest, i, a => by
    rw [addressedFrom, List.mem_append, List.mem_map, mem_addressedFrom_iff]
    constructor
    · rintro (⟨⟨b, s'⟩, member, same⟩ | ⟨j, below, u, rfl, child, found⟩)
      · cases same
        exact ⟨0, b, t, rfl, rfl, mem_addressed_iff.mp member⟩
      · refine ⟨j + 1, below, u, ?_, child, found⟩
        rw [Nat.add_assoc, Nat.add_comm 1 j]
    · rintro ⟨j, below, u, rfl, child, found⟩
      cases j with
      | zero =>
        cases child
        exact .inl ⟨(below, s), mem_addressed_iff.mpr found, rfl⟩
      | succ j =>
        refine .inr ⟨j, below, u, ?_, child, found⟩
        rw [Nat.add_assoc, Nat.add_comm 1 j]

end

/-! ## Order -/

/-- The way to what stands above comes first. -/
theorem lt_append (a : List Nat) {b : List Nat} (proper : b ≠ []) : a < a ++ b := by
  obtain ⟨i, rest, rfl⟩ := List.exists_cons_of_ne_nil proper
  have less : a ++ [] < a ++ i :: rest := List.append_left_lt (List.nil_lt_cons i rest)
  rwa [List.append_nil] at less

mutual

/-- The listing goes through the addresses in lexicographic order. -/
theorem pairwise_addressed : ∀ t : Tree α, t.addressed.Pairwise fun p q => p.1 < q.1
  | .node value children => by
    rw [addressed]
    refine List.pairwise_cons.mpr ⟨fun p member => ?_, pairwise_addressedFrom 0 children⟩
    obtain ⟨a, s⟩ := p
    obtain ⟨j, rest, t, rfl, -⟩ := mem_addressedFrom_iff.mp member
    exact List.nil_lt_cons _ _

theorem pairwise_addressedFrom (i : Nat) :
    ∀ trees : List (Tree α), (addressedFrom i trees).Pairwise fun p q => p.1 < q.1
  | [] => .nil
  | t :: rest => by
    rw [addressedFrom]
    refine List.pairwise_append.mpr ⟨?_, pairwise_addressedFrom (i + 1) rest, ?_⟩
    · rw [List.pairwise_map]
      exact (pairwise_addressed t).imp fun less => List.cons_lt_cons_iff.mpr (.inr ⟨rfl, less⟩)
    · intro p first q later
      obtain ⟨p', -, rfl⟩ := List.mem_map.mp first
      obtain ⟨b, u⟩ := q
      obtain ⟨j, below, t, rfl, -⟩ := mem_addressedFrom_iff.mp later
      apply List.cons_lt_cons_iff.mpr
      left
      omega

end

end Tree
end EndpointTree
