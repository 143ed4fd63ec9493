/-!
# Pairs in the order of their keys' first appearance

The members of an object, the field tables of an endpoint and the routes of a table are
pairs whose order is that in which their keys came first.

* `Pairs.put` is the update that keeps this order.
-/

namespace EndpointTree.Pairs

/-- Put a value under a key: at the key's place if it has one, else at the end. -/
def put {α : Type} (key : String) (value : α) : List (String × α) → List (String × α)
  | [] => [(key, value)]
  | (k, v) :: rest => if k = key then (k, value) :: rest else (k, v) :: put key value rest

end EndpointTree.Pairs
