import EndpointTree.Endpoint.Basic

/-!
# Handler chains

The chain of a method holds its handlers and filters. A read makes data and then
shapes it, so its handlers come first; a write cleans its input, so its filters
do. The steps run strictly in order, each on what the one before it made, until
one does not go on.

* `Chain.run` runs a chain.
-/

namespace EndpointTree

/-- The steps of one method. -/
abbrev Chain := List NamedHandler

def Endpoint.chain (e : Endpoint) (m : HttpMethod) : Chain :=
  if m.isRead then e.handlers m ++ e.filters m else e.filters m ++ e.handlers m

namespace Chain

inductive Outcome where
  | completed (value : Json)
  | stopped (stop : Stop)
  deriving DecidableEq

def names (chain : Chain) : List String := chain.map (·.name)

/-- Run the steps in order; an error or a breakdown is a bare 500. -/
def run : Chain → Json → Exchange → Outcome × Exchange
  | [], data, x => (.completed data, x)
  | step :: rest, data, x =>
    match step.run data x with
    | (.proceed next, x) => run rest next x
    | (.stop stop, x) => (.stopped stop, x)
    | (.fail _, x) => (.stopped .internal, x)
    | (.panic, x) => (.stopped .internal, x)

end Chain

end EndpointTree
