import EndpointTree.Channel.Event

/-!
# The registry

Declarations refer to handlers, policies and channel handlers by name. The three
kinds have separate names, and a name that is registered again stands for the
latest.
-/

namespace EndpointTree

/-- What names in declarations stand for. -/
structure Registry where
  handlers : Dict Handler := .empty
  policies : Dict Policy := .empty
  channels : Dict Channel.Handler := .empty

namespace Registry

def empty : Registry := {}

instance : Inhabited Registry := ⟨empty⟩

/-- Let a name stand for a handler. -/
def addHandler (r : Registry) (name : String) (handler : Handler) : Registry :=
  { r with handlers := r.handlers.insert name handler }

/-- Let a name stand for a policy. -/
def addPolicy (r : Registry) (name : String) (policy : Policy) : Registry :=
  { r with policies := r.policies.insert name policy }

/-- Let a name stand for a channel handler. -/
def addChannel (r : Registry) (name : String) (handler : Channel.Handler) : Registry :=
  { r with channels := r.channels.insert name handler }

end Registry

end EndpointTree
