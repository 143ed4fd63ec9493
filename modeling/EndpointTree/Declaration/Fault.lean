import EndpointTree.Declaration.Cors

/-!
# Why a tree of endpoints cannot be read

Each fault names the path of the endpoint at which it was found.
-/

namespace EndpointTree.Declaration

/-- What is found wrong in a document, with the path of the endpoint and the key. -/
inductive Fault where
  | notANode (path : String)
  | notNames (path key : String)
  | notASection (path key : String)
  | cors (path : String) (fault : CorsFault)
  deriving DecidableEq

/-- The wording of a fault. -/
def Fault.message : Fault → String
  | .notANode path => s!"endpoint '{path}' must be an object"
  | .notNames path key => s!"endpoint '{path}': '{key}' must be a name or a list of names"
  | .notASection path key => s!"endpoint '{path}': '{key}' must be an object"
  | .cors path fault => s!"endpoint '{path}': invalid cors settings: {fault.message}"

end EndpointTree.Declaration
