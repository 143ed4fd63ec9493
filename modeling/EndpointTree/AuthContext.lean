import EndpointTree.Token.Claims

/-!
# Who is calling

The context that the gate or a handshake leaves behind: the token that was
presented, the claims it carried, and the roles they grant. A token that was
refused is kept, and nothing is derived from it.
-/

namespace EndpointTree

/-- What is known about a caller. -/
structure AuthContext where
  token : Option String := none
  claims : Option Claims := none
  authenticated : Bool := false
  roles : List String := []
  deriving DecidableEq

namespace AuthContext

/-- A caller who presented nothing. -/
def anonymous : AuthContext := {}

instance : Inhabited AuthContext := ⟨anonymous⟩

def authenticatedBy (token : String) (claims : Claims) : AuthContext :=
  ⟨some token, some claims, true, claims.roles⟩

def refused (token : String) : AuthContext := { token := some token }

end AuthContext

end EndpointTree
