import EndpointTree.Token.Claims

/-!
# The lifetime of claims

Claims that are issued now expire a number of hours later. The number is a
64-bit word read as a signed one, and the calendar has a first and a last
second, counted from 1970, beyond which there is no expiry.
-/

namespace EndpointTree.Claims

def firstSecond : Int := -8334601228800

def lastSecond : Int := 8210266876799

/-- The seconds of so many hours; from 2^63 on they reach back. -/
def hoursSpan (hours : Nat) : Int := (Int64.ofNat hours).toInt * 3600

/-- Claims from now on for so many hours; none where the calendar ends before. -/
def lasting? (now : Int) (hours : Nat) (subject : Option String) (roles : List String) :
    Option Claims :=
  let expiry := now + hoursSpan hours
  if firstSecond ≤ expiry ∧ expiry ≤ lastSecond then
    some { subject, roles, expiry := some (.ofInt expiry), issued := some (.ofInt now) }
  else none

end EndpointTree.Claims
