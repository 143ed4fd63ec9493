import EndpointTree.Declaration.Cors

/-!
# Resolved cross-origin settings

Every endpoint has all six settings. Each is taken from the nearest declaration
on the way to the root that sets it, and from the defaults where none does.
-/

namespace EndpointTree

/-- The origins that are let in. -/
inductive CorsOrigin where
  | any
  | list (origins : List String)
  deriving DecidableEq, Repr

/-- Cross-origin settings of a compiled endpoint. -/
structure CorsOptions where
  origin : CorsOrigin := .any
  methods : List String := ["GET", "HEAD", "PUT", "PATCH", "POST", "DELETE"]
  /-- Without a list every header is let in that is asked for. -/
  allowedHeaders : Option (List String) := none
  exposedHeaders : List String := []
  credentials : Bool := false
  maxAge : Option Nat := none
  deriving DecidableEq

namespace CorsOptions

instance : Inhabited CorsOptions := ⟨{}⟩

/-- The defaults for configured origins; none at all, or a star among them, means any. -/
def ofOrigins (origins : List String) : CorsOptions :=
  { origin := if origins.isEmpty || origins.contains "*" then .any else .list origins }

/-- The origins of a declared setting. -/
def resolveOrigin : Declaration.OriginSetting → CorsOrigin
  | .flag true => .any
  | .flag false => .list []
  | .one origin => if origin = "*" then .any else .list [origin]
  | .many origins => .list origins

/-- Lay a declaration over the settings of the parent. -/
def overlay (parent : CorsOptions) (d : Declaration.Cors) : CorsOptions where
  origin := (d.origin.map resolveOrigin).getD parent.origin
  methods := d.methods.getD parent.methods
  allowedHeaders := d.allowedHeaders <|> parent.allowedHeaders
  exposedHeaders := d.exposedHeaders.getD parent.exposedHeaders
  credentials := d.credentials.getD parent.credentials
  maxAge := d.maxAge <|> parent.maxAge

end CorsOptions

end EndpointTree
