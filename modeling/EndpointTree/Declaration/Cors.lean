import EndpointTree.Json.Printer
import EndpointTree.Text.Quoted

/-!
# Cross-origin declarations

The value under `cors` is an object with six optional settings, or a list that
gives all six by position. A `null` leaves a setting open. The wording of a
fault names what was found by its kind and what stood in its place.
-/

namespace EndpointTree.Declaration

/-- What a setting has to be. -/
inductive CorsShape where
  | settings
  | texts
  | text
  | flag
  | count
  deriving DecidableEq, Repr

/-- Why cross-origin settings cannot be read. -/
inductive CorsFault where
  | wrongKind (found : Json) (expected : CorsShape)
  | negativeCount (found : Int)
  | notAnOrigin
  | tooFewItems (count : Nat)
  | tooManyItems (count : Nat)
  deriving DecidableEq

/-- What stands for a shape in the wording of a fault. -/
def CorsShape.name : CorsShape → String
  | .settings => "struct CorsDecl"
  | .texts => "a sequence"
  | .text => "a string"
  | .flag => "a boolean"
  | .count => "u64"

/-- A value by its kind, and by its text where it is a scalar. -/
def describeKind : Json → String
  | .null => "null"
  | .bool true => "boolean `true`"
  | .bool false => "boolean `false`"
  | .number (.integer value inRange) => s!"integer `{(Number.integer value inRange).text}`"
  | .number (.real value) => s!"floating point `{value.text}`"
  | .string s => s!"string {Text.quoted s}"
  | .array _ => "sequence"
  | .object _ => "map"

/-- The wording of a fault, without the endpoint at which it was found. -/
def CorsFault.message : CorsFault → String
  | .wrongKind found expected =>
    s!"invalid type: {describeKind found}, expected {expected.name}"
  | .negativeCount found => s!"invalid value: integer `{found}`, expected u64"
  | .notAnOrigin => "data did not match any variant of untagged enum OriginDecl"
  | .tooFewItems count => s!"invalid length {count}, expected struct CorsDecl with 6 elements"
  | .tooManyItems count => s!"invalid length {count}, expected fewer elements in array"

/-- The origins that a node declares. -/
inductive OriginSetting where
  | flag (any : Bool)
  | one (origin : String)
  | many (origins : List String)
  deriving DecidableEq, Repr

/-- Cross-origin settings, each of which may be left open. -/
structure Cors where
  origin : Option OriginSetting := none
  methods : Option (List String) := none
  allowedHeaders : Option (List String) := none
  exposedHeaders : Option (List String) := none
  credentials : Option Bool := none
  maxAge : Option Nat := none
  deriving DecidableEq

namespace Cors

instance : Inhabited Cors := ⟨{}⟩

/-- A setting that `null` leaves open. -/
def optional {α : Type} (read : Json → Except CorsFault α) : Json → Except CorsFault (Option α)
  | .null => .ok none
  | value => (read value).map some

/-- The texts of a list; its first item of another kind is the fault. -/
def texts : List Json → Except CorsFault (List String)
  | [] => .ok []
  | .string s :: rest => (texts rest).map (s :: ·)
  | other :: _ => .error (.wrongKind other .text)

/-- A list of texts. -/
def readTexts : Json → Except CorsFault (List String)
  | .array items => texts items
  | other => .error (.wrongKind other .texts)

/-- The origins as a flag, as one text or as a list, with one fault for all else. -/
def readOrigin : Json → Except CorsFault OriginSetting
  | .bool any => .ok (.flag any)
  | .string origin => .ok (.one origin)
  | .array items => match texts items with
    | .ok origins => .ok (.many origins)
    | .error _ => .error .notAnOrigin
  | _ => .error .notAnOrigin

/-- A truth value. -/
def readFlag : Json → Except CorsFault Bool
  | .bool flag => .ok flag
  | other => .error (.wrongKind other .flag)

/-- An integer from zero on; nothing bounds it above but the range of numbers. -/
def readCount : Json → Except CorsFault Nat
  | .number (.integer value _) =>
    if value < 0 then .error (.negativeCount value) else .ok value.toNat
  | other => .error (.wrongKind other .count)

/-- The six settings in the order in which a list gives them. -/
inductive Setting where
  | origin | methods | allowedHeaders | exposedHeaders | credentials | maxAge
  deriving DecidableEq, Repr

/-- All settings by position. -/
def Setting.all : List Setting :=
  [.origin, .methods, .allowedHeaders, .exposedHeaders, .credentials, .maxAge]

/-- The setting of a declaration key. -/
def Setting.ofKey? (key : String) : Option Setting :=
  if key = "origin" then some .origin
  else if key = "methods" then some .methods
  else if key = "allowedHeaders" then some .allowedHeaders
  else if key = "exposedHeaders" then some .exposedHeaders
  else if key = "credentials" then some .credentials
  else if key = "maxAge" then some .maxAge
  else none

/-- Read one setting into the settings at hand. -/
def put (cors : Cors) (value : Json) : Setting → Except CorsFault Cors
  | .origin => (optional readOrigin value).map fun v => { cors with origin := v }
  | .methods => (optional readTexts value).map fun v => { cors with methods := v }
  | .allowedHeaders => (optional readTexts value).map fun v => { cors with allowedHeaders := v }
  | .exposedHeaders => (optional readTexts value).map fun v => { cors with exposedHeaders := v }
  | .credentials => (optional readFlag value).map fun v => { cors with credentials := v }
  | .maxAge => (optional readCount value).map fun v => { cors with maxAge := v }

/-- Read members in written order; a key that names no setting is ignored. -/
def ofMembers (cors : Cors) : List (String × Json) → Except CorsFault Cors
  | [] => .ok cors
  | (key, value) :: rest =>
    match Setting.ofKey? key with
    | none => ofMembers cors rest
    | some setting => match cors.put value setting with
      | .error fault => .error fault
      | .ok cors => ofMembers cors rest

/-- Read settings by position; `count` is the number of items in the whole list. -/
def ofItems (count : Nat) (cors : Cors) : List Setting → List Json → Except CorsFault Cors
  | [], [] => .ok cors
  | [], _ :: _ => .error (.tooManyItems count)
  | _ :: _, [] => .error (.tooFewItems count)
  | setting :: settings, value :: values =>
    match cors.put value setting with
    | .error fault => .error fault
    | .ok cors => ofItems count cors settings values

/-- Read the value of a `cors` section. -/
def ofJson : Json → Except CorsFault Cors
  | .object members => ofMembers {} members
  | .array items => ofItems items.length {} Setting.all items
  | other => .error (.wrongKind other .settings)

end Cors

end EndpointTree.Declaration
