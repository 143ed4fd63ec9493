import EndpointTree.Http.Headers

/-!
# Request targets

A target is a path with, perhaps, a query; a scheme and an authority in front are
passed over, and so is a fragment behind. Neither part is decoded here. Characters
beyond ASCII may stand in a path and a query.

* `Target.ofText?` reads a target; a text with a character that may not stand in
  one is none.
-/

namespace EndpointTree.Http

/-- A target, both parts as they were written. -/
structure Target where
  path : List Char
  query : List Char := []
  deriving DecidableEq

namespace Target

def longest : Nat := 65534

def isQueryChar (c : Char) : Bool :=
  let n := c.toNat
  n ≠ 0x7f && (n = 0x21 || (0x24 ≤ n && n ≤ 0x3b) || n = 0x3d || 0x3f ≤ n)

def isPathChar (c : Char) : Bool :=
  let n := c.toNat
  n ≠ 0x7f && (n = 0x21 || n = 0x22 || (0x24 ≤ n && n ≤ 0x3b) || n = 0x3d ||
    (0x40 ≤ n && n ≤ 0x5f) || 0x61 ≤ n)

/-- Read a path and a query. -/
def ofPathAndQuery? (s : List Char) : Option Target :=
  let s := s.takeWhile (· ≠ '#')
  let path := s.takeWhile (· ≠ '?')
  let query := s.drop (path.length + 1)
  if path.all isPathChar && query.all isQueryChar then
    some { path := if path.isEmpty then ['/'] else path, query }
  else none

/-! ## Authorities -/

/-- Whether a character may stand in an authority, the percent sign aside. -/
def isAuthorityChar (c : Char) : Bool :=
  c.isAlphanum || "-._~!$&'()*+,;=:@[]".toList.contains c

/-- What has been seen of an authority. -/
structure Authority where
  /-- The colons since the last at sign or closing bracket. -/
  colons : Nat := 0
  opened : Bool := false
  closed : Bool := false
  /-- Whether there is a percent sign since the last at sign or closing bracket. -/
  percent : Bool := false
  /-- Whether the last character is an at sign. -/
  endsAt : Bool := false

/-- The most colons that may stand together, as in an address and its number. -/
def colonLimit : Nat := 8

namespace Authority

/-- Read one more character. -/
def step? (a : Authority) (c : Char) : Option Authority :=
  let a := { a with endsAt := false }
  if c = ':' then
    if a.colons < colonLimit then some { a with colons := a.colons + 1 } else none
  else if c = '[' then if a.percent || a.opened then none else some { a with opened := true }
  else if c = ']' then
    if !a.opened || a.closed then none
    else some { a with closed := true, colons := 0, percent := false }
  else if c = '@' then some { a with endsAt := true, colons := 0, percent := false }
  else if c = '%' then some { a with percent := true }
  else if isAuthorityChar c then some a
  else none

/-- Whether an authority may end here. -/
def complete (a : Authority) : Bool :=
  a.opened = a.closed && a.colons ≤ 1 && !a.endsAt && !a.percent

end Authority

/-- The authority at the start of a text, which may be blank, and the rest. -/
def splitAuthority? (s : List Char) : Option (List Char × List Char) := do
  let text := s.takeWhile fun c => !(['/', '?', '#'].contains c)
  let a ← text.foldlM Authority.step? {}
  if a.complete then some (text, s.drop text.length) else none

/-! ## Targets -/

/-- Whether a character may stand in a scheme. -/
def isSchemeChar (c : Char) : Bool := c.isAlphanum || c = '+' || c = '-' || c = '.'

def schemeLimit : Nat := 64

/-- What stands behind a scheme, if there is one; it may be blank. -/
def afterScheme? (s : List Char) : Option (List Char) :=
  let scheme := s.takeWhile isSchemeChar
  match s.drop scheme.length with
  | ':' :: '/' :: '/' :: rest =>
    if schemeLimit < scheme.length || (scheme.isEmpty && rest.isEmpty) then none else some rest
  | _ => none

def ofText? (text : String) : Option Target :=
  if longest < text.utf8ByteSize then none
  else match text.toList with
    | [] => none
    | ['*'] => some { path := ['*'] }
    | '/' :: rest => ofPathAndQuery? ('/' :: rest)
    | s => do
      let behind := afterScheme? s
      let (authority, rest) ← splitAuthority? (behind.getD s)
      if authority.isEmpty then none
      else if behind.isSome then ofPathAndQuery? rest
      else if rest.isEmpty then some { path := [] }
      else none

end Target

end EndpointTree.Http
