import EndpointTree.Yaml.Cursor
import EndpointTree.Yaml.Scalar

/-!
# Reading scalars

A scalar is plain, quoted, or a block of indented lines. In plain and quoted
scalars a single line break stands for a space and further ones for themselves.
Every reader gives the text and the cursor behind it, and none where the text is
not well formed.
-/

namespace EndpointTree.Yaml

/-! ## Plain scalars -/

/-- Whether a character ends a plain scalar of flow structure. -/
def isFlowMark (c : Char) : Bool := [',', '[', ']', '\x7b', '\x7d'].contains c

/-- The characters up to a blank or a mark; none where a colon is misplaced. -/
def plainWord? (flow : Bool) : List Char → Option (List Char)
  | [] => some []
  | c :: rest =>
    if isBlank c || isBreak c then some []
    else if flow && c = ':' && rest.head?.any fun d => isFlowMark d || d = '?' then none
    else if c = ':' && Cursor.endsWord rest then some []
    else if flow && isFlowMark c then some []
    else (plainWord? flow rest).map (c :: ·)

/--
Read further words of a plain scalar; `done` is reversed. The result tells whether
the blanks behind the last word cross a line.
-/
def plainRest? (flow : Bool) (indent steps : Nat) (done pending : List Char) (crossed : Bool)
    (c : Cursor) : Option (String × Bool × Cursor) :=
  let finish (done : List Char) (crossed : Bool) (c : Cursor) :=
    some (String.ofList done.reverse, crossed, c)
  match steps with
  | 0 => finish done crossed c
  | steps + 1 =>
    if c.atMark || c.ahead ['#'] then finish done crossed c
    else match plainWord? flow c.rest with
      | none => none
      | some [] => finish done crossed c
      | some word =>
        let done := word.reverseAux (pending.reverseAux done)
        let behind := c.advance word.length
        match gap? indent behind.size [] [] behind with
        | none => none
        | some g =>
          let crossed := !g.breaks.isEmpty
          if g.blanks.isEmpty && !crossed then finish done false behind
          else if !flow && g.cursor.column < indent then finish done crossed g.cursor
          else plainRest? flow indent steps done g.text crossed g.cursor

/-- Whether a plain scalar can start here. -/
def startsPlain (flow : Bool) : List Char → Bool
  | [] => false
  | c :: rest =>
    if c = '-' then !rest.head?.any isBlank
    else if c = '?' || c = ':' then !flow && !Cursor.endsWord rest
    else !(isBlank c || isBreak c || isFlowMark c ||
      ['#', '&', '*', '!', '|', '>', '\'', '"', '%', '@', '`'].contains c)

/-- Read a plain scalar whose further lines stand at `indent` or right of it. -/
def plainScalar? (flow : Bool) (indent : Nat) (c : Cursor) : Option (String × Bool × Cursor) :=
  plainRest? flow indent c.size [] [] false c

/-! ## Quoted scalars -/

/-- The character of a numeric escape with so many digits. -/
def numericEscape? (digits : Nat) (rest : List Char) : Option Char := do
  let ds := rest.take digits
  if ds.length < digits then none
  let n ← naturalIn? 16 ds
  if n.isValidChar then some (Char.ofNat n) else none

/-- The character of an escape behind its backslash, and how many characters write it. -/
def escapeChar? : List Char → Option (Char × Nat)
  | [] => none
  | c :: rest =>
    match c with
    | '0' => some ('\x00', 1)
    | 'a' => some ('\x07', 1)
    | 'b' => some ('\x08', 1)
    | 't' => some ('\t', 1)
    | '\t' => some ('\t', 1)
    | 'n' => some ('\n', 1)
    | 'v' => some ('\x0b', 1)
    | 'f' => some ('\x0c', 1)
    | 'r' => some ('\r', 1)
    | 'e' => some ('\x1b', 1)
    | ' ' => some (' ', 1)
    | '"' => some ('"', 1)
    | '/' => some ('/', 1)
    | '\\' => some ('\\', 1)
    | 'N' => some ('\u0085', 1)
    | '_' => some ('\u00a0', 1)
    | 'L' => some ('\u2028', 1)
    | 'P' => some ('\u2029', 1)
    | 'x' => (numericEscape? 2 rest).map (·, 3)
    | 'u' => (numericEscape? 4 rest).map (·, 5)
    | 'U' => (numericEscape? 8 rest).map (·, 9)
    | _ => none

/--
Read a quoted scalar behind its opening quote; `done` is reversed. A break behind
a backslash stands for nothing, and so do the blanks of the next line.
-/
def quotedRest? (double : Bool) (steps : Nat) (done : List Char) (c : Cursor) :
    Option (String × Cursor) :=
  match steps with
  | 0 => none
  | steps + 1 =>
    if c.atMark then none
    else match c.rest with
      | [] => none
      | x :: rest =>
        if isBlank x || isBreak x then do
          let g ← gap? 0 c.size [] [] c
          quotedRest? double steps (g.text.reverseAux done) g.cursor
        else if !double && x = '\'' then
          if rest.head? = some '\'' then quotedRest? double steps ('\'' :: done) (c.advance 2)
          else some (String.ofList done.reverse, c.step)
        else if double && x = '"' then some (String.ofList done.reverse, c.step)
        else if double && x = '\\' then
          match c.step.lineBreak? with
          | some (_, next) => do
            let g ← gap? 0 next.size [] [] next
            quotedRest? double steps (g.breaks.reverseAux done) g.cursor
          | none => do
            let (y, length) ← escapeChar? rest
            quotedRest? double steps (y :: done) (c.advance (length + 1))
        else quotedRest? double steps (x :: done) c.step

/-- Read a quoted scalar from its opening quote. -/
def quotedScalar? (double : Bool) (c : Cursor) : Option (String × Cursor) :=
  quotedRest? double c.size [] c.step

/-! ## Block scalars -/

/-- What becomes of the breaks at the end of a block. -/
inductive Chomp where
  | strip | clip | keep
  deriving DecidableEq

/-- Read a mark of chomping, if one is ahead. -/
def chompMark (c : Cursor) : Option Chomp × Cursor :=
  if c.ahead ['+'] then (some .keep, c.step)
  else if c.ahead ['-'] then (some .strip, c.step)
  else (none, c)

/-- Read a digit that gives an indentation, which is not zero, if one is ahead. -/
def indentMark? (c : Cursor) : Option (Option Nat × Cursor) :=
  match c.rest.head?.bind (digitIn? 10) with
  | some 0 => none
  | some n => some (some n, c.step)
  | none => some (none, c)

/-- Read the marks behind `|` or `>`, in either order, up to the next line. -/
def blockHeader? (c : Cursor) : Option (Chomp × Option Nat × Cursor) := do
  let (early, c) := chompMark c
  let (relative, c) ← indentMark? c
  let (late, c) := if early.isSome || relative.isNone then (none, c) else chompMark c
  return ((early <|> late).getD .clip, relative, ← c.endLine?)

/--
Skip spaces left of `indent` and whole blank lines: the breaks, latest first, the
largest column, and the place behind them.
-/
def blockBreaks? (indent : Option Nat) (steps : Nat) (breaks : List Char) (most : Nat)
    (c : Cursor) : Option (List Char × Nat × Cursor) :=
  match steps with
  | 0 => some (breaks, max most c.column, c)
  | steps + 1 =>
    let left := indent.all fun n => c.column < n
    if left && c.ahead [' '] then blockBreaks? indent steps breaks most c.step
    else if left && c.ahead ['\t'] then none
    else match c.lineBreak? with
      | some (sign, next) =>
        blockBreaks? indent steps (sign :: breaks) (max most c.column) next
      | none => some (breaks, max most c.column, c)

/-- The text of a block so far: what is settled, reversed, and the breaks held back. -/
structure BlockText where
  done : List Char
  /-- The break at the end of the last line. -/
  lead : List Char
  /-- The breaks of blank lines behind it, latest first. -/
  trail : List Char
  /-- Whether the last line starts with a blank. -/
  leadBlank : Bool

/-- Read the lines of a block at a column, of at most as many as `steps`. -/
def blockLines? (literal : Bool) (indent steps : Nat) (t : BlockText) (c : Cursor) :
    Option (BlockText × Cursor) :=
  match steps with
  | 0 => some (t, c)
  | steps + 1 =>
    if c.column ≠ indent || c.rest.isEmpty then some (t, c)
    else do
      let blank := c.rest.head?.any isBlank
      let joined :=
        if !literal && t.lead = ['\n'] && !t.leadBlank && !blank then
          if t.trail.isEmpty then [' '] else []
        else t.lead
      let (line, behind) := c.span fun x => !isBreak x
      let done := line.reverseAux (t.trail ++ joined.reverseAux t.done)
      match behind.lineBreak? with
      | none => return (⟨done, [], [], blank⟩, behind)
      | some (sign, next) =>
        let (trail, _, start) ← blockBreaks? (some indent) next.size [] 0 next
        blockLines? literal indent steps ⟨done, [sign], trail, blank⟩ start

/-- Read a block scalar behind its mark; `least` is the least column of its lines. -/
def blockScalar? (literal : Bool) (least : Nat) (c : Cursor) : Option (String × Cursor) := do
  let (chomp, relative, start) ← blockHeader? c
  let fixed := relative.map fun n => least - 1 + n
  let (breaks, most, first) ← blockBreaks? fixed start.size [] 0 start
  let indent := fixed.getD (max (max most least) 1)
  let (t, behind) ← blockLines? literal indent first.size ⟨[], [], breaks, false⟩ first
  let tail := match chomp with
    | .strip => []
    | .clip => t.lead
    | .keep => t.trail ++ t.lead
  return (String.ofList (tail ++ t.done).reverse, behind)

end EndpointTree.Yaml
