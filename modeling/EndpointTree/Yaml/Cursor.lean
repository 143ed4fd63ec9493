/-!
# Places in a text

A cursor is the unread rest of a text with its offset in bytes, its line and its
column. Lines end at any of five breaks; a carriage return with a line feed behind
it is one break. Breaks stand for a line feed, the two separators of paragraphs and
lines aside, which stand for themselves.

* `gap?` reads a run of blanks and breaks, as it stands between words.
-/

namespace EndpointTree.Yaml

def isBlank (c : Char) : Bool := c = ' ' || c = '\t'

def isBreak (c : Char) : Bool := ['\n', '\r', '\u0085', '\u2028', '\u2029'].contains c

/-- The unread rest of a text and where it starts. -/
structure Cursor where
  rest : List Char
  /-- The length of the whole text, which bounds the steps of every reader. -/
  size : Nat
  /-- The bytes in front of the rest. -/
  offset : Nat := 0
  line : Nat := 0
  column : Nat := 0

namespace Cursor

def ofText (text : List Char) : Cursor := { rest := text, size := text.length }

/-- Whether there is nothing or a line break ahead. -/
def endsLine : List Char → Bool
  | [] => true
  | c :: _ => isBreak c

/-- Whether there is nothing, a blank or a line break ahead. -/
def endsWord : List Char → Bool
  | [] => true
  | c :: _ => isBlank c || isBreak c

/-- Whether one of some characters is ahead. -/
def ahead (c : Cursor) (among : List Char) : Bool := c.rest.head?.any among.contains

/-- Whether a word of one character is ahead. -/
def atLone (c : Cursor) (mark : Char) : Bool :=
  match c.rest with
  | x :: rest => x = mark && endsWord rest
  | [] => false

/-- Move over one character of the same line. -/
def step (c : Cursor) : Cursor :=
  match c.rest with
  | [] => c
  | x :: rest => { c with rest, offset := c.offset + x.utf8Size, column := c.column + 1 }

/-- Move over characters of the same line. -/
def advance (c : Cursor) : Nat → Cursor
  | 0 => c
  | n + 1 => c.step.advance n

/-- The characters ahead that pass a test, all on the same line, and the place behind them. -/
def span (c : Cursor) (test : Char → Bool) : List Char × Cursor :=
  let taken := c.rest.takeWhile test
  (taken, c.advance taken.length)

def skipBlanks (c : Cursor) : Cursor := (c.span isBlank).2

def skipComment (c : Cursor) : Cursor :=
  if c.ahead ['#'] then (c.span fun x => !isBreak x).2 else c

/-- Move over a line break that is ahead: what it stands for, and the next line. -/
def lineBreak? (c : Cursor) : Option (Char × Cursor) :=
  let next (sign : Char) (bytes : Nat) (rest : List Char) : Option (Char × Cursor) :=
    some (sign, { c with rest, offset := c.offset + bytes, line := c.line + 1, column := 0 })
  match c.rest with
  | '\r' :: '\n' :: rest => next '\n' 2 rest
  | x :: rest =>
    if isBreak x then
      next (if x = '\u2028' || x = '\u2029' then x else '\n') x.utf8Size rest
    else none
  | [] => none

/-- Move to the end of the line over blanks and a comment, and behind its break. -/
def endLine? (c : Cursor) : Option Cursor :=
  let c := c.skipBlanks.skipComment
  if c.rest.isEmpty then some c else c.lineBreak?.map Prod.snd

/-- Whether three of some character form a mark that starts or ends a document. -/
def atMarkOf (c : Cursor) (mark : Char) : Bool :=
  c.column = 0 && match c.rest with
    | x :: y :: z :: rest => x = mark && y = mark && z = mark && endsWord rest
    | _ => false

/-- Whether a mark that starts or ends a document is ahead. -/
def atMark (c : Cursor) : Bool := c.atMarkOf '-' || c.atMarkOf '.'

end Cursor

/-- A run of blanks and breaks: the blanks before its first break, its breaks, and its end. -/
structure Gap where
  blanks : List Char
  breaks : List Char
  cursor : Cursor

/--
Read a run of blanks and breaks, of at most as many characters as `steps`. On a
new line a tab left of the column `indent` is refused.
-/
def gap? (indent steps : Nat) (blanks breaks : List Char) (c : Cursor) : Option Gap :=
  let done := some ⟨blanks.reverse, breaks.reverse, c⟩
  match steps with
  | 0 => done
  | steps + 1 =>
    match c.lineBreak? with
    | some (sign, next) => gap? indent steps blanks (sign :: breaks) next
    | none =>
      match c.rest with
      | [] => done
      | x :: _ =>
        if !isBlank x then done
        else if breaks.isEmpty then gap? indent steps (x :: blanks) breaks c.step
        else if x = '\t' && c.column < indent then none
        else gap? indent steps blanks breaks c.step

/-- What breaks between two words stand for: a single line feed for a space. -/
def foldBreaks : List Char → List Char
  | ['\n'] => [' ']
  | '\n' :: further => further
  | breaks => breaks

/-- What a run between two words stands for. -/
def Gap.text (g : Gap) : List Char := if g.breaks.isEmpty then g.blanks else foldBreaks g.breaks

/-- Whether a character may occur in a document at all. -/
def isReadable (c : Char) : Bool :=
  let n := c.toNat
  n = 9 || n = 10 || n = 13 || (0x20 ≤ n && n ≤ 0x7e) || n = 0x85 || (0xa0 ≤ n && n ≤ 0xd7ff) ||
    (0xe000 ≤ n && n ≤ 0xfffd) || 0x10000 ≤ n

end EndpointTree.Yaml
