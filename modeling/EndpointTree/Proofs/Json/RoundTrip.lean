import EndpointTree.Proofs.Faults
import EndpointTree.Proofs.Json.Members
import EndpointTree.Proofs.Json.Numbers

/-!
# Documents there and back

A document is read back from its compact text, members in their order, if its numbers are
integers and its arrays and objects do not nest deeper than the reader goes. A double need not
be the same when it is read back, and a document that nests deeper is not read at all.

* `Json.IntegersOnly` and `Json.depth` are the two conditions.
* `Json.value_chars`: the reader takes just the document, whatever stands behind it.
* `Json.parseRaw_text`: the text of a document is read as that document.
* `Json.front_of_parseRaw`: of an object, whatever else it holds, the members in front are read.
* `Json.parse_text`: so it is by the reader that settles repeated keys, where there are none.
-/

namespace EndpointTree.Json

mutual

/-- All numbers inside are integers. -/
def IntegersOnly : Json → Prop
  | .number n => n.integer?.isSome = true
  | .array items => IntegersOnlyItems items
  | .object members => IntegersOnlyMembers members
  | _ => True

/-- All numbers in the items are whole. -/
def IntegersOnlyItems : List Json → Prop
  | [] => True
  | x :: rest => IntegersOnly x ∧ IntegersOnlyItems rest

/-- All numbers in the values are whole. -/
def IntegersOnlyMembers : List (String × Json) → Prop
  | [] => True
  | (_, x) :: rest => IntegersOnly x ∧ IntegersOnlyMembers rest

end

mutual

/-- How many arrays and objects are open at the deepest place. -/
def depth : Json → Nat
  | .array items => depthItems items + 1
  | .object members => depthMembers members + 1
  | _ => 0

/-- The greatest depth of an item. -/
def depthItems : List Json → Nat
  | [] => 0
  | x :: rest => max (depth x) (depthItems rest)

/-- The greatest depth of a value. -/
def depthMembers : List (String × Json) → Nat
  | [] => 0
  | (_, x) :: rest => max (depth x) (depthMembers rest)

end

theorem integersOnlyItems_iff {items : List Json} :
    IntegersOnlyItems items ↔ ∀ x ∈ items, x.IntegersOnly := by
  induction items with
  | nil => exact ⟨nofun, fun _ => trivial⟩
  | cons x rest ih => rw [IntegersOnlyItems, ih, List.forall_mem_cons]

theorem integersOnlyMembers_iff {members : List (String × Json)} :
    IntegersOnlyMembers members ↔ ∀ m ∈ members, m.2.IntegersOnly := by
  induction members with
  | nil => exact ⟨nofun, fun _ => trivial⟩
  | cons m rest ih => rw [IntegersOnlyMembers, ih, List.forall_mem_cons]

/-- Items are as deep as the deepest of them. -/
theorem depthItems_le_iff {items : List Json} {n : Nat} :
    depthItems items ≤ n ↔ ∀ x ∈ items, x.depth ≤ n := by
  induction items with
  | nil => exact ⟨nofun, fun _ => Nat.zero_le n⟩
  | cons x rest ih => rw [depthItems, Nat.max_le, ih, List.forall_mem_cons]

/-- Members are as deep as the deepest of their values. -/
theorem depthMembers_le_iff {members : List (String × Json)} {n : Nat} :
    depthMembers members ≤ n ↔ ∀ m ∈ members, m.2.depth ≤ n := by
  induction members with
  | nil => exact ⟨nofun, fun _ => Nat.zero_le n⟩
  | cons m rest ih => rw [depthMembers, Nat.max_le, ih, List.forall_mem_cons]

/-! ## One step of the reader -/

section Steps

variable (steps levels : Nat) (rest : List UInt8)

theorem skipBlanks_cons {b : UInt8} (notBlank : isBlankByte b = false) :
    skipBlanks (b :: rest) = b :: rest := by
  rw [skipBlanks, List.dropWhile_cons_of_neg (Bool.eq_false_iff.mp notBlank)]

theorem value_null : value (steps + 1) levels (bytesOf (chars .null) ++ rest) = .ok (.null, rest) :=
  rfl

theorem value_bool (b : Bool) :
    value (steps + 1) levels (bytesOf (chars (.bool b)) ++ rest) = .ok (.bool b, rest) := by
  cases b <;> rfl

theorem value_quote : value (steps + 1) levels (byte '"' :: rest) =
    (stringAfterQuote rest).map fun (s, r) => (.string s, r) := rfl

theorem value_minus : value (steps + 1) levels (byte '-' :: rest) =
    (unsignedNumber true rest).map fun (n, r) => (.number n, r) := rfl

theorem ne_of_isDigitByte {b b' : UInt8} (digit : isDigitByte b = true)
    (other : isDigitByte b' = false) : b ≠ b' := by
  rintro rfl
  rw [digit] at other
  cases other

theorem isBlankByte_of_isDigitByte {b : UInt8} (digit : isDigitByte b = true) :
    isBlankByte b = false := by
  simp only [isBlankByte, Bool.or_eq_false_iff, decide_eq_false_iff_not]
  exact ⟨⟨⟨ne_of_isDigitByte digit (by decide), ne_of_isDigitByte digit (by decide)⟩,
    ne_of_isDigitByte digit (by decide)⟩, ne_of_isDigitByte digit (by decide)⟩

/-- A digit begins a number. -/
theorem value_digit {b : UInt8} (digit : isDigitByte b = true) :
    value (steps + 1) levels (b :: rest) =
      (unsignedNumber false (b :: rest)).map fun (n, r) => (.number n, r) := by
  rw [value, skipBlanks_cons rest (isBlankByte_of_isDigitByte digit)]
  dsimp only
  rw [if_neg (ne_of_isDigitByte digit (by decide)), if_neg (ne_of_isDigitByte digit (by decide)),
    if_neg (ne_of_isDigitByte digit (by decide)), if_neg (ne_of_isDigitByte digit (by decide)),
    if_pos digit]

theorem value_bracket : value (steps + 1) (levels + 2) (byte '[' :: byte ']' :: rest) =
    .ok (.array [], rest) := rfl

/-- Anything but a closing bracket behind an opening one begins the first item. -/
theorem value_items {b : UInt8} (notBlank : isBlankByte b = false) (notEnd : b ≠ byte ']') :
    value (steps + 1) (levels + 2) (byte '[' :: b :: rest) =
      (itemsFrom steps (levels + 1) (b :: rest)).map fun (xs, r) => (.array xs, r) := by
  have opened : skipBlanks (byte '[' :: b :: rest) = byte '[' :: b :: rest := rfl
  rw [value, opened]
  dsimp only
  rw [if_neg (by decide), if_neg (by decide), if_neg (by decide), if_neg (by decide),
    if_neg (by decide), if_neg (by decide), if_pos rfl, if_neg (by omega),
    skipBlanks_cons rest notBlank]
  dsimp only
  rw [if_neg notEnd]
  rfl

theorem value_brace : value (steps + 1) (levels + 2) (byte '{' :: byte '}' :: rest) =
    .ok (.object [], rest) := rfl

/-- A quote behind an opening brace begins the first key. -/
theorem value_members : value (steps + 1) (levels + 2) (byte '{' :: byte '"' :: rest) =
    (membersFrom steps (levels + 1) (byte '"' :: rest)).map fun (xs, r) => (.object xs, r) := rfl

/-- The last item is followed by the closing bracket. -/
theorem itemsFrom_last {bs : List UInt8} {x : Json}
    (read : value steps levels bs = .ok (x, byte ']' :: rest)) :
    itemsFrom (steps + 1) levels bs = .ok ([x], rest) := by
  rw [itemsFrom, read]
  rfl

/-- Any other item is followed by a comma and by the next item. -/
theorem itemsFrom_next {bs : List UInt8} {x : Json} {b : UInt8}
    (read : value steps levels bs = .ok (x, byte ',' :: b :: rest))
    (notBlank : isBlankByte b = false) (notEnd : b ≠ byte ']') :
    itemsFrom (steps + 1) levels bs =
      (itemsFrom steps levels (b :: rest)).map fun (xs, r) => (x :: xs, r) := by
  rw [itemsFrom, read]
  dsimp only
  rw [skipBlanks_cons _ (by decide)]
  dsimp only
  rw [if_neg (by decide), if_pos rfl, skipBlanks_cons rest notBlank]
  dsimp only
  rw [if_neg notEnd]

variable {bs behind : List UInt8} {key : String} {x : Json}

/-- The last member is followed by the closing brace. -/
theorem membersFrom_last (keyRead : stringAfterQuote bs = .ok (key, byte ':' :: behind))
    (read : value steps levels behind = .ok (x, byte '}' :: rest)) :
    membersFrom (steps + 1) levels (byte '"' :: bs) = .ok ([(key, x)], rest) := by
  rw [membersFrom, if_neg (not_not_intro rfl), keyRead]
  dsimp only
  rw [skipBlanks_cons _ (by decide)]
  dsimp only
  rw [if_neg (not_not_intro rfl), read]
  rfl

/-- Any other member is followed by a comma and by the next member. -/
theorem membersFrom_next (keyRead : stringAfterQuote bs = .ok (key, byte ':' :: behind))
    (read : value steps levels behind = .ok (x, byte ',' :: byte '"' :: rest)) :
    membersFrom (steps + 1) levels (byte '"' :: bs) =
      (membersFrom steps levels (byte '"' :: rest)).map fun (xs, r) => ((key, x) :: xs, r) := by
  rw [membersFrom, if_neg (not_not_intro rfl), keyRead]
  dsimp only
  rw [skipBlanks_cons _ (by decide)]
  dsimp only
  rw [if_neg (not_not_intro rfl), read]
  rfl

end Steps

/-! ## Bytes of documents -/

theorem bytesOf_between {opening closing : Char} (ascii : opening.toNat < 128)
    (ascii' : closing.toNat < 128) (cs : List Char) (rest : List UInt8) :
    bytesOf (opening :: cs ++ [closing]) ++ rest =
      byte opening :: (bytesOf cs ++ byte closing :: rest) := by
  have last : bytesOf [closing] = [byte closing] := bytesOf_cons_ascii ascii' []
  rw [List.cons_append, bytesOf_cons_ascii ascii, bytesOf_append, last, List.cons_append,
    List.append_assoc, List.singleton_append]

/-- A quoted text is its escaped bytes between two quotes. -/
theorem bytesOf_quoted (s : String) (rest : List UInt8) :
    bytesOf (quoted s) ++ rest =
      byte '"' :: (bytesOf (s.toList.flatMap escaped) ++ byte '"' :: rest) :=
  bytesOf_between (by decide) (by decide) _ rest

/-- A list is its items between two brackets. -/
theorem bytesOf_array (items : List Json) (rest : List UInt8) :
    bytesOf (chars (.array items)) ++ rest =
      byte '[' :: (bytesOf (itemChars items) ++ byte ']' :: rest) :=
  bytesOf_between (by decide) (by decide) _ rest

/-- An object is its members between two braces. -/
theorem bytesOf_object (members : List (String × Json)) (rest : List UInt8) :
    bytesOf (chars (.object members)) ++ rest =
      byte '{' :: (bytesOf (memberChars members) ++ byte '}' :: rest) :=
  bytesOf_between (by decide) (by decide) _ rest

theorem length_array (items : List Json) :
    (bytesOf (chars (.array items))).length = (bytesOf (itemChars items)).length + 2 := by
  have lengths := congrArg List.length (bytesOf_array items [])
  simpa only [List.append_nil, List.length_cons, List.length_append, List.length_nil] using lengths

theorem length_object (members : List (String × Json)) :
    (bytesOf (chars (.object members))).length = (bytesOf (memberChars members)).length + 2 := by
  have lengths := congrArg List.length (bytesOf_object members [])
  simpa only [List.append_nil, List.length_cons, List.length_append, List.length_nil] using lengths

/-- The digits of a number start with a digit. -/
theorem bytesOf_toDigits_cons (n : Nat) :
    ∃ b bs, bytesOf (Nat.toDigits 10 n) = b :: bs ∧ isDigitByte b = true := by
  cases written : Nat.toDigits 10 n with
  | nil => exact absurd written Nat.toDigits_ne_nil
  | cons c cs =>
    have digit : c.isDigit = true := Nat.isDigit_of_mem_toDigits (by decide) (by decide)
      (written ▸ List.mem_cons_self)
    exact ⟨byte c, bytesOf cs, bytesOf_digits digit cs, isDigitByte_byte digit⟩

/-- A document starts with a byte that is neither a blank nor a closing bracket. -/
theorem bytesOf_chars_cons : ∀ {v : Json}, v.IntegersOnly →
    ∃ b bs, bytesOf v.chars = b :: bs ∧ isBlankByte b = false ∧ b ≠ byte ']'
  | .null, _ => ⟨_, _, rfl, by decide, by decide⟩
  | .bool true, _ => ⟨_, _, rfl, by decide, by decide⟩
  | .bool false, _ => ⟨_, _, rfl, by decide, by decide⟩
  | .string s, _ =>
    ⟨_, _, (List.append_nil _).symm.trans (bytesOf_quoted s []), by decide, by decide⟩
  | .array items, _ =>
    ⟨_, _, (List.append_nil _).symm.trans (bytesOf_array items []), by decide, by decide⟩
  | .object members, _ =>
    ⟨_, _, (List.append_nil _).symm.trans (bytesOf_object members []), by decide, by decide⟩
  | .number (.integer i inRange), _ => by
    rw [chars, text_integer]
    split
    · exact ⟨_, _, bytesOf_cons_ascii (by decide) _, by decide, by decide⟩
    · obtain ⟨b, bs, bytes, digit⟩ := bytesOf_toDigits_cons i.natAbs
      exact ⟨b, bs, bytes, isBlankByte_of_isDigitByte digit, ne_of_isDigitByte digit (by decide)⟩
  | .number (.real _), ints => by cases ints

/-! ## Reading -/

/-- An integer is read back from its digits. -/
theorem value_integer {i : Int} (inRange) (steps levels : Nat) {rest : List UInt8}
    (ends : EndsNumber rest) :
    value (steps + 1) levels (bytesOf (chars (.number (.integer i inRange))) ++ rest) =
      .ok (.number (.integer i inRange), rest) := by
  have whole := wholeNumber_natAbs i inRange
  have fits : i.natAbs < significandLimit := by
    have low : -9223372036854775808 ≤ i := inRange.1
    have high : i < 18446744073709551616 := inRange.2
    change i.natAbs < 18446744073709551616
    omega
  rw [chars, text_integer]
  split
  · next negative =>
    rw [decide_eq_true negative] at whole
    rw [bytesOf_cons_ascii (by decide), List.cons_append, value_minus,
      unsignedNumber_digits fits ends, whole]
    rfl
  · next negative =>
    rw [decide_eq_false negative] at whole
    obtain ⟨b, bs, bytes, digit⟩ := bytesOf_toDigits_cons i.natAbs
    have read := unsignedNumber_digits fits ends false
    rw [bytes, List.cons_append] at read ⊢
    rw [value_digit steps levels _ digit, read, whole]
    rfl

/-- The items behind the first one stand behind a comma. -/
theorem bytesOf_items (x y : Json) (more : List Json) :
    bytesOf (itemChars (x :: y :: more)) =
      bytesOf x.chars ++ byte ',' :: bytesOf (itemChars (y :: more)) := by
  rw [itemChars, bytesOf_append, bytesOf_cons_ascii (by decide)]
  nofun

/-- What begins an item is neither a blank nor a closing bracket. -/
theorem bytesOf_items_cons {x : Json} (ints : x.IntegersOnly) (more : List Json) :
    ∃ b bs, bytesOf (itemChars (x :: more)) = b :: bs ∧ isBlankByte b = false ∧ b ≠ byte ']' := by
  obtain ⟨b, bs, bytes, notBlank, notEnd⟩ := bytesOf_chars_cons ints
  cases more with
  | nil => exact ⟨b, bs, bytes, notBlank, notEnd⟩
  | cons y more =>
    refine ⟨b, bs ++ byte ',' :: bytesOf (itemChars (y :: more)), ?_, notBlank, notEnd⟩
    rw [bytesOf_items, bytes, List.cons_append]

/-- A member is its quoted key, a colon and its value. -/
theorem bytesOf_member (k : String) (x : Json) (rest : List UInt8) :
    bytesOf (quoted k ++ ':' :: x.chars) ++ rest = byte '"' ::
      (bytesOf (k.toList.flatMap escaped) ++
        byte '"' :: byte ':' :: (bytesOf x.chars ++ rest)) := by
  rw [bytesOf_append, List.append_assoc, bytesOf_cons_ascii (by decide), List.cons_append,
    bytesOf_quoted]

theorem length_le_member (k : String) (x : Json) :
    (bytesOf x.chars).length ≤ (bytesOf (quoted k ++ ':' :: x.chars)).length := by
  rw [bytesOf_append, bytesOf_cons_ascii (by decide), List.length_append, List.length_cons]
  omega

/-- The members behind the first one stand behind a comma. -/
theorem bytesOf_members (k : String) (x : Json) (m : String × Json)
    (more : List (String × Json)) :
    bytesOf (memberChars ((k, x) :: m :: more)) =
      bytesOf (quoted k ++ ':' :: x.chars) ++ byte ',' :: bytesOf (memberChars (m :: more)) := by
  rw [memberChars, bytesOf_append, bytesOf_cons_ascii (by decide)]
  nofun

theorem bytesOf_members_cons (m : String × Json) (more : List (String × Json)) :
    ∃ bs, bytesOf (memberChars (m :: more)) = byte '"' :: bs := by
  obtain ⟨k, x⟩ := m
  have first := bytesOf_member k x
  cases more with
  | nil => exact ⟨_, (List.append_nil _).symm.trans (first [])⟩
  | cons m more => exact ⟨_, (bytesOf_members k x m more).trans (first _)⟩

mutual

/-- A document is read back from its characters, whatever stands behind them. -/
theorem value_chars : ∀ (v : Json) {steps levels : Nat} {rest : List UInt8}, v.IntegersOnly →
    v.depth < levels → 2 * (bytesOf v.chars).length ≤ steps → EndsNumber rest →
      value steps levels (bytesOf v.chars ++ rest) = .ok (v, rest)
  | v, 0, _, _, ints, _, enough, _ => by
    obtain ⟨b, bs, bytes, -⟩ := bytesOf_chars_cons ints
    rw [bytes] at enough
    cases enough
  | .null, steps + 1, levels, rest, _, _, _, _ => value_null steps levels rest
  | .bool b, steps + 1, levels, rest, _, _, _, _ => value_bool steps levels rest b
  | .number (.integer _ inRange), steps + 1, levels, rest, _, _, _, ends =>
    value_integer inRange steps levels ends
  | .string s, steps + 1, levels, rest, _, _, _, _ => by
    rw [chars, bytesOf_quoted, value_quote, stringAfterQuote_quoted]
    rfl
  | .array [], steps + 1, levels + 2, rest, _, _, _, _ => value_bracket steps levels rest
  | .array (x :: items), steps + 1, levels + 2, rest, ints, shallow, enough, _ => by
    rw [length_array] at enough
    have read := itemsFrom_chars (x :: items) rest (List.cons_ne_nil x items) ints
      (Nat.lt_of_succ_lt_succ shallow) (show _ ≤ steps by omega)
    obtain ⟨b, bs, bytes, notBlank, notEnd⟩ := bytesOf_items_cons ints.1 items
    rw [bytesOf_array]
    rw [bytes, List.cons_append] at read ⊢
    rw [value_items steps levels _ notBlank notEnd, read]
    rfl
  | .object [], steps + 1, levels + 2, rest, _, _, _, _ => value_brace steps levels rest
  | .object (m :: members), steps + 1, levels + 2, rest, ints, shallow, enough, _ => by
    rw [length_object] at enough
    have read := membersFrom_chars (m :: members) rest (List.cons_ne_nil m members) ints
      (Nat.lt_of_succ_lt_succ shallow) (show _ ≤ steps by omega)
    obtain ⟨bs, bytes⟩ := bytesOf_members_cons m members
    rw [bytesOf_object]
    rw [bytes, List.cons_append] at read ⊢
    rw [value_members, read]
    rfl

/-- Items are read back up to the closing bracket. -/
theorem itemsFrom_chars : ∀ (items : List Json) {steps levels : Nat} (rest : List UInt8),
    items ≠ [] → IntegersOnlyItems items → depthItems items < levels →
      2 * (bytesOf (itemChars items)).length + 1 ≤ steps →
        itemsFrom steps levels (bytesOf (itemChars items) ++ byte ']' :: rest) = .ok (items, rest)
  | [x], steps + 1, levels, rest, _, ints, shallow, enough => by
    have first : x.depth < levels := Nat.lt_of_le_of_lt (Nat.le_max_left ..) shallow
    rw [itemChars] at enough ⊢
    exact itemsFrom_last steps levels rest (value_chars x ints.1 first (by omega)
      (endsNumber_cons (by decide) rest))
  | x :: y :: more, steps + 1, levels, rest, _, ints, shallow, enough => by
    have first : x.depth < levels := Nat.lt_of_le_of_lt (Nat.le_max_left ..) shallow
    have others : depthItems (y :: more) < levels :=
      Nat.lt_of_le_of_lt (Nat.le_max_right ..) shallow
    rw [bytesOf_items] at enough ⊢
    rw [List.length_append, List.length_cons] at enough
    have read := itemsFrom_chars (y :: more) rest (List.cons_ne_nil y more) ints.2 others
      (show _ ≤ steps by omega)
    obtain ⟨b, bs, bytes, notBlank, notEnd⟩ := bytesOf_items_cons ints.2.1 more
    rw [List.append_assoc, List.cons_append]
    rw [bytes, List.cons_append] at read ⊢
    rw [itemsFrom_next steps levels _ (value_chars x ints.1 first (by omega)
      (endsNumber_cons (by decide) _)) notBlank notEnd, read]
    rfl

/-- Members are read back up to the closing brace. -/
theorem membersFrom_chars : ∀ (members : List (String × Json)) {steps levels : Nat}
    (rest : List UInt8), members ≠ [] → IntegersOnlyMembers members →
      depthMembers members < levels → 2 * (bytesOf (memberChars members)).length + 1 ≤ steps →
        membersFrom steps levels (bytesOf (memberChars members) ++ byte '}' :: rest) =
          .ok (members, rest)
  | [(k, x)], steps + 1, levels, rest, _, ints, shallow, enough => by
    have first : x.depth < levels := Nat.lt_of_le_of_lt (Nat.le_max_left ..) shallow
    have length := length_le_member k x
    rw [memberChars] at enough ⊢
    rw [bytesOf_member]
    exact membersFrom_last steps levels rest (stringAfterQuote_quoted k _)
      (value_chars x ints.1 first (by omega) (endsNumber_cons (by decide) rest))
  | (k, x) :: m :: more, steps + 1, levels, rest, _, ints, shallow, enough => by
    have first : x.depth < levels := Nat.lt_of_le_of_lt (Nat.le_max_left ..) shallow
    have others : depthMembers (m :: more) < levels :=
      Nat.lt_of_le_of_lt (Nat.le_max_right ..) shallow
    have length := length_le_member k x
    rw [bytesOf_members] at enough ⊢
    rw [List.length_append, List.length_cons] at enough
    have read := membersFrom_chars (m :: more) rest (List.cons_ne_nil m more) ints.2 others
      (show _ ≤ steps by omega)
    obtain ⟨bs, bytes⟩ := bytesOf_members_cons m more
    rw [List.append_assoc, List.cons_append, bytesOf_member]
    rw [bytes, List.cons_append] at read ⊢
    rw [membersFrom_next steps levels _ (stringAfterQuote_quoted k _)
      (value_chars x ints.1 first (by omega) (endsNumber_cons (by decide) _)), read]
    rfl

end

/-- The text of a document is read as that document. -/
theorem parseRaw_text {v : Json} (ints : v.IntegersOnly) (shallow : v.depth < levelLimit) :
    parseRaw v.text.toUTF8 = .ok v := by
  have read : value (2 * (bytesOf v.chars).length + 2) levelLimit (bytesOf v.chars ++ []) =
      .ok (v, []) :=
    value_chars v ints shallow (by omega) endsNumber_nil
  rw [List.append_nil] at read
  have bytes : v.text.toUTF8.toList = bytesOf v.chars := by
    rw [toList_toUTF8, text, String.toList_ofList]
  rw [parseRaw, bytes, document, read]
  rfl

/-! ## Members in front -/

/-- What is read of an object starts with the members that can be read back, whatever members
follow them. -/
theorem front_of_membersFrom {front more : List (String × Json)} {steps levels : Nat}
    {rest behind : List UInt8} {members : List (String × Json)}
    (ints : IntegersOnlyMembers front) (shallow : depthMembers front < levels)
    (enough : 2 * (bytesOf (memberChars (front ++ more))).length + 1 ≤ steps)
    (read : membersFrom steps levels (bytesOf (memberChars (front ++ more)) ++ byte '}' :: rest) =
      .ok (members, behind)) : front <+: members := by
  induction front generalizing steps members with
  | nil => exact List.nil_prefix
  | cons m front ih =>
    obtain ⟨k, x⟩ := m
    obtain ⟨steps, rfl⟩ := Nat.exists_eq_succ_of_ne_zero (show steps ≠ 0 by omega)
    have first : x.depth < levels := Nat.lt_of_le_of_lt (Nat.le_max_left ..) shallow
    have others : depthMembers front < levels := Nat.lt_of_le_of_lt (Nat.le_max_right ..) shallow
    have length := length_le_member k x
    rw [List.cons_append] at enough read
    cases following : front ++ more with
    | nil =>
      rw [following, memberChars] at enough read
      rw [bytesOf_member, membersFrom_last _ _ _ (stringAfterQuote_quoted k _)
        (value_chars x ints.1 first (by omega) (endsNumber_cons (by decide) rest))] at read
      obtain ⟨rfl, -⟩ := Prod.mk.inj (Except.ok.inj read)
      have single : front = [] := (List.append_eq_nil_iff.mp following).1
      exact single ▸ List.prefix_rfl
    | cons m tail =>
      rw [following, bytesOf_members] at enough read
      rw [List.length_append, List.length_cons] at enough
      rw [following] at ih
      obtain ⟨bs, bytes⟩ := bytesOf_members_cons m tail
      rw [List.append_assoc, List.cons_append, bytesOf_member] at read
      rw [bytes, List.cons_append] at read ih
      rw [membersFrom_next _ _ _ (stringAfterQuote_quoted k _)
        (value_chars x ints.1 first (by omega) (endsNumber_cons (by decide) _))] at read
      obtain ⟨⟨further, behind'⟩, next, same⟩ := exists_of_map_eq_ok read
      obtain ⟨rfl, rfl⟩ := Prod.mk.inj same
      exact List.cons_prefix_cons.mpr ⟨rfl, ih ints.2 others (by rw [← bytes]; omega) next⟩

/-- The members in front are read back, whatever comes behind them. -/
theorem front_of_value {front more : List (String × Json)} {steps levels : Nat}
    {rest behind : List UInt8} {v : Json} (ints : IntegersOnlyMembers front)
    (shallow : depthMembers front < levels + 1)
    (enough : 2 * (bytesOf (chars (.object (front ++ more)))).length ≤ steps)
    (read : value (steps + 1) (levels + 2)
      (bytesOf (chars (.object (front ++ more))) ++ rest) = .ok (v, behind)) :
    ∃ members, v = .object members ∧ front <+: members := by
  rw [length_object] at enough
  rw [bytesOf_object] at read
  cases whole : front ++ more with
  | nil =>
    rw [whole] at read
    have empty := (value_brace steps levels rest).symm.trans read
    obtain ⟨rfl, -⟩ := Prod.mk.inj (Except.ok.inj empty)
    exact ⟨[], rfl, (List.append_eq_nil_iff.mp whole).1 ▸ List.prefix_rfl⟩
  | cons m tail =>
    obtain ⟨bs, bytes⟩ := bytesOf_members_cons m tail
    rw [← whole] at bytes
    have members := @front_of_membersFrom front more steps (levels + 1) rest behind
    rw [bytes, List.cons_append] at read members
    rw [value_members] at read
    obtain ⟨⟨further, behind'⟩, next, same⟩ := exists_of_map_eq_ok read
    obtain ⟨rfl, rfl⟩ := Prod.mk.inj same
    exact ⟨further, rfl, members ints shallow (by rw [← bytes]; omega) next⟩

/-- What is read from the text of an object is an object, and it starts with the members that can
be read back. -/
theorem front_of_parseRaw {front more : List (String × Json)} {v : Json}
    (ints : IntegersOnlyMembers front) (shallow : depthMembers front + 1 < levelLimit)
    (read : parseRaw (object (front ++ more)).text.toUTF8 = .ok v) :
    ∃ members, v = .object members ∧ front <+: members := by
  have bytes : (object (front ++ more)).text.toUTF8.toList =
      bytesOf (chars (.object (front ++ more))) := by
    rw [toList_toUTF8, text, String.toList_ofList]
  have reads := @front_of_value front more
    (2 * (bytesOf (chars (.object (front ++ more)))).length + 1) 126 []
  rw [List.append_nil] at reads
  rw [parseRaw, bytes, document] at read
  split at read
  · next x found =>
    split at found
    · cases found
    · next y rest taken =>
      split at found
      · obtain rfl := Except.ok.inj found
        obtain rfl := Except.ok.inj read
        exact reads ints (Nat.lt_of_succ_lt_succ shallow) (by omega) taken
      · cases found
  · cases read

/-! ## Repeated keys -/

/-- Members with new keys are put last, one after another. -/
theorem foldl_put {members done : List (String × Json)}
    (distinct : (keys (done ++ members)).Nodup) :
    members.foldl (fun acc m => Pairs.put m.1 m.2 acc) done = done ++ members := by
  induction members generalizing done with
  | nil => exact (List.append_nil done).symm
  | cons m rest ih =>
    have absent : m.1 ∉ keys done := by
      rw [keys, List.map_append, List.map_cons] at distinct
      exact fun held => List.disjoint_of_nodup_append distinct held List.mem_cons_self
    rw [List.append_cons] at distinct ⊢
    rw [List.foldl_cons, Pairs.put_of_absent absent, ih distinct]

/-- Members with distinct keys are settled already. -/
theorem distinctMembers_eq_self {members : List (String × Json)} (distinct : (keys members).Nodup) :
    distinctMembers members = members :=
  @foldl_put members [] distinct

mutual

/-- There is nothing to settle where no key is repeated. -/
theorem settled_eq_self : ∀ {v : Json}, v.WellFormed → v.settled = v
  | .null, _ | .bool _, _ | .number _, _ | .string _, _ => rfl
  | .array items, sound => by rw [settled, settledItems_eq_self sound]
  | .object members, sound => by
    rw [settled, settledMembers_eq_self sound.2, distinctMembers_eq_self sound.1]

theorem settledItems_eq_self : ∀ {items : List Json}, WellFormedItems items →
    settledItems items = items
  | [], _ => rfl
  | x :: rest, sound => by rw [settledItems, settled_eq_self sound.1, settledItems_eq_self sound.2]

theorem settledMembers_eq_self : ∀ {members : List (String × Json)}, WellFormedMembers members →
    settledMembers members = members
  | [], _ => rfl
  | (_, x) :: rest, sound => by
    rw [settledMembers, settled_eq_self sound.1, settledMembers_eq_self sound.2]

end

/-- The text of a document without repeated keys is read as that document. -/
theorem parse_text {v : Json} (sound : v.WellFormed) (ints : v.IntegersOnly)
    (shallow : v.depth < levelLimit) : parse v.text.toUTF8 = .ok v := by
  rw [parse, parseRaw_text ints shallow, Except.map, settled_eq_self sound]

end EndpointTree.Json
