import EndpointTree.Proofs.Faults
import EndpointTree.Proofs.Token.RoundTrip
import Mathlib.Data.List.TakeWhile

/-!
# What an accepted token is made of

A token is accepted exactly if it is made of three texts with one dot between each, of which the
last is the signature that the secret gives the first two, the first names the one algorithm, and
the second spells out claims that are in time. Every text but the signature counts as it is
written, so there is no second way to write any of the three; and the claims are what the second
of them says, whoever signed it and whenever it is read.

* `Claims.SpelledBy` says what members have to be to spell out claims, and
  `Claims.ofMembers_eq_some_iff` that only those are read as them.
* `Token.Genuine` is what a token has to be made of, `Claims.InTime` what its claims have to
  satisfy when it is read, and `Token.verify_eq_ok_iff` that nothing else is asked for.
* `Token.accepted_tokens_are_genuine` puts it together with what a change of the header or of
  the signature comes to.
-/

namespace EndpointTree

namespace Claims

variable {key : String} {members : List (String × Json)} {c : Claims}

/-! ## Members under a key -/

/-- What stands under a key that is not repeated, if anything does. -/
inductive Occurs (key : String) (members : List (String × Json)) : Option Json → Prop
  | never : (∀ m ∈ members, m.1 ≠ key) → Occurs key members none
  | once {value : Json} :
    members.filter (fun m => m.1 = key) = [(key, value)] → Occurs key members (some value)

/-- A single look-up succeeds just where a key occurs once at most. -/
theorem single_eq_some_iff {value? : Option Json} :
    single key members = some value? ↔ Occurs key members value? := by
  rw [single]
  constructor
  · intro found
    split at found
    · next none =>
      cases found
      exact .never fun m member same =>
        List.filter_eq_nil_iff.mp none m member (decide_eq_true same)
    · next name value only =>
      cases found
      have member : (name, value) ∈ members.filter fun m => m.1 = key :=
        only ▸ List.mem_singleton_self _
      obtain rfl : name = key := of_decide_eq_true (List.mem_filter.mp member).2
      exact .once only
    · cases found
  · intro occurs
    cases occurs with
    | never absent => rw [filter_key_eq_nil absent]
    | once only => rw [only]

theorem Occurs.unique {a? b? : Option Json} (first : Occurs key members a?)
    (second : Occurs key members b?) : a? = b? :=
  Option.some.inj ((single_eq_some_iff.mpr first).symm.trans (single_eq_some_iff.mpr second))

/-! ## Claims that members spell out -/

/-- A claim that may be left out: it is written as its value, or, where there is none, either not
at all or as `null`. -/
def SpellsOption {α : Type} (key : String) (members : List (String × Json)) (write : α → Json)
    (a? : Option α) : Prop :=
  Occurs key members (a?.map write) ∨ a? = none ∧ Occurs key members (some .null)

/-- Members spell out claims: each known claim is well typed and not repeated, and all else is
kept as it stands, settled like any document. -/
structure SpelledBy (members : List (String × Json)) (c : Claims) : Prop where
  subject : SpellsOption "sub" members .string c.subject
  roles : Occurs "roles" members (some (Json.strings c.roles)) ∨
    c.roles = [] ∧ Occurs "roles" members none
  expiry : SpellsOption "exp" members timeJson c.expiry
  issued : SpellsOption "iat" members timeJson c.issued
  extra : Json.object c.extra =
    (Json.object (members.filter fun m => m.1 ∉ knownKeys)).settled

/-- A claim is read where it is absent, or occurs once and can be read. -/
theorem readClaim_eq_some_iff {α : Type} {absent a : α} {read : Json → Option α} :
    readClaim key absent read members = some a ↔
      Occurs key members none ∧ a = absent ∨
        ∃ value, Occurs key members (some value) ∧ read value = some a := by
  simp only [← single_eq_some_iff]
  rw [readClaim]
  cases single key members with
  | none => simp
  | some value? => cases value? <;> simp [eq_comm]

/-- An optional claim is read where it is absent, `null`, or written as its value. -/
theorem readClaim_eq_some_iff_spellsOption {α : Type} {a? : Option α} {write : α → Json}
    {read : Json → Option (Option α)}
    (reads : ∀ value a?, read value = some a? ↔
      value = .null ∧ a? = none ∨ ∃ a, value = write a ∧ a? = some a) :
    readClaim key none read members = some a? ↔ SpellsOption key members write a? := by
  simp only [readClaim_eq_some_iff, reads]
  constructor
  · rintro (⟨never, rfl⟩ | ⟨value, once, ⟨rfl, rfl⟩ | ⟨a, rfl, rfl⟩⟩)
    · exact .inl never
    · exact .inr ⟨rfl, once⟩
    · exact .inl once
  · rintro (occurs | ⟨rfl, once⟩)
    · cases a? with
      | none => exact .inl ⟨occurs, rfl⟩
      | some a => exact .inr ⟨write a, occurs, .inr ⟨a, rfl, rfl⟩⟩
    · exact .inr ⟨.null, once, .inl ⟨rfl, rfl⟩⟩

theorem readSubject_eq_some_iff (value : Json) (subject : Option String) :
    readSubject value = some subject ↔
      value = .null ∧ subject = none ∨ ∃ s, value = .string s ∧ subject = some s := by
  cases value <;> simp [readSubject, eq_comm]

theorem readTime_eq_some_iff (value : Json) (time : Option Int64) :
    readTime value = some time ↔
      value = .null ∧ time = none ∨ ∃ t, value = timeJson t ∧ time = some t := by
  constructor
  · intro read
    cases value with
    | null => exact .inl ⟨rfl, (Option.some.inj read).symm⟩
    | number n =>
      cases n with
      | integer i inRange =>
        rw [readTime] at read
        split at read
        · next fits =>
          have kept : (Int64.ofInt i).toInt = i := Int64.toInt_ofInt_of_le inRange.1 fits
          refine .inr ⟨.ofInt i, ?_, (Option.some.inj read).symm⟩
          rw [timeJson, kept, Number.ofInt, dif_pos inRange]
        · cases read
      | real => cases read
    | _ => cases read
  · rintro (⟨rfl, rfl⟩ | ⟨t, rfl, rfl⟩)
    · rfl
    · exact readTime_timeJson t

theorem readRoles_eq_some_iff {value : Json} {roles : List String} :
    readRoles value = some roles ↔ value = Json.strings roles := by
  constructor
  · intro read
    cases value with
    | array items =>
      rw [readRoles] at read
      induction items generalizing roles with
      | nil =>
        cases read
        rfl
      | cons item rest ih =>
        rw [List.mapM_cons] at read
        obtain ⟨role, text, read⟩ := Option.bind_eq_some_iff.mp read
        obtain ⟨others, further, same⟩ := Option.bind_eq_some_iff.mp read
        cases same
        cases item <;> cases text
        rw [Json.strings, List.map_cons, Json.array.inj (ih further)]
    | _ => cases read
  · rintro rfl
    exact readRoles_strings roles

/-- Claims are read from the members that spell them out, and from no others. -/
theorem ofMembers_eq_some_iff : ofMembers members = some c ↔ c.SpelledBy members := by
  have further : members.filter (fun m => !knownKeys.contains m.1) =
      members.filter fun m => m.1 ∉ knownKeys := by
    refine List.filter_congr fun m _ => ?_
    rw [List.contains_eq_mem, decide_not]
  have subject := @readClaim_eq_some_iff_spellsOption "sub" members _ c.subject _ _
    readSubject_eq_some_iff
  have expiry := @readClaim_eq_some_iff_spellsOption "exp" members _ c.expiry _ _
    readTime_eq_some_iff
  have issued := @readClaim_eq_some_iff_spellsOption "iat" members _ c.issued _ _
    readTime_eq_some_iff
  have roles : readClaim "roles" [] readRoles members = some c.roles ↔
      (Occurs "roles" members (some (Json.strings c.roles)) ∨
        c.roles = [] ∧ Occurs "roles" members none) := by
    rw [readClaim_eq_some_iff]
    simp only [readRoles_eq_some_iff, exists_eq_right]
    rw [or_comm, and_comm]
  constructor
  · intro read
    rw [ofMembers, further] at read
    obtain ⟨sub, readSub, read⟩ := Option.bind_eq_some_iff.mp read
    obtain ⟨owned, readRoles, read⟩ := Option.bind_eq_some_iff.mp read
    obtain ⟨exp, readExp, read⟩ := Option.bind_eq_some_iff.mp read
    obtain ⟨iat, readIat, read⟩ := Option.bind_eq_some_iff.mp read
    cases read
    exact ⟨subject.mp readSub, roles.mp readRoles, expiry.mp readExp, issued.mp readIat, rfl⟩
  · intro spelled
    rw [ofMembers, further, subject.mpr spelled.subject, roles.mpr spelled.roles,
      expiry.mpr spelled.expiry, issued.mpr spelled.issued]
    have extra := Json.object.inj spelled.extra
    simp only [Option.bind_eq_bind, Option.bind_some, ← extra]
    rfl

/-- Claims are in time: they have not expired for longer than the leeway, unless their expiry is
negative. -/
def InTime (now : Int) (c : Claims) : Prop :=
  ∀ t ∈ c.expiry, 0 ≤ t.toInt → now - Token.leeway ≤ t.toInt

end Claims

namespace Token

/-! ## The parts of a token -/

/-- What stands in front of the first dot, and what stands behind it. -/
theorem append_dot_inj {a a' b b' : List Char} (dotless : '.' ∉ a) (dotless' : '.' ∉ a')
    (same : a ++ '.' :: b = a' ++ '.' :: b') : a = a' ∧ b = b' := by
  induction a generalizing a' with
  | nil =>
    cases a' with
    | nil => exact ⟨rfl, (List.cons.inj same).2⟩
    | cons c rest => exact absurd ((List.cons.inj same).1 ▸ List.mem_cons_self) dotless'
  | cons c rest ih =>
    cases a' with
    | nil => exact absurd ((List.cons.inj same).1 ▸ List.mem_cons_self) dotless
    | cons c' rest' =>
      obtain ⟨rfl, further⟩ := List.cons.inj same
      obtain ⟨rfl, behind⟩ := ih (fun held => dotless (List.mem_cons_of_mem _ held))
        (fun held => dotless' (List.mem_cons_of_mem _ held)) further
      exact ⟨rfl, behind⟩

/-- A text is cut at its last dot. -/
theorem cutLast_eq_some_iff {s front tail : List Char} :
    cutLast s = some (front, tail) ↔ s = front ++ '.' :: tail ∧ '.' ∉ tail := by
  constructor
  · intro cut
    rw [cutLast] at cut
    split at cut
    · cases cut
    · next c behind dropped =>
      obtain ⟨rfl, rfl⟩ := Prod.mk.inj (Option.some.inj cut)
      have dot : c = '.' := by
        have stops := List.head?_dropWhile_not (fun c => decide (c ≠ '.')) s.reverse
        rw [dropped] at stops
        simpa using stops
      have whole := List.takeWhile_append_dropWhile (p := fun c => decide (c ≠ '.'))
        (l := s.reverse)
      rw [dropped, dot] at whole
      refine ⟨?_, fun held => ?_⟩
      · have turned := congrArg List.reverse whole.symm
        rwa [List.reverse_reverse, List.reverse_append, List.reverse_cons, List.append_assoc,
          List.singleton_append] at turned
      · have other := List.mem_takeWhile_imp (List.mem_reverse.mp held)
        exact of_decide_eq_true other rfl
  · rintro ⟨rfl, dotless⟩
    exact cutLast_append front dotless

/-- A part of a token is read where it is the text of readable bytes. -/
theorem readPart_eq_ok_iff {α : Type} {read : ByteArray → Option α} {part : List Char}
    {value : α} :
    readPart read part = .ok value ↔
      ∃ bytes : List UInt8, part = Text.Base64Url.encode bytes ∧
        read ⟨bytes.toArray⟩ = some value := by
  simp only [← Text.Base64Url.decode?_eq_some_iff]
  rw [readPart]
  cases Text.Base64Url.decode? part with
  | none => simp
  | some bytes =>
    simp only [Option.some.injEq, exists_eq_left']
    cases read ⟨bytes.toArray⟩ <;> simp

/-- A text is the header of a token, with fields of their types, and names an algorithm, either
as a text or as the one key of an object that maps it to `null`. -/
def Names (head : List Char) (algorithm : String) : Prop :=
  ∃ (bytes : List UInt8) (document : Json) (members : List (String × Json)) (value : Json),
    head = Text.Base64Url.encode bytes ∧
      Json.parseRecord? headerFields ⟨bytes.toArray⟩ = some document ∧
      headerMembers? document = some members ∧ hasFields members = true ∧
      Claims.Occurs "alg" members (some value) ∧
      (value = .string algorithm ∨ value = .object [(algorithm, .null)])

/-- A text is the payload of a token and holds an object, whose members may repeat keys. -/
def Holds (payload : List Char) (members : List (String × Json)) : Prop :=
  ∃ bytes : List UInt8, payload = Text.Base64Url.encode bytes ∧
    Json.parseRaw ⟨bytes.toArray⟩ = .ok (.object members)

theorem fixedName?_eq_some_iff {value : Json} {name : String} :
    fixedName? value = some name ↔ value = .string name ∨ value = .object [(name, .null)] := by
  constructor
  · intro named
    unfold fixedName? at named
    split at named
    · cases named
      exact .inl rfl
    · cases named
      exact .inr rfl
    · cases named
  · rintro (rfl | rfl) <;> rfl

/-- A header names an algorithm once, and a known one, among fields that are well typed. -/
theorem headerAlgorithm?_eq_some_iff {bytes : ByteArray} {algorithm : String} :
    headerAlgorithm? bytes = some algorithm ↔
      ∃ document members value, Json.parseRecord? headerFields bytes = some document ∧
        headerMembers? document = some members ∧
        Claims.Occurs "alg" members (some value) ∧ fixedName? value = some algorithm ∧
        algorithm ∈ knownAlgorithms ∧ hasFields members = true := by
  simp only [← Claims.single_eq_some_iff, headerAlgorithm?, Option.bind_eq_bind,
    Option.bind_eq_some_iff]
  constructor
  · rintro ⟨document, read, members, listed, found?, found, named, ⟨value, rfl, name⟩, held⟩
    split at held
    · next known =>
      cases held
      rw [Bool.and_eq_true, List.contains_iff_mem] at known
      exact ⟨document, members, value, read, listed, found, name, known⟩
    · cases held
  · rintro ⟨document, members, value, read, listed, found, name, known, fields⟩
    refine ⟨document, read, members, listed, _, found, algorithm, ⟨value, rfl, name⟩, ?_⟩
    rw [if_pos (by rw [Bool.and_eq_true, List.contains_iff_mem]; exact ⟨known, fields⟩)]

theorem readPart_header_iff {head : List Char} :
    readPart headerAlgorithm? head = .ok "HS256" ↔ Names head "HS256" := by
  have known : "HS256" ∈ knownAlgorithms := by decide
  simp only [readPart_eq_ok_iff, headerAlgorithm?_eq_some_iff, fixedName?_eq_some_iff]
  constructor
  · rintro ⟨bytes, rfl, document, members, value, read, listed, found, name, -, fields⟩
    exact ⟨bytes, document, members, value, rfl, read, listed, fields, found, name⟩
  · rintro ⟨bytes, document, members, value, rfl, read, listed, fields, found, name⟩
    exact ⟨bytes, rfl, document, members, value, read, listed, found, name, known, fields⟩

theorem readPart_payload_iff {payload : List Char} {members : List (String × Json)} :
    readPart payloadMembers? payload = .ok members ↔ Holds payload members := by
  simp only [readPart_eq_ok_iff, Holds]
  refine exists_congr fun bytes => and_congr_right fun _ => ?_
  rw [payloadMembers?]
  cases Json.parseRaw ⟨bytes.toArray⟩ with
  | error fault => simp [Except.toOption]
  | ok document => cases document <;> simp [Except.toOption, Json.members?]

/-- What is encoded has one encoding, so a header names one algorithm. -/
theorem Names.unique {head : List Char} {a b : String} (first : Names head a)
    (second : Names head b) : a = b := by
  obtain ⟨bytes, document, members, value, rfl, read, listed, -, found, name⟩ := first
  obtain ⟨bytes', document', members', value', same, read', listed', -, found', name'⟩ := second
  obtain rfl := Text.Base64Url.encode_injective same
  obtain rfl := Option.some.inj (read.symm.trans read')
  obtain rfl := Option.some.inj (listed.symm.trans listed')
  obtain rfl := Option.some.inj (found.unique found')
  exact Option.some.inj ((fixedName?_eq_some_iff.mpr name).symm.trans
    (fixedName?_eq_some_iff.mpr name'))

/-- A payload holds one list of members. -/
theorem Holds.unique {payload : List Char} {members members' : List (String × Json)}
    (first : Holds payload members) (second : Holds payload members') : members = members' :=
  Except.ok.inj ((readPart_payload_iff.mpr first).symm.trans (readPart_payload_iff.mpr second))

/-- A header that names an algorithm has no dot inside. -/
theorem Names.dotless {head : List Char} {algorithm : String} (names : Names head algorithm) :
    '.' ∉ head := by
  obtain ⟨bytes, -, -, -, rfl, -⟩ := names
  exact Text.Base64Url.dot_notMem_encode bytes

theorem Holds.dotless {payload : List Char} {members : List (String × Json)}
    (holds : Holds payload members) : '.' ∉ payload := by
  obtain ⟨bytes, rfl, -⟩ := holds
  exact Text.Base64Url.dot_notMem_encode bytes

/-! ## Accepted tokens -/

/-- The members that could limit where and when a token counts do not: none of them is repeated,
the time before which it does not count can be read as a time, and who is meant to receive it is
told neither by a text nor by a list of texts. -/
structure Unrestricted (members : List (String × Json)) : Prop where
  notBefore : ∃ value?, Claims.Occurs "nbf" members value? ∧
    ∀ value ∈ value?, isTimeLike value = true
  issuer : ∃ value?, Claims.Occurs "iss" members value?
  audience : ∃ value?, Claims.Occurs "aud" members value? ∧
    ∀ value ∈ value?, (∀ text, value ≠ .string text) ∧ ∀ texts, value ≠ Json.strings texts

theorem isAudience_iff {value : Json} :
    isAudience value = true ↔
      (∃ text, value = .string text) ∨ ∃ texts, value = Json.strings texts := by
  have listed (items : List Json) :
      items.all (·.string?.isSome) = true ↔ ∃ texts : List String, items = texts.map .string := by
    induction items with
    | nil => exact ⟨fun _ => ⟨[], rfl⟩, fun _ => rfl⟩
    | cons item rest ih =>
      rw [List.all_cons, Bool.and_eq_true, ih]
      constructor
      · rintro ⟨isText, texts, rfl⟩
        cases item <;> cases isText
        exact ⟨_ :: texts, rfl⟩
      · rintro ⟨texts, same⟩
        cases texts with
        | nil => cases same
        | cons text texts =>
          cases same
          exact ⟨rfl, texts, rfl⟩
  cases value <;> simp [isAudience, Json.strings, listed]

theorem isPast_eq_false_iff {now : Int} {c : Claims} :
    (c.expiry.map fun t => isPast now t.toInt).getD false = false ↔ c.InTime now := by
  rw [Claims.InTime]
  cases c.expiry with
  | none => simp
  | some t =>
    simp only [Option.map_some, Option.getD_some, isPast, Bool.and_eq_false_iff,
      decide_eq_false_iff_not, Option.mem_some_iff, forall_eq']
    omega

/-- Claims are accepted in time and without a restriction to an audience. -/
theorem checkClaims_eq_ok_iff {now : Int} {c claims : Claims} {members : List (String × Json)} :
    checkClaims now c members = .ok claims ↔ claims = c ∧ c.InTime now ∧ Unrestricted members := by
  have parts : Unrestricted members ↔ ∃ notBefore issuer audience,
      Claims.single "nbf" members = some notBefore ∧ Claims.single "iss" members = some issuer ∧
      Claims.single "aud" members = some audience ∧
      (notBefore.map isTimeLike).getD true = true ∧
      (audience.map isAudience).getD false = false := by
    simp only [Claims.single_eq_some_iff]
    constructor
    · rintro ⟨⟨notBefore, occursN, timely⟩, ⟨issuer, occursI⟩, ⟨audience, occursA, nobody⟩⟩
      refine ⟨notBefore, issuer, audience, occursN, occursI, occursA, ?_, ?_⟩
      · cases notBefore with
        | none => rfl
        | some value => exact timely value rfl
      · cases audience with
        | none => rfl
        | some value =>
          obtain ⟨noText, noTexts⟩ := nobody value rfl
          refine Bool.eq_false_iff.mpr (isAudience_iff.not.mpr ?_)
          rintro (⟨text, same⟩ | ⟨texts, same⟩)
          · exact noText text same
          · exact noTexts texts same
    · rintro ⟨notBefore, issuer, audience, occursN, occursI, occursA, timely, nobody⟩
      refine ⟨⟨notBefore, occursN, ?_⟩, ⟨issuer, occursI⟩, ⟨audience, occursA, ?_⟩⟩
      · rintro value ⟨⟩
        exact timely
      · rintro value ⟨⟩
        have other := isAudience_iff.not.mp (Bool.eq_false_iff.mp nobody)
        exact ⟨fun text same => other (.inl ⟨text, same⟩),
          fun texts same => other (.inr ⟨texts, same⟩)⟩
  rw [parts, ← isPast_eq_false_iff, checkClaims]
  constructor
  · intro checked
    split at checked
    · next notBefore issuer audience foundN foundI foundA =>
      split at checked
      · cases checked
      · next timely =>
        split at checked
        · cases checked
        · next fresh =>
          split at checked
          · cases checked
          · next nobody =>
            cases checked
            exact ⟨rfl, Bool.eq_false_iff.mpr fresh, notBefore, issuer, audience, foundN, foundI,
              foundA, by simpa using timely, Bool.eq_false_iff.mpr nobody⟩
    · cases checked
  · rintro ⟨rfl, fresh, notBefore, issuer, audience, foundN, foundI, foundA, timely, nobody⟩
    rw [foundN, foundI, foundA]
    simp [timely, fresh, nobody]

/-- What a token has to be made of to be accepted with a secret while its claims are in time:
three texts, of which the first names the one algorithm, the second spells out the claims, and
the third is the signature of the first two. -/
structure Genuine (mac : Mac) (secret token : String) (claims : Claims)
    (head payload sign : List Char) (members : List (String × Json)) : Prop where
  filled : secret ≠ ""
  parts : token.toList = head ++ '.' :: payload ++ '.' :: sign
  dotless : '.' ∉ head ∧ '.' ∉ payload ∧ '.' ∉ sign
  signed : sign = Text.Base64Url.encode
    (mac (utf8 secret) (utf8 (String.ofList (head ++ '.' :: payload))))
  header : Names head "HS256"
  document : Holds payload members
  spelled : claims.SpelledBy members
  unrestricted : Unrestricted members

/-- A token is accepted just where it is genuine and in time. -/
theorem verify_eq_ok_iff {mac : Mac} {secret : String} {now : Int} {token : String}
    {claims : Claims} :
    verify mac secret now token = .ok claims ↔
      (∃ head payload sign members,
        Genuine mac secret token claims head payload sign members) ∧ claims.InTime now := by
  constructor
  · intro accepted
    rw [verify] at accepted
    split at accepted
    · cases accepted
    · next filled =>
      split at accepted
      · cases accepted
      · next message sign cut =>
        split at accepted
        · cases accepted
        · next head payload cut' =>
          obtain ⟨whole, signDotless⟩ := cutLast_eq_some_iff.mp cut
          obtain ⟨rfl, payloadDotless⟩ := cutLast_eq_some_iff.mp cut'
          obtain ⟨algorithm, named, accepted⟩ := exists_of_bind_eq_ok accepted
          split at accepted
          · cases accepted
          · next same =>
            obtain rfl := not_not.mp same
            split at accepted
            · cases accepted
            · next signed =>
              obtain ⟨members, read, accepted⟩ := exists_of_bind_eq_ok accepted
              have header := readPart_header_iff.mp named
              split at accepted
              · next c spelled =>
                obtain ⟨rfl, fresh, unrestricted⟩ := checkClaims_eq_ok_iff.mp accepted
                exact ⟨⟨head, payload, sign, members,
                  { filled
                    parts := whole
                    dotless := ⟨header.dotless, payloadDotless, signDotless⟩
                    signed := not_not.mp signed
                    header
                    document := readPart_payload_iff.mp read
                    spelled := Claims.ofMembers_eq_some_iff.mp spelled
                    unrestricted }⟩, fresh⟩
              · cases accepted
  · rintro ⟨⟨head, payload, sign, members, genuine⟩, fresh⟩
    have cut := cutLast_eq_some_iff.mpr ⟨genuine.parts, genuine.dotless.2.2⟩
    have cut' := cutLast_append head genuine.dotless.2.1
    have signed : sign = signature mac secret (head ++ '.' :: payload) := genuine.signed
    have checked : checkClaims now claims members = .ok claims :=
      checkClaims_eq_ok_iff.mpr ⟨rfl, fresh, genuine.unrestricted⟩
    rw [verify, if_neg genuine.filled, cut]
    dsimp only
    rw [cut']
    dsimp only
    rw [readPart_header_iff.mpr genuine.header, readPart_payload_iff.mpr genuine.document]
    simp only [bind, Except.bind, ne_eq, not_true_eq_false, if_false, ← signed,
      Claims.ofMembers_eq_some_iff.mpr genuine.spelled, checked]

/-- The parts of a token that is issued. -/
theorem toList_of_issued {mac : Mac} {secret token : String} {c : Claims}
    (issued : issue mac secret c = .ok token) :
    let message := encodeText header.text ++ '.' :: encodeText c.toJson.text
    token.toList = message ++ '.' :: signature mac secret message := by
  rw [issue] at issued
  split at issued
  · cases issued
  · cases issued
    exact String.toList_ofList

/-- A token is accepted exactly if it is made of what makes it genuine and its claims are in time.
A token whose header names another algorithm is refused whatever follows, a genuine one is refused
as soon as its signature is changed, however and whenever; and what its claims are is a matter of
its payload alone: not of the digest, the secret, the header, the signature or the time. -/
theorem accepted_tokens_are_genuine (mac : Mac) (secret : String) (now : Int) :
    (∀ token claims, verify mac secret now token = .ok claims ↔
      (∃ head payload sign members,
        Genuine mac secret token claims head payload sign members) ∧ claims.InTime now) ∧
    (∀ head algorithm, Names head algorithm → algorithm ≠ "HS256" → ∀ rest, ∃ fault,
      verify mac secret now (String.ofList (head ++ '.' :: rest)) = .error fault) ∧
    ∀ token claims head payload sign members,
      Genuine mac secret token claims head payload sign members →
        (∀ sign', sign' ≠ sign → ∃ fault, verify mac secret now
          (String.ofList (head ++ '.' :: payload ++ '.' :: sign')) = .error fault) ∧
        ∀ mac' secret' token' claims' head' sign' members',
          Genuine mac' secret' token' claims' head' payload sign' members' → claims' = claims := by
  refine ⟨fun token claims => verify_eq_ok_iff, ?foreign, ?genuine⟩
  case foreign =>
    intro head algorithm names other rest
    refine exists_error_of_forall_ne fun claims accepted => other ?_
    obtain ⟨⟨head', payload', sign', members, genuine⟩, -⟩ := verify_eq_ok_iff.mp accepted
    have parts := genuine.parts
    rw [String.toList_ofList, List.append_assoc] at parts
    obtain ⟨rfl, -⟩ := append_dot_inj names.dotless genuine.dotless.1 parts
    exact names.unique genuine.header
  case genuine =>
    intro token claims head payload sign members genuine
    refine ⟨fun sign' other => ?_, fun mac' secret' token' claims' head' sign' members' same => ?_⟩
    · refine exists_error_of_forall_ne fun claims' accepted => other ?_
      obtain ⟨⟨head', payload', sign'', members', genuine'⟩, -⟩ := verify_eq_ok_iff.mp accepted
      have parts := genuine'.parts
      rw [String.toList_ofList, List.append_assoc, List.append_assoc] at parts
      obtain ⟨rfl, behind⟩ := append_dot_inj genuine.dotless.1 genuine'.dotless.1 parts
      obtain ⟨rfl, rfl⟩ := append_dot_inj genuine.dotless.2.1 genuine'.dotless.2.1 behind
      rw [genuine'.signed, ← genuine.signed]
    · obtain rfl := same.document.unique genuine.document
      exact Option.some.inj ((Claims.ofMembers_eq_some_iff.mpr same.spelled).symm.trans
        (Claims.ofMembers_eq_some_iff.mpr genuine.spelled))

/-- Claims with an audience that is neither a text nor a list of texts. -/
def addressed : Claims where
  extra := [("aud", .number (.ofInt 5))]

/-- A token that tells its audience by a number is accepted. -/
theorem stray_audience_is_accepted :
    ∃ token head payload sign members,
      issue Digest.hmacSha256 "s3cret" addressed = .ok token ∧
      token.toList = head ++ '.' :: payload ++ '.' :: sign ∧ '.' ∉ payload ∧ '.' ∉ sign ∧
      Holds payload members ∧ "aud" ∈ Json.keys members ∧
      verify Digest.hmacSha256 "s3cret" 0 token = .ok addressed := by
  have integers : addressed.toJson.IntegersOnly := ⟨trivial, rfl, trivial⟩
  have shallow : addressed.toJson.depth < Json.levelLimit := by decide
  have filled : "s3cret" ≠ "" := by decide
  obtain ⟨token, issued⟩ := exists_issued Digest.hmacSha256 filled addressed
  have read : Claims.ofMembers addressed.toMembers = some addressed := rfl
  have verified := verify_issued issued integers shallow read 0
  have payload : Holds (encodeText addressed.toJson.text) addressed.toMembers :=
    readPart_payload_iff.mp (readPart_encodeText (payloadMembers?_toJson integers shallow))
  exact ⟨token, _, _, _, _, issued, toList_of_issued issued, payload.dotless,
    Text.Base64Url.dot_notMem_encode _, payload, by decide, verified⟩

end Token

end EndpointTree
