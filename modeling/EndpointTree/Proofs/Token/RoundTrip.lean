import EndpointTree.Proofs.Json.RoundTrip
import EndpointTree.Proofs.Text.Base64Url
import EndpointTree.Token.Signed

/-!
# Tokens there and back

A token carries its claims as the text of a document, and nothing is lost on the way: base64
gives back the bytes, the bytes the text, the text the members, and the members the claims. The
header of an issued token is always the same, and the two signatures are made of the same text,
whatever makes them. What remains to be asked of claims is that their document can be read back,
that no further claim has the name of one that is read for itself, and that they are not expired.

A claim `nbf` is no time limit here, and still it is read as a time: a filled list or object
under this name makes the token unreadable.

* `Claims.Portable` is what claims have to satisfy.
* `Claims.ofMembers_toMembers`: claims are read back from their own members.
* `Token.issued_tokens_are_accepted`: what is issued is accepted, with the same claims.
-/

namespace EndpointTree

namespace Claims

variable {c : Claims}

/-- The keys that no further claim may have. -/
def reservedKeys : List String := knownKeys ++ ["aud"]

/-- Claims that can be read back from a token: the further ones repeat no key and use no reserved
one, hold no doubles and nest no deeper than the reader goes, and what is called `nbf` can stand
where a time is expected. -/
structure Portable (c : Claims) : Prop where
  distinct : Json.WellFormed (.object c.extra)
  free : ∀ m ∈ c.extra, m.1 ∉ reservedKeys
  integers : Json.IntegersOnly (.object c.extra)
  shallow : Json.depth (.object c.extra) < Json.levelLimit
  notBefore : ∀ value, c.extra.lookup "nbf" = some value → Token.isTimeLike value = true

/-! ## Members of claims -/

/-- The members of the claims that have a field of their own. -/
def ownMembers (c : Claims) : List (String × Json) :=
  (c.subject.map fun s => ("sub", Json.string s)).toList ++
    ("roles", Json.strings c.roles) ::
    (c.expiry.map fun t => ("exp", timeJson t)).toList ++
    (c.issued.map fun t => ("iat", timeJson t)).toList

theorem toMembers_eq (c : Claims) : c.toMembers = c.ownMembers ++ c.extra := rfl

/-- The known claims are written where they are present, the roles always. -/
theorem mem_ownMembers {m : String × Json} : m ∈ c.ownMembers ↔
    (∃ s ∈ c.subject, m = ("sub", .string s)) ∨ m = ("roles", Json.strings c.roles) ∨
      (∃ t ∈ c.expiry, m = ("exp", timeJson t)) ∨ ∃ t ∈ c.issued, m = ("iat", timeJson t) := by
  simp only [ownMembers, List.mem_append, List.mem_cons, Option.mem_toList, Option.map_eq_some_iff,
    Option.mem_def, eq_comm (b := m), or_assoc]

theorem keys_ownMembers (c : Claims) : ∀ m ∈ c.ownMembers, m.1 ∈ knownKeys := by
  intro m member
  rcases mem_ownMembers.mp member with ⟨_, _, rfl⟩ | rfl | ⟨_, _, rfl⟩ | ⟨_, _, rfl⟩ <;>
    simp [knownKeys]

/-- A known claim is there at most once, and no other is. -/
theorem single_ownMembers (c : Claims) :
    single "sub" c.ownMembers = some (c.subject.map .string) ∧
      single "roles" c.ownMembers = some (some (Json.strings c.roles)) ∧
      single "exp" c.ownMembers = some (c.expiry.map timeJson) ∧
      single "iat" c.ownMembers = some (c.issued.map timeJson) := by
  obtain ⟨subject, roles, expiry, issued, extra⟩ := c
  cases subject <;> cases expiry <;> cases issued <;> exact ⟨rfl, rfl, rfl, rfl⟩

theorem filter_key_eq_nil {key : String} {members : List (String × Json)}
    (absent : ∀ m ∈ members, m.1 ≠ key) : members.filter (fun m => m.1 = key) = [] :=
  List.filter_eq_nil_iff.mpr fun m member held => absent m member (of_decide_eq_true held)

/-- Further members under other keys do not hide a claim. -/
theorem single_append_of_notMem {key : String} {members further : List (String × Json)}
    (absent : ∀ m ∈ further, m.1 ≠ key) :
    single key (members ++ further) = single key members := by
  rw [single, List.filter_append, filter_key_eq_nil absent, List.append_nil, single]

theorem single_append_of_notMem_left {key : String} {members further : List (String × Json)}
    (absent : ∀ m ∈ members, m.1 ≠ key) :
    single key (members ++ further) = single key further := by
  rw [single, List.filter_append, filter_key_eq_nil absent, List.nil_append, single]

/-- Where keys are distinct, a single look-up is a look-up. -/
theorem single_eq_lookup {members : List (String × Json)} (distinct : (Json.keys members).Nodup)
    (key : String) : single key members = some (members.lookup key) := by
  induction members with
  | nil => rfl
  | cons m rest ih =>
    obtain ⟨k, value⟩ := m
    obtain ⟨absent, distinct⟩ := List.nodup_cons.mp distinct
    by_cases here : k = key
    · subst here
      have others : ∀ m ∈ rest, m.1 ≠ k := fun m member same =>
        absent (List.mem_map.mpr ⟨m, member, same⟩)
      have first : single k ([(k, value)] ++ rest) = single k [(k, value)] :=
        single_append_of_notMem others
      rw [List.singleton_append] at first
      rw [first, Dict.lookup_cons_ite, if_pos rfl]
      simp [single]
    · have first : ∀ m ∈ [(k, value)], m.1 ≠ key := List.forall_mem_singleton.mpr here
      rw [← List.singleton_append, single_append_of_notMem_left first, ih distinct,
        List.singleton_append, Dict.lookup_cons_ite, if_neg (Ne.symm here)]

/-- A claim that has a field of its own is read from its own members. -/
theorem Portable.single_known (portable : c.Portable) {key : String} (known : key ∈ knownKeys) :
    single key c.toMembers = single key c.ownMembers :=
  single_append_of_notMem fun m member same =>
    portable.free m member (same ▸ List.mem_append_left _ known)

/-- Any other claim is read from the further ones. -/
theorem Portable.single_further (portable : c.Portable) {key : String} (other : key ∉ knownKeys) :
    single key c.toMembers = some (c.extra.lookup key) := by
  have absent : ∀ m ∈ c.ownMembers, m.1 ≠ key := fun m member same =>
    other (same ▸ keys_ownMembers c m member)
  rw [toMembers_eq, single_append_of_notMem_left absent]
  exact single_eq_lookup portable.distinct.1 key

/-! ## Claims from their members -/

/-- Roles are read back. -/
theorem readRoles_strings (roles : List String) : readRoles (Json.strings roles) = some roles := by
  rw [Json.strings, readRoles]
  induction roles with
  | nil => rfl
  | cons role rest ih => simp [Json.string?, ih]

theorem timeJson_eq (t : Int64) : ∃ inRange, timeJson t = .number (.integer t.toInt inRange) := by
  have low := t.le_toInt
  have high := t.toInt_lt
  have inRange : leastInteger ≤ t.toInt ∧ t.toInt < integerLimit := by
    constructor
    · exact low
    · exact Int.lt_trans high (by decide)
  exact ⟨inRange, by rw [timeJson, Number.ofInt, dif_pos inRange]⟩

/-- Times are read back. -/
theorem readTime_timeJson (t : Int64) : readTime (timeJson t) = some (some t) := by
  obtain ⟨inRange, written⟩ := timeJson_eq t
  have fits : t.toInt < timeLimit := t.toInt_lt
  rw [written, readTime, if_pos fits, Int64.ofInt_toInt]

/-- An optional claim is read back if its value is. -/
theorem readClaim_optional {α : Type} {key : String} {write : α → Json}
    {read : Json → Option (Option α)} {members : List (String × Json)} {a? : Option α}
    (found : single key members = some (a?.map write))
    (reads : ∀ a, read (write a) = some (some a)) :
    readClaim key none read members = some a? := by
  rw [readClaim, found]
  cases a? with
  | none => rfl
  | some a => exact reads a

/-- Claims are read back from their own members. -/
theorem ofMembers_toMembers (portable : c.Portable) : ofMembers c.toMembers = some c := by
  obtain ⟨sub, roles, exp, iat⟩ := single_ownMembers c
  rw [← portable.single_known (by decide)] at sub roles exp iat
  have subject : readClaim "sub" none readSubject c.toMembers = some c.subject :=
    readClaim_optional sub fun _ => rfl
  have expiry := readClaim_optional exp readTime_timeJson
  have issued := readClaim_optional iat readTime_timeJson
  have roles : readClaim "roles" [] readRoles c.toMembers = some c.roles := by
    rw [readClaim, roles]
    exact readRoles_strings c.roles
  have further : c.toMembers.filter (fun m => !knownKeys.contains m.1) = c.extra := by
    have own : c.ownMembers.filter (fun m => !knownKeys.contains m.1) = [] := by
      refine List.filter_eq_nil_iff.mpr fun m member => ?_
      simp [keys_ownMembers c m member]
    have others : c.extra.filter (fun m => !knownKeys.contains m.1) = c.extra := by
      refine List.filter_eq_self.mpr fun m member => ?_
      have free := portable.free m member
      rw [reservedKeys, List.mem_append, not_or] at free
      simp [free.1]
    rw [toMembers_eq, List.filter_append, own, others, List.nil_append]
  have settled : Json.distinctMembers (Json.settledMembers c.extra) = c.extra := by
    rw [Json.settledMembers_eq_self portable.distinct.2,
      Json.distinctMembers_eq_self portable.distinct.1]
  rw [ofMembers, subject, roles, expiry, issued, further]
  simp only [Option.bind_eq_bind, Option.bind_some, settled]
  rfl

/-! ## The document of claims -/

theorem integersOnly_ownMembers (c : Claims) : ∀ m ∈ c.ownMembers, m.2.IntegersOnly := by
  have time (t : Int64) : (timeJson t).IntegersOnly := by
    obtain ⟨inRange, written⟩ := timeJson_eq t
    rw [written]
    rfl
  intro m member
  rcases mem_ownMembers.mp member with ⟨_, _, rfl⟩ | rfl | ⟨t, _, rfl⟩ | ⟨t, _, rfl⟩
  · trivial
  · exact Json.integersOnlyItems_iff.mpr (List.forall_mem_map.mpr fun _ _ => trivial)
  · exact time t
  · exact time t

theorem depth_ownMembers (c : Claims) : ∀ m ∈ c.ownMembers, m.2.depth ≤ 1 := by
  intro m member
  rcases mem_ownMembers.mp member with ⟨_, _, rfl⟩ | rfl | ⟨_, _, rfl⟩ | ⟨_, _, rfl⟩
  · exact Nat.zero_le 1
  · exact Nat.succ_le_succ (Json.depthItems_le_iff.mpr
      (List.forall_mem_map.mpr fun _ _ => Nat.le_refl 0))
  · exact Nat.zero_le 1
  · exact Nat.zero_le 1

/-- Portable claims have whole numbers alone. -/
theorem Portable.integersOnly (portable : c.Portable) : c.toJson.IntegersOnly :=
  Json.integersOnlyMembers_iff.mpr (List.forall_mem_append.mpr
    ⟨integersOnly_ownMembers c, Json.integersOnlyMembers_iff.mp portable.integers⟩)

theorem Portable.depth_lt (portable : c.Portable) : c.toJson.depth < Json.levelLimit := by
  have further : Json.depthMembers c.extra ≤ 126 := Nat.le_of_lt_succ (Nat.lt_of_succ_lt_succ
    portable.shallow)
  have all : Json.depthMembers c.toMembers ≤ 126 := Json.depthMembers_le_iff.mpr
    (List.forall_mem_append.mpr
      ⟨fun m member => Nat.le_trans (depth_ownMembers c m member) (by decide),
        Json.depthMembers_le_iff.mp further⟩)
  exact Nat.lt_succ_of_le (Nat.succ_le_succ all)

end Claims

namespace Token

/-! ## Parts of a token -/

/-- A text without a dot is cut off behind the last one. -/
theorem cutLast_append (front : List Char) {tail : List Char} (noDot : '.' ∉ tail) :
    cutLast (front ++ '.' :: tail) = some (front, tail) := by
  have reversed : (front ++ '.' :: tail).reverse = tail.reverse ++ '.' :: front.reverse := by
    rw [List.reverse_append, List.reverse_cons, List.append_assoc, List.singleton_append]
  have others : ∀ c ∈ tail.reverse, decide (c ≠ '.') = true := by
    intro c member
    refine decide_eq_true fun same => noDot ?_
    rwa [← same, ← List.mem_reverse]
  rw [cutLast, reversed, List.dropWhile_append_of_pos others, List.takeWhile_append_of_pos others]
  simp

/-- What is encoded is read as it was. -/
theorem readPart_encodeText {α : Type} {read : ByteArray → Option α} {s : String} {value : α}
    (reads : read s.toUTF8 = some value) : readPart read (encodeText s) = .ok value := by
  have bytes : (⟨(utf8 s).toArray⟩ : ByteArray) = s.toUTF8 := by
    rw [utf8, Json.toList_toUTF8, String.toUTF8_eq_toByteArray, Json.toByteArray_eq,
      ← List.data_toByteArray]
  rw [readPart, encodeText, Text.Base64Url.decode?_encode]
  dsimp only
  rw [bytes, reads]

theorem headerAlgorithm?_header : headerAlgorithm? header.text.toUTF8 = some "HS256" := by
  decide +kernel

/-- The payload gives back all members in their order. -/
theorem payloadMembers?_toJson {c : Claims} (integers : c.toJson.IntegersOnly)
    (shallow : c.toJson.depth < Json.levelLimit) :
    payloadMembers? c.toJson.text.toUTF8 = some c.toMembers := by
  rw [payloadMembers?, Json.parseRaw_text integers shallow]
  rfl

/-- Portable claims that are not past are accepted. -/
theorem checkClaims_toMembers {c : Claims} (portable : c.Portable) {now : Int}
    (fresh : ∀ t ∈ c.expiry, now - leeway ≤ t.toInt) :
    checkClaims now c c.toMembers = .ok c := by
  have audience : c.extra.lookup "aud" = none := by
    refine Json.lookup_eq_none_iff.mpr fun held => ?_
    obtain ⟨m, member, named⟩ := List.mem_map.mp held
    exact portable.free m member (named ▸ List.mem_append_right _ List.mem_cons_self)
  have time : ((c.extra.lookup "nbf").map isTimeLike).getD true = true := by
    cases found : c.extra.lookup "nbf" with
    | none => rfl
    | some value => exact portable.notBefore value found
  have notPast : (c.expiry.map fun t => isPast now t.toInt).getD false = false := by
    cases expiry : c.expiry with
    | none => rfl
    | some t =>
      have inTime := fresh t expiry
      simp only [Option.map_some, Option.getD_some, isPast, Bool.and_eq_false_iff,
        decide_eq_false_iff_not]
      omega
  rw [checkClaims, portable.single_further (by decide), portable.single_further (by decide),
    portable.single_further (by decide), audience]
  simp [time, notPast]

/-- With a secret every token can be issued. -/
theorem exists_issued (mac : Mac) {secret : String} (filled : secret ≠ "") (c : Claims) :
    ∃ token, issue mac secret c = .ok token :=
  ⟨_, if_neg filled⟩

/-- A token that was issued with the secret passes all checks but those of the claims that limit
where and when it counts. -/
theorem verify_issued {mac : Mac} {secret token : String} {c claims : Claims}
    (issued : issue mac secret c = .ok token) (integers : c.toJson.IntegersOnly)
    (shallow : c.toJson.depth < Json.levelLimit)
    (read : Claims.ofMembers c.toMembers = some claims) (now : Int) :
    verify mac secret now token = checkClaims now claims c.toMembers := by
  have filled : secret ≠ "" := by
    rintro rfl
    cases issued
  rw [issue, if_neg filled] at issued
  cases issued
  have signed (message : List Char) :
      cutLast (message ++ '.' :: signature mac secret message) =
        some (message, signature mac secret message) :=
    cutLast_append message (Text.Base64Url.dot_notMem_encode _)
  have parts : cutLast (encodeText header.text ++ '.' :: encodeText c.toJson.text) =
      some (encodeText header.text, encodeText c.toJson.text) :=
    cutLast_append _ (Text.Base64Url.dot_notMem_encode _)
  have headRead : readPart headerAlgorithm? (encodeText header.text) = .ok "HS256" :=
    readPart_encodeText headerAlgorithm?_header
  have payloadRead : readPart payloadMembers? (encodeText c.toJson.text) = .ok c.toMembers :=
    readPart_encodeText (payloadMembers?_toJson integers shallow)
  rw [verify, if_neg filled, String.toList_ofList, signed]
  dsimp only
  rw [parts]
  dsimp only
  rw [headRead, payloadRead]
  simp only [bind, Except.bind, ne_eq, not_true_eq_false, if_false, read]

/-- What is issued with a secret is accepted with it, whatever digest makes the signatures, until
a minute after the claims expire; and what is read from the token are the same claims. -/
theorem issued_tokens_are_accepted (mac : Mac) {secret : String} (filled : secret ≠ "")
    {c : Claims} (portable : c.Portable) {now : Int}
    (fresh : ∀ t ∈ c.expiry, now - leeway ≤ t.toInt) :
    ∃ token, issue mac secret c = .ok token ∧ verify mac secret now token = .ok c := by
  obtain ⟨token, issued⟩ := exists_issued mac filled c
  refine ⟨token, issued, ?_⟩
  rw [verify_issued issued portable.integersOnly portable.depth_lt
    (Claims.ofMembers_toMembers portable)]
  exact checkClaims_toMembers portable fresh

/-- Claims that expire at the end of the first minute, with a role that is held twice. -/
def passing : Claims where
  subject := some "ann \\ \"zoë\""
  roles := ["writer", "reader", "writer"]
  expiry := some 60
  extra := [("nbf", .number (.ofInt 5)), ("", .array [.object [("deep", .null)], .string "\n"])]

theorem passing_claims_are_accepted_late :
    ∃ token, issue Digest.hmacSha256 "s3cret" passing = .ok token ∧
      verify Digest.hmacSha256 "s3cret" 120 token = .ok passing := by
  have portable : passing.Portable :=
    { distinct := ⟨by decide, trivial, ⟨⟨⟨by decide, trivial, trivial⟩, trivial, trivial⟩, trivial⟩⟩
      free := by decide
      integers := ⟨rfl, ⟨⟨trivial, trivial⟩, trivial, trivial⟩, trivial⟩
      shallow := by decide
      notBefore := fun value found => by
        cases found
        rfl }
  refine issued_tokens_are_accepted Digest.hmacSha256 (by decide) portable fun t expires => ?_
  cases expires
  decide

/-- Claims whose only one is a time limit that is no time. -/
def limited : Claims where
  extra := [("nbf", .array [.number (.ofInt 1)])]

/-- A list under `nbf` makes a token unreadable that is right in every other respect. -/
theorem filled_time_limit_is_unreadable :
    Json.WellFormed (.object limited.extra) ∧
      (∀ m ∈ limited.extra, m.1 ∉ Claims.reservedKeys) ∧
      Json.IntegersOnly (.object limited.extra) ∧
      Json.depth (.object limited.extra) < Json.levelLimit ∧ limited.expiry = none ∧
      ∃ token, issue Digest.hmacSha256 "s3cret" limited = .ok token ∧
        verify Digest.hmacSha256 "s3cret" 0 token = .error .notReadable := by
  obtain ⟨token, issued⟩ := exists_issued Digest.hmacSha256 (show "s3cret" ≠ "" by decide) limited
  refine ⟨⟨by decide, ⟨trivial, trivial⟩, trivial⟩, by decide, ⟨⟨rfl, trivial⟩, trivial⟩, by decide,
    rfl, token, issued, ?_⟩
  have read : Claims.ofMembers limited.toMembers = some limited := rfl
  rw [verify_issued issued ⟨trivial, ⟨rfl, trivial⟩, trivial⟩ (by decide) read]
  rfl

end Token

end EndpointTree
