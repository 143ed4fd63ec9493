import EndpointTree.Proofs.Channel.Transcript
import EndpointTree.Proofs.Gate
import EndpointTree.Proofs.Token.Soundness

/-!
# Tokens that have expired

The claims that have a field of their own are written in front of all others, so their members
are read first whatever the further claims are: even where those repeat a key, hold doubles or
nest too deep, an accepted token has the expiry with which it was issued. An expiry that is not
negative is enforced, with a minute of leeway, and a caller with a token that is refused stays
unknown both at the gate and in a handshake. A negative expiry counts as none.

* `Token.expiry_of_accepted`: the expiry of an accepted token is the one of its issue.
* `Token.Unknown` is what a refused token comes to where tokens are enforced, and
  `Token.unknown_of_refused` says so of every verifier.
* `Token.expired_bearers_stay_unknown` puts it together.
-/

namespace EndpointTree

namespace Claims

variable {c claims : Claims} {t : Int64}

theorem timeJson_injective {t t' : Int64} (same : timeJson t = timeJson t') : t = t' := by
  have read := readTime_timeJson t
  rw [same, readTime_timeJson] at read
  exact (Option.some.inj (Option.some.inj read)).symm

/-- Where the members of claims stand in front, what is read as their expiry is their expiry. -/
theorem SpelledBy.expiry_eq {members : List (String × Json)} (spelled : claims.SpelledBy members)
    (front : c.ownMembers <+: members) (expires : c.expiry = some t) : claims.expiry = some t := by
  obtain ⟨further, rfl⟩ := front
  -- Claims that can be read at all have the key once, so a further member with it is none.
  have own : c.ownMembers.filter (fun m => m.1 = "exp") = [("exp", timeJson t)] := by
    have single := single_eq_some_iff.mp (single_ownMembers c).2.2.1
    rw [expires] at single
    cases single with
    | once only => exact only
  have held {value? : Option Json} (occurs : Occurs "exp" (c.ownMembers ++ further) value?) :
      value? = some (timeJson t) := by
    have member : ("exp", timeJson t) ∈ c.ownMembers :=
      (List.mem_filter.mp (own ▸ List.mem_singleton_self _)).1
    cases occurs with
    | never absent => exact absurd rfl (absent _ (List.mem_append_left _ member))
    | once only =>
      rw [List.filter_append, own, List.singleton_append] at only
      rw [(Prod.mk.inj (List.cons.inj only).1).2]
  rcases spelled.expiry with occurs | ⟨-, null⟩
  · obtain ⟨t', expires', same⟩ := Option.map_eq_some_iff.mp (held occurs)
    rw [expires', timeJson_injective same]
  · obtain ⟨inRange, written⟩ := timeJson_eq t
    have absurdity := Option.some.inj (held null)
    rw [written] at absurdity
    cases absurdity

end Claims

namespace Token

variable {mac : Mac} {secret token : String} {c claims : Claims} {t : Int64}

/-! ## Expiry from issue to acceptance -/

/-- The payload of an issued token starts with the members of the claims that have a field of
their own. -/
theorem Holds.front {members : List (String × Json)}
    (holds : Holds (encodeText c.toJson.text) members) : c.ownMembers <+: members := by
  obtain ⟨bytes, same, read⟩ := holds
  obtain rfl := Text.Base64Url.encode_injective same
  have text : (⟨(utf8 c.toJson.text).toArray⟩ : ByteArray) = c.toJson.text.toUTF8 := by
    rw [utf8, Json.toList_toUTF8, String.toUTF8_eq_toByteArray, Json.toByteArray_eq,
      ← List.data_toByteArray]
  have integers : Json.IntegersOnlyMembers c.ownMembers :=
    Json.integersOnlyMembers_iff.mpr (Claims.integersOnly_ownMembers c)
  have shallow : Json.depthMembers c.ownMembers ≤ 1 :=
    Json.depthMembers_le_iff.mpr (Claims.depth_ownMembers c)
  rw [text] at read
  obtain ⟨members', same, front⟩ := Json.front_of_parseRaw integers
    (Nat.lt_of_le_of_lt (Nat.succ_le_succ shallow) (by decide)) read
  obtain rfl := Json.object.inj same
  exact front

/-- A token that is accepted has the expiry with which it was issued. -/
theorem expiry_of_accepted (issued : issue mac secret c = .ok token) (expires : c.expiry = some t)
    {now : Int} (accepted : verify mac secret now token = .ok claims) :
    claims.expiry = some t := by
  obtain ⟨⟨head, payload, sign, members, genuine⟩, -⟩ := verify_eq_ok_iff.mp accepted
  have dotless (s : String) : '.' ∉ encodeText s := Text.Base64Url.dot_notMem_encode _
  have parts := (toList_of_issued issued).symm.trans genuine.parts
  rw [List.append_assoc, List.append_assoc] at parts
  obtain ⟨-, behind⟩ := append_dot_inj (dotless _) genuine.dotless.1 parts
  obtain ⟨rfl, -⟩ := append_dot_inj (dotless _) genuine.dotless.2.1 behind
  exact genuine.spelled.expiry_eq genuine.document.front expires

/-! ## Where tokens are enforced -/

/-- What a token comes to that a verifier refuses: a request that carries it is the request of an
unknown caller, and is rejected where authentication is required, and in no handshake is a caller
authenticated by it. -/
structure Unknown (verifier : Verifier) (token : String) : Prop where
  identified : ∀ headers, Carries headers token →
    (Policy.identify verifier headers).authenticated = false
  rejected : ∀ (table : AuthTable) (request : Gate.Request) (r : Requirement) declared,
    table request.method = .required r → r.policies = .builtin :: declared → r.auth = true →
    Carries request.headers token →
    Gate.authorize verifier table request = .rejected Policy.invalidToken
  handshake : ∀ visit r deadline inputs time auth,
    (Channel.Session.waiting visit r deadline).handshake verifier inputs =
      some (time, .authenticated auth) → auth.token ≠ some token

theorem unknown_of_refused {verifier : Verifier} {fault : TokenFault}
    (refused : verifier token = .error fault) : Unknown verifier token := by
  have identified (headers : Http.Headers) (carried : Carries headers token) :
      Policy.identify verifier headers = .refused token := by
    simp only [Policy.identify, bearer_eq_ok_iff.mpr carried, refused]
  refine ⟨fun headers carried => ?identified, ?rejected, ?handshake⟩
  case identified =>
    rw [identified headers carried]
    rfl
  case rejected =>
    intro table request r declared entry heads asks carried
    have run : Gate.runPolicies verifier r.policies (Gate.startContext r request) =
        .error Policy.invalidToken := by
      simp only [heads, Gate.runPolicies, Policy.builtin, Gate.startContext, asks,
        identified _ carried, AuthContext.refused, Bool.not_false, if_true]
    simp only [Gate.authorize, entry, run]
  case handshake =>
    intro visit r deadline inputs time auth ended same
    rw [Channel.Session.handshake_waiting] at ended
    obtain ⟨p, -, verdict⟩ := List.exists_of_findSome?_eq_some ended
    obtain ⟨how, verdict, ends⟩ := Option.map_eq_some_iff.mp verdict
    cases ends
    obtain ⟨e, -, -, offered⟩ := Channel.Session.verdict?_eq_authenticated verdict
    obtain ⟨-, token', claims, -, accepted, -, rfl⟩ :=
      Channel.Session.offered?_eq_some_iff.mp offered
    obtain rfl := Option.some.inj same
    rw [refused] at accepted
    cases accepted

/-- A token that was issued with an expiry that is not negative is refused as soon as that lies
more than the leeway back, and its bearer is unknown at the gate and in every handshake. Where the
expiry is negative, the time plays no part in whether the token is accepted. -/
theorem expired_bearers_stay_unknown (mac : Mac) {secret token : String} {c : Claims} {t : Int64}
    (issued : issue mac secret c = .ok token) (expires : c.expiry = some t) :
    (0 ≤ t.toInt → ∀ now, t.toInt < now - leeway →
      (∃ fault, verify mac secret now token = .error fault) ∧
        Unknown (verify mac secret now) token) ∧
    (t.toInt < 0 → ∀ now now' claims, verify mac secret now token = .ok claims ↔
      verify mac secret now' token = .ok claims) := by
  refine ⟨fun enforced now late => ?enforced, fun negative now now' claims => ?negative⟩
  case enforced =>
    have refused : ∃ fault, verify mac secret now token = .error fault := by
      refine exists_error_of_forall_ne fun claims accepted => ?_
      have inTime := (verify_eq_ok_iff.mp accepted).2 t
        (expiry_of_accepted issued expires accepted) enforced
      omega
    obtain ⟨fault, refused⟩ := refused
    exact ⟨⟨fault, refused⟩, unknown_of_refused refused⟩
  case negative =>
    have anyTime {now now' : Int} (accepted : verify mac secret now token = .ok claims) :
        verify mac secret now' token = .ok claims := by
      refine verify_eq_ok_iff.mpr ⟨(verify_eq_ok_iff.mp accepted).1, fun t' expires' later => ?_⟩
      rw [expiry_of_accepted issued expires accepted] at expires'
      cases expires'
      omega
    exact ⟨anyTime, anyTime⟩

/-- Claims that expired a thousand seconds into 1970. -/
def lapsed : Claims where
  subject := some "ada"
  expiry := some 1000

/-- The bearer of lapsed claims is unknown from the first second behind the leeway. -/
theorem lapsed_bearer_is_unknown :
    ∃ token, issue Digest.hmacSha256 "s3cret" lapsed = .ok token ∧
      Unknown (verify Digest.hmacSha256 "s3cret" 1061) token := by
  obtain ⟨token, issued⟩ :=
    exists_issued Digest.hmacSha256 (by decide : "s3cret" ≠ "") lapsed
  have enforced := (expired_bearers_stay_unknown Digest.hmacSha256 issued
    (rfl : lapsed.expiry = some 1000)).1
  exact ⟨token, issued, (enforced (by decide) 1061 (by decide)).2⟩

/-- Claims that expired an hour before 1970. -/
def ancient : Claims where
  expiry := some (-3600)

/-- A token whose expiry lies an hour before 1970 is accepted half a century later. -/
theorem ancient_token_is_accepted :
    ∃ token, issue Digest.hmacSha256 "s3cret" ancient = .ok token ∧
      (∃ t : Int64, ancient.expiry = some t ∧ t.toInt < 1700000000 - leeway) ∧
      verify Digest.hmacSha256 "s3cret" 1700000000 token = .ok ancient := by
  have integers : ancient.toJson.IntegersOnly := ⟨trivial, rfl, trivial⟩
  have shallow : ancient.toJson.depth < Json.levelLimit := by decide
  obtain ⟨token, issued⟩ :=
    exists_issued Digest.hmacSha256 (by decide : "s3cret" ≠ "") ancient
  have read : Claims.ofMembers ancient.toMembers = some ancient := rfl
  exact ⟨token, issued, ⟨-3600, rfl, by decide⟩,
    verify_issued issued integers shallow read 1700000000⟩

end Token

end EndpointTree
