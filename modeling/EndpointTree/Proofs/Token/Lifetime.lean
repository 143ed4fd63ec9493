import EndpointTree.Proofs.CommandLine.Hours
import EndpointTree.Proofs.Token.Soundness
import EndpointTree.Token.Lifetime

/-!
# How long claims last

Claims are issued for a number of hours, which is any unsigned 64-bit number. Read as a signed
one it is negative from 2^63 on, and the calendar ends long before that. So claims last as long as
was asked for where they end within the calendar, and a token is accepted from its issue to that
end; else there are none, or they end before they begin.

* `Claims.hoursSpan_of_lt` and `Claims.hoursSpan_of_le`: the seconds of so many hours.
* `Claims.lasting?_eq_some_iff` and `Claims.lasting?_eq_none_iff`: claims end within the calendar.
* `Claims.lifetimes_are_honest_within_the_calendar` puts it together.
-/

namespace EndpointTree.Claims

open CommandLine (Requested requested_iff)

variable {now : Int} {hours : Nat} {subject : Option String} {roles : List String} {claims : Claims}

/-! ## Seconds -/

/-- The calendar has the second. -/
def InCalendar (second : Int) : Prop := firstSecond ≤ second ∧ second ≤ lastSecond

instance (second : Int) : Decidable (InCalendar second) := inferInstanceAs (Decidable (_ ∧ _))

theorem toInt_ofInt {second : Int} (inCalendar : InCalendar second) :
    (Int64.ofInt second).toInt = second := by
  obtain ⟨low, high⟩ := inCalendar
  rw [firstSecond] at low
  rw [lastSecond] at high
  exact Int64.toInt_ofInt_of_le (by omega) (by omega)

theorem hoursSpan_of_lt (small : (hours : Int) < timeLimit) : hoursSpan hours = 3600 * hours := by
  rw [timeLimit] at small
  rw [hoursSpan, Int64.toInt_ofNat_of_lt (by omega), Int.mul_comm]

/-- From 2^63 on hours count backwards from 2^64. -/
theorem hoursSpan_of_le (large : timeLimit ≤ (hours : Int)) (word : hours < Text.count64) :
    hoursSpan hours = -(3600 * (Text.count64 - hours)) := by
  have negative : (Int64.ofNat hours).toInt = hours - Text.count64 := by
    have size : Int64.size = Text.count64 := rfl
    rw [Int64.toInt_ofNat', size, Int.bmod_def]
    rw [timeLimit] at large
    rw [Text.count64] at word ⊢
    split <;> omega
  rw [hoursSpan, negative]
  omega

/-! ## Claims -/

/-- Claims are issued at one second and expire at another. -/
structure Spans (c : Claims) (start stop : Int) : Prop where
  issued : c.issued.map Int64.toInt = some start
  expiry : c.expiry.map Int64.toInt = some stop

theorem lasting?_eq_some_iff : lasting? now hours subject roles = some claims ↔
    InCalendar (now + hoursSpan hours) ∧ claims =
      { subject, roles, expiry := some (.ofInt (now + hoursSpan hours)),
        issued := some (.ofInt now) } := by
  rw [lasting?, Option.ite_none_right_eq_some, Option.some_inj, InCalendar, eq_comm (b := claims)]

theorem exists_lasting (within : InCalendar (now + hoursSpan hours)) (subject : Option String)
    (roles : List String) :
    ∃ claims, lasting? now hours subject roles = some claims ∧ claims.subject = subject ∧
      claims.roles = roles :=
  ⟨_, lasting?_eq_some_iff.mpr ⟨within, rfl⟩, rfl, rfl⟩

theorem lasting?_eq_none_iff :
    lasting? now hours subject roles = none ↔ ¬ InCalendar (now + hoursSpan hours) := by
  rw [Option.eq_none_iff_forall_ne_some]
  constructor
  · exact fun none within => none _ (lasting?_eq_some_iff.mpr ⟨within, rfl⟩)
  · exact fun without claims found => without (lasting?_eq_some_iff.mp found).1

/-- Claims that end within the calendar begin now and end when the hours are over. -/
theorem spans_of_lasting? (present : InCalendar now)
    (lasting : lasting? now hours subject roles = some claims) :
    claims.Spans now (now + hoursSpan hours) := by
  obtain ⟨within, rfl⟩ := lasting?_eq_some_iff.mp lasting
  constructor
  · rw [Option.map_some, toInt_ofInt present]
  · rw [Option.map_some, toInt_ofInt within]

theorem portable_of_lasting? (lasting : lasting? now hours subject roles = some claims) :
    claims.Portable := by
  obtain ⟨-, rfl⟩ := lasting?_eq_some_iff.mp lasting
  have shallow : Json.depth (.object []) < Json.levelLimit := by decide
  exact ⟨⟨List.nodup_nil, trivial⟩, nofun, trivial, shallow, nofun⟩

/-! ## Tokens -/

section Tokens

variable {mac : Token.Mac} {secret token : String} {start stop time : Int}

/-- A token is accepted until its claims end. -/
theorem Spans.accepted (spans : claims.Spans start stop) (portable : claims.Portable)
    (issued : Token.issue mac secret claims = .ok token) (early : time ≤ stop) :
    Token.verify mac secret time token = .ok claims := by
  rw [Token.verify_issued issued portable.integersOnly portable.depth_lt
    (ofMembers_toMembers portable)]
  refine Token.checkClaims_toMembers portable fun t expires => ?_
  have ends := spans.expiry
  rw [expires] at ends
  have ends : t.toInt = stop := Option.some.inj ends
  rw [ends, Token.leeway]
  omega

/-- A token is refused when its claims ended more than a minute ago, in 1970 or later. -/
theorem Spans.refused (spans : claims.Spans start stop) (portable : claims.Portable)
    (issued : Token.issue mac secret claims = .ok token) (enforced : 0 ≤ stop)
    (late : stop < time - Token.leeway) :
    ∃ fault, Token.verify mac secret time token = .error fault := by
  obtain ⟨t, expires, ends⟩ := Option.map_eq_some_iff.mp spans.expiry
  rw [Token.verify_issued issued portable.integersOnly portable.depth_lt
    (ofMembers_toMembers portable)]
  refine exists_error_of_forall_ne fun claims' accepted => ?_
  have inTime := (Token.checkClaims_eq_ok_iff.mp accepted).2.1 t expires
  omega

end Tokens

/-! ## Lifetimes -/

/-- Where so many hours from now end within the calendar, claims last exactly as long, and a token
that is issued for them is accepted until they end. Where fewer hours than 2^63 end behind the
calendar there are no claims. From 2^63 on the hours count backwards from 2^64: claims end before
they are issued, if the calendar goes back so far, and a token that is issued for them is refused
from the start unless they end before 1970. -/
theorem lifetimes_are_honest_within_the_calendar (mac : Token.Mac) {secret : String}
    (filled : secret ≠ "") {now : Int} (present : InCalendar now) {hours : Nat}
    (requested : Requested hours) (subject : Option String) (roles : List String) :
    (now + 3600 * hours ≤ lastSecond →
      ∃ claims, lasting? now hours subject roles = some claims ∧
        claims.subject = subject ∧ claims.roles = roles ∧
        claims.Spans now (now + 3600 * hours) ∧
        ∃ token, Token.issue mac secret claims = .ok token ∧
          ∀ time ≤ now + 3600 * hours, Token.verify mac secret time token = .ok claims) ∧
    (hours < timeLimit → lastSecond < now + 3600 * hours →
      lasting? now hours subject roles = none) ∧
    (timeLimit ≤ hours → now - 3600 * (Text.count64 - hours) < firstSecond →
      lasting? now hours subject roles = none) ∧
    (timeLimit ≤ hours → firstSecond ≤ now - 3600 * (Text.count64 - hours) →
      ∃ claims, lasting? now hours subject roles = some claims ∧
        claims.Spans now (now - 3600 * (Text.count64 - hours)) ∧
        (0 ≤ now - 3600 * (Text.count64 - hours) →
          ∀ token, Token.issue mac secret claims = .ok token →
            ∃ fault, Token.verify mac secret now token = .error fault)) := by
  have word : hours < Text.count64 := requested_iff.mp requested
  have ⟨low, high⟩ := present
  refine ⟨fun ends => ?within, fun small ends => ?behind, fun large starts => ?before,
    fun large starts => ?backwards⟩
  case within =>
    have small : (hours : Int) < timeLimit := by
      rw [firstSecond] at low
      rw [lastSecond] at ends
      rw [timeLimit]
      omega
    have span := hoursSpan_of_lt small
    have within : InCalendar (now + hoursSpan hours) := by
      rw [span]
      exact ⟨by omega, ends⟩
    obtain ⟨claims, lasting, own⟩ := exists_lasting within subject roles
    have spans := spans_of_lasting? present lasting
    rw [span] at spans
    obtain ⟨token, issued⟩ := Token.exists_issued mac filled claims
    exact ⟨claims, lasting, own.1, own.2, spans, token, issued, fun time early =>
      spans.accepted (portable_of_lasting? lasting) issued early⟩
  case behind =>
    refine lasting?_eq_none_iff.mpr fun within => ?_
    rw [hoursSpan_of_lt small] at within
    exact absurd within.2 (Int.not_le.mpr ends)
  case before =>
    refine lasting?_eq_none_iff.mpr fun within => ?_
    rw [hoursSpan_of_le large word, ← Int.sub_eq_add_neg] at within
    exact absurd within.1 (Int.not_le.mpr starts)
  case backwards =>
    have span := hoursSpan_of_le large word
    have within : InCalendar (now + hoursSpan hours) := by
      rw [span]
      exact ⟨by omega, by omega⟩
    obtain ⟨claims, lasting, -⟩ := exists_lasting within subject roles
    have spans := spans_of_lasting? present lasting
    rw [span, ← Int.sub_eq_add_neg] at spans
    refine ⟨claims, lasting, spans, fun enforced token issued => ?_⟩
    refine spans.refused (portable_of_lasting? lasting) issued enforced ?_
    rw [Token.leeway]
    omega

/-- A week from now is a week, and its token is accepted to the last second. -/
theorem week_lasts_a_week :
    ∃ claims token, lasting? 1700000000 168 (some "ada") ["reader"] = some claims ∧
      claims.Spans 1700000000 1700604800 ∧
      Token.issue Digest.hmacSha256 "s3cret" claims = .ok token ∧
      Token.verify Digest.hmacSha256 "s3cret" 1700604800 token = .ok claims := by
  have filled : "s3cret" ≠ "" := by decide
  have present : InCalendar 1700000000 := by decide
  have requested : Requested 168 := requested_iff.mpr (by decide)
  obtain ⟨claims, lasting, -, -, spans, token, issued, accepted⟩ :=
    (lifetimes_are_honest_within_the_calendar Digest.hmacSha256 filled present requested
      (some "ada") ["reader"]).1 (by decide)
  exact ⟨claims, token, lasting, spans, issued, accepted 1700604800 (by decide)⟩

/-- Ten thousand million hours are asked for in vain, although their seconds fit a signed 64-bit
number, and what is issued for 2^64 - 1 of them has expired an hour before. -/
theorem overlong_lifetimes_fail :
    (Requested 10000000000 ∧ InCalendar 1700000000 ∧ 3600 * 10000000000 < timeLimit ∧
      lasting? 1700000000 10000000000 none [] = none) ∧
    Requested 18446744073709551615 ∧
      ∃ claims, lasting? 1700000000 18446744073709551615 none [] = some claims ∧
        claims.Spans 1700000000 1699996400 := by
  have present : InCalendar 1700000000 := by decide
  refine ⟨⟨requested_iff.mpr (by decide), present, by decide, by decide⟩,
    requested_iff.mpr (by decide), ?_⟩
  obtain ⟨claims, lasting⟩ :
      ∃ claims, lasting? 1700000000 18446744073709551615 none [] = some claims := ⟨_, rfl⟩
  exact ⟨claims, lasting, spans_of_lasting? present lasting⟩

end EndpointTree.Claims
