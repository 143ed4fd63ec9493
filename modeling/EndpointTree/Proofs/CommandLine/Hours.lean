import EndpointTree.CommandLine.Arguments
import EndpointTree.Proofs.Faults
import EndpointTree.Proofs.Text.Unsigned

/-!
# The hours that can be asked for

How many hours a token is to last comes from two places: an option of the command line, and a
setting where the option is missing. Either is a text, and every text that spells an unsigned
64-bit number is taken for one; nothing but the 64 bits limits it.

* `Scan.HoursFit` is kept by every word that is read.
* `CommandLine.requested_iff`: the hours that can be asked for are the unsigned 64-bit numbers.
-/

namespace EndpointTree.CommandLine

/-! ## Words of a command line -/

namespace Scan

/-- The hours that have been read, if any, are an unsigned 64-bit number. -/
def HoursFit (s : Scan) : Prop := ∀ hours ∈ s.hours, hours < Text.count64

variable {s s' : Scan}

/-- An option that is read has not been given before, and its value can be read. -/
theorem once_eq_ok {α : Type} {earlier value result : Option α}
    (read : once earlier value = .ok result) : ∃ x, value = some x ∧ result = some x := by
  unfold once at read
  split at read
  · cases read
  · cases read
  · next x =>
    cases read
    exact ⟨x, rfl, rfl⟩

/-- Whatever option a value is given to, the hours stay within their range. -/
theorem HoursFit.assign (fit : s.HoursFit) {o : ValueOption} {value : String}
    (read : s.assign o value = .ok s') : s'.HoursFit := by
  cases o with
  | roles =>
    cases read
    exact fit
  | subject =>
    obtain ⟨_, -, rfl⟩ := exists_of_map_eq_ok read
    exact fit
  | hours =>
    obtain ⟨_, only, rfl⟩ := exists_of_map_eq_ok read
    obtain ⟨hours, spelled, rfl⟩ := once_eq_ok only
    intro hours' same
    obtain rfl := Option.some.inj same
    exact Text.lt_of_unsigned? spelled
  | tcpPort =>
    obtain ⟨_, -, rfl⟩ := exists_of_map_eq_ok read
    exact fit

/-- To take what is held back keeps the hours in their range. -/
theorem HoursFit.settle (fit : s.HoursFit) (read : s.settle = .ok s') : s'.HoursFit := by
  unfold Scan.settle at read
  have free : HoursFit { s with held := .nothing } := fit
  dsimp only at read
  split at read
  · cases read
    exact free
  · split at read <;> cases read
    exact free
  · cases read
  · exact free.assign read

theorem HoursFit.flag (fit : s.HoursFit) {name : String} (read : s.flag name = .ok s') :
    s'.HoursFit := by
  obtain ⟨settled, settle, read⟩ := exists_of_bind_eq_ok read
  have fit : settled.HoursFit := fit.settle settle
  split at read
  · split at read <;> cases read
    exact fit
  · split at read
    · split at read <;> cases read
      exact fit
    · cases read

theorem HoursFit.file (fit : s.HoursFit) {verb : Verb} {path : String}
    (read : s.file verb path = .ok s') : s'.HoursFit := by
  unfold Scan.file at read
  split at read
  · split at read
    · cases read
      exact fit
    · obtain ⟨settled, settle, rfl⟩ := exists_of_map_eq_ok read
      have kept : settled.HoursFit := fit.settle settle
      exact kept
  · cases read

theorem HoursFit.option (fit : s.HoursFit) {o : ValueOption} {value : Option String}
    (read : s.option o value = .ok s') : s'.HoursFit := by
  obtain ⟨settled, settle, read⟩ := exists_of_bind_eq_ok read
  have fit : settled.HoursFit := fit.settle settle
  cases value with
  | some value => exact fit.assign read
  | none =>
    cases read
    exact fit

/-- A word behind the verb keeps the hours below their limit. -/
theorem HoursFit.behind (fit : s.HoursFit) {verb : Verb} {word : String}
    (read : Scan.behind verb s word = .ok s') : s'.HoursFit := by
  unfold Scan.behind at read
  split at read
  · exact fit.file read
  · split at read
    case h_1 =>
      cases read
      exact fit
    case h_2 =>
      split at read
      · cases read
        exact fit
      · exact fit.file read
    case h_3 =>
      split at read
      · obtain ⟨_, -, failed⟩ := exists_of_bind_eq_ok read
        cases failed
      · cases read
    case h_4 =>
      split at read
      · split at read
        · cases read
        · split at read
          · obtain ⟨_, -, failed⟩ := exists_of_bind_eq_ok read
            cases failed
          · exact fit.flag read
      · split at read
        · exact fit.option read
        · cases read

/-- So do all words behind it. -/
theorem HoursFit.foldlM (fit : s.HoursFit) {verb : Verb} {words : List String}
    (read : words.foldlM (Scan.behind verb) s = .ok s') : s'.HoursFit := by
  induction words generalizing s with
  | nil =>
    cases read
    exact fit
  | cons word rest ih =>
    rw [List.foldlM_cons] at read
    obtain ⟨next, first, read⟩ := exists_of_bind_eq_ok read
    exact ih (fit.behind first) read

end Scan

namespace Invocation

/-- The hours for which a command line asks are an unsigned 64-bit number. -/
def HoursFit (i : Invocation) : Prop :=
  ∀ roles subject hours, i.command = .token roles subject (some hours) → hours < Text.count64

variable {i : Invocation}

/-- The hours that a command is given behind its verb are in their range. -/
theorem hoursFit_ofVerb {before : Scan} {verb : Verb} {words : List String}
    (read : ofVerb before verb words = .ok i) : i.HoursFit := by
  obtain ⟨scan, scanned, read⟩ := exists_of_bind_eq_ok read
  obtain ⟨settled, settle, read⟩ := exists_of_bind_eq_ok read
  have nothing : Scan.HoursFit {} := fun hours given => nomatch given
  have fit : settled.HoursFit := (nothing.foldlM scanned).settle settle
  cases read
  intro roles subject hours asked
  cases verb with
  | token =>
    obtain ⟨-, -, given⟩ := Command.token.inj asked
    exact fit hours given
  | compile | routes | serve => cases asked

/-- The hours that a command line asks for are in their range. -/
theorem hoursFit_ofWords {s : Scan} {words : List String} (read : ofWords s words = .ok i) :
    i.HoursFit := by
  induction words generalizing s with
  | nil => cases read
  | cons word rest ih =>
    rw [ofWords] at read
    split at read
    · obtain ⟨next, -, read⟩ := exists_of_bind_eq_ok read
      exact ih read
    · split at read
      · cases read
      · split at read
        · exact hoursFit_ofVerb read
        · obtain ⟨next, -, read⟩ := exists_of_bind_eq_ok read
          exact ih read

end Invocation

/-! ## Hours from either place -/

theorem ofText_repr (n : Nat) : Word.ofText (Nat.repr n) = .plain := by
  have noDash (rest : List Char) : Nat.toDigits 10 n ≠ '-' :: rest := by
    intro written
    have digit : ('-' : Char).isDigit = true :=
      Nat.isDigit_of_mem_toDigits (b := 10) (n := n) (by decide) (by decide)
        (written ▸ List.mem_cons_self)
    cases digit
  rw [Word.ofText, Nat.toList_repr]
  split
  · next written => exact absurd written (noDash _)
  · next written => exact absurd written (noDash _)
  · next written => exact absurd written (noDash _)
  · rfl

/-- The hours that a command line asks for. -/
theorem ofArguments_hours {hours : Nat} (below : hours < Text.count64) :
    Invocation.ofArguments ["token", "--hours", Nat.repr hours] =
      .ok ⟨.token [] none (some hours), false⟩ := by
  have value : Scan.behind .token { held := .option .hours none } (Nat.repr hours) =
      .ok { held := .option .hours (some (Nat.repr hours)) } := by
    rw [Scan.behind, ofText_repr]
    rfl
  have settled : Scan.settle { held := .option .hours (some (Nat.repr hours)) } =
      .ok { hours := some hours } := by
    simp only [Scan.settle, Scan.assign, Text.unsigned?_repr below]
    rfl
  have read : Invocation.ofArguments ["token", "--hours", Nat.repr hours] =
      Invocation.ofVerb {} .token ["--hours", Nat.repr hours] := rfl
  rw [read]
  exact bind_eq_ok (bind_eq_ok rfl (bind_eq_ok value rfl)) (bind_eq_ok settled rfl)

/-- A number of hours for which a token can be asked for, by a setting or on a command line. -/
inductive Requested : Nat → Prop
  | configured (lookup : String → Option String) :
    Requested (Settings.ofLookup lookup).jwtExpiryHours
  | given {arguments : List String} {i : Invocation} {roles : List String}
      {subject : Option String} {hours : Nat} :
    Invocation.ofArguments arguments = .ok i → i.command = .token roles subject (some hours) →
    Requested hours

/-- The hours of the environment are in their range too. -/
theorem jwtExpiryHours_lt (lookup : String → Option String) :
    (Settings.ofLookup lookup).jwtExpiryHours < Text.count64 := by
  have default (environment : Environment) :
      (Settings.defaults environment).jwtExpiryHours < Text.count64 := by
    cases environment <;> decide
  rw [Settings.ofLookup]
  dsimp only
  rw [Settings.override]
  cases spelled : (lookup "SECURITY_JWT_EXPIRY_HOURS").bind Settings.count? with
  | none => exact default _
  | some hours =>
    obtain ⟨value, -, spelled⟩ := Option.bind_eq_some_iff.mp spelled
    exact Text.lt_of_unsigned? spelled

/-- The hours that can be asked for are the unsigned 64-bit numbers, all of them. -/
theorem requested_iff {hours : Nat} : Requested hours ↔ hours < Text.count64 := by
  constructor
  · intro requested
    cases requested with
    | configured lookup => exact jwtExpiryHours_lt lookup
    | given read asked => exact Invocation.hoursFit_ofWords read _ _ _ asked
  · intro below
    exact .given (ofArguments_hours below) rfl

end EndpointTree.CommandLine
