import EndpointTree.Endpoint.CorsOptions
import EndpointTree.Proofs.Endpoint.Sites

/-!
# Cross-origin sections

A `cors` section gives settings their values, by key or by place, and a `null` gives none. What
is read of it can be said setting by setting: the last value for a setting settles it, and says
what an endpoint has for it.

* `Declaration.Cors.given?` is the value that a section gives a setting.
* `Declaration.Cors.Setting.Means` says what a value means for a setting.
* `Declaration.Cors.ofJson_given`: a declaration has what its section gives, as it is meant.
-/

namespace EndpointTree

theorem rel_map {α β γ : Type} {R : α → γ → Prop} {f : β → γ} {a? : Option α} {b? : Option β}
    (related : Option.Rel (fun a b => R a (f b)) a? b?) : Option.Rel R a? (b?.map f) := by
  cases related with
  | some holds => exact .some holds
  | none => exact .none

namespace Declaration.Cors

/-- What an endpoint has for a cross-origin setting. -/
def Setting.Value : Setting → Type
  | .origin => CorsOrigin
  | .methods => List String
  | .allowedHeaders => Option (List String)
  | .exposedHeaders => List String
  | .credentials => Bool
  | .maxAge => Option Nat

/-- What a declaration makes of a setting; what it leaves open is none. -/
def value? (c : Cors) : (s : Setting) → Option s.Value
  | .origin => c.origin.map CorsOptions.resolveOrigin
  | .methods => c.methods
  | .allowedHeaders => c.allowedHeaders.map some
  | .exposedHeaders => c.exposedHeaders
  | .credentials => c.credentials
  | .maxAge => c.maxAge.map some

/-! ## Sections -/

/-- The key of a setting. -/
def Setting.key : Setting → String
  | .origin => "origin"
  | .methods => "methods"
  | .allowedHeaders => "allowedHeaders"
  | .exposedHeaders => "exposedHeaders"
  | .credentials => "credentials"
  | .maxAge => "maxAge"

/-- What stands in a `cors` section for a setting: the last member under its key, or the item
at its place. -/
def valueIn? (s : Setting) : Json → Option Json
  | .object members => lastUnder? s.key members
  | .array items => lastUnder? s (Setting.all.zip items)
  | _ => none

/-- A value that sets something; `null` does not. -/
def nonNull (value : Json) : Option Json := if value = .null then none else some value

/-- The value that a `cors` section gives a setting. -/
def given? (s : Setting) (cors : Json) : Option Json := (valueIn? s cors).bind nonNull

/-- The origins that a value lets in. -/
inductive LetsIn : Json → CorsOrigin → Prop
  | all : LetsIn (.bool true) .any
  | nobody : LetsIn (.bool false) (.list [])
  | star : LetsIn (.string "*") .any
  | one {origin : String} : origin ≠ "*" → LetsIn (.string origin) (.list [origin])
  | many (origins : List String) : LetsIn (.array (origins.map .string)) (.list origins)

/-- What a value means for a setting. -/
def Setting.Means : (s : Setting) → Json → s.Value → Prop
  | .origin => LetsIn
  | .methods => fun value methods => value = .array (methods.map .string)
  | .allowedHeaders => fun value headers =>
    ∃ names, headers = some names ∧ value = .array (names.map .string)
  | .exposedHeaders => fun value headers => value = .array (headers.map .string)
  | .credentials => fun value flag => value = .bool flag
  | .maxAge => fun value age =>
    ∃ (seconds : Nat) (inRange : _), age = some seconds ∧ value = .number (.integer seconds inRange)

/-! ## Reading -/

variable {c c' : Cors} {value : Json} {s : Setting}

/-- An optional setting is read as its value means, and `null` as no setting. -/
theorem optional_eq_ok {α : Type} {read : Json → Except CorsFault α} {means : Json → α → Prop}
    (sound : ∀ {v}, read value = .ok v → means value v) {v? : Option α}
    (done : optional read value = .ok v?) : Option.Rel means (nonNull value) v? := by
  rw [nonNull]
  by_cases unset : value = .null
  · subst unset
    cases done
    exact .none
  · rw [if_neg unset]
    have reads : (read value).map some = .ok v? := by
      rw [← done]
      cases value with
      | null => exact absurd rfl unset
      | bool | number | string | array | object => rfl
    obtain ⟨v, readEq, rfl⟩ := exists_of_map_eq_ok reads
    exact .some (sound readEq)

/-- Only a list of texts is read as one. -/
theorem texts_eq_ok {items : List Json} {names : List String} (read : texts items = .ok names) :
    items = names.map .string := by
  induction items generalizing names with
  | nil =>
    cases read
    rfl
  | cons item rest ih =>
    cases item with
    | string name =>
      obtain ⟨further, readRest, rfl⟩ := exists_of_map_eq_ok read
      rw [List.map_cons, ih readRest]
    | null | bool | number | array | object => cases read

theorem readTexts_eq_ok {names : List String} (read : readTexts value = .ok names) :
    value = .array (names.map .string) := by
  cases value with
  | array items => rw [texts_eq_ok read]
  | null | bool | number | string | object => cases read

/-- The origins that are let in are those that the value lets in. -/
theorem readOrigin_eq_ok {origin : OriginSetting} (read : readOrigin value = .ok origin) :
    LetsIn value (CorsOptions.resolveOrigin origin) := by
  cases value with
  | bool any =>
    cases read
    cases any with
    | true => exact .all
    | false => exact .nobody
  | string text =>
    cases read
    rw [CorsOptions.resolveOrigin]
    split
    · next star =>
      subst star
      exact .star
    · next other => exact .one other
  | array items =>
    rw [readOrigin] at read
    split at read
    · next origins textsEq =>
      cases read
      rw [texts_eq_ok textsEq]
      exact .many origins
    · cases read
  | null | number | object => cases read

theorem readFlag_eq_ok {flag : Bool} (read : readFlag value = .ok flag) : value = .bool flag := by
  cases value with
  | bool given =>
    cases read
    rfl
  | null | number | string | array | object => cases read

/-- A count is an integer that is not negative. -/
theorem readCount_eq_ok {count : Nat} (read : readCount value = .ok count) :
    ∃ inRange, value = .number (.integer count inRange) := by
  cases value with
  | number n =>
    cases n with
    | integer given inRange =>
      rw [readCount] at read
      split at read
      · cases read
      · next natural =>
        obtain ⟨n, rfl⟩ := Int.eq_ofNat_of_zero_le (Int.not_lt.mp natural)
        cases read
        exact ⟨inRange, rfl⟩
    | real => cases read
  | null | bool | string | array | object => cases read

/-- Reading one setting settles it. -/
theorem value?_put (read : c.put value s = .ok c') :
    Option.Rel s.Means (nonNull value) (c'.value? s) := by
  cases s with
  | origin =>
    obtain ⟨v?, done, rfl⟩ := exists_of_map_eq_ok read
    exact rel_map (optional_eq_ok readOrigin_eq_ok done)
  | methods | exposedHeaders =>
    obtain ⟨v?, done, rfl⟩ := exists_of_map_eq_ok read
    exact optional_eq_ok readTexts_eq_ok done
  | allowedHeaders =>
    obtain ⟨v?, done, rfl⟩ := exists_of_map_eq_ok read
    exact rel_map (optional_eq_ok (fun texts => ⟨_, rfl, readTexts_eq_ok texts⟩) done)
  | credentials =>
    obtain ⟨v?, done, rfl⟩ := exists_of_map_eq_ok read
    exact optional_eq_ok readFlag_eq_ok done
  | maxAge =>
    obtain ⟨v?, done, rfl⟩ := exists_of_map_eq_ok read
    refine rel_map (optional_eq_ok (fun count => ?_) done)
    obtain ⟨inRange, valueEq⟩ := readCount_eq_ok count
    exact ⟨_, inRange, rfl, valueEq⟩

/-- Reading one setting leaves the others alone. -/
theorem value?_put_of_ne {put : Setting} (read : c.put value put = .ok c') (other : put ≠ s) :
    c'.value? s = c.value? s := by
  cases put with
  | origin | methods | allowedHeaders | exposedHeaders | credentials | maxAge =>
    obtain ⟨v?, -, rfl⟩ := exists_of_map_eq_ok read
    cases s <;> first | rfl | exact absurd rfl other

/-- Read values for settings one after another. -/
def puts (c : Cors) (pairs : List (Setting × Json)) : Except CorsFault Cors :=
  pairs.foldlM (fun c p => c.put p.2 p.1) c

/-- Of values that are read one after another, the last for a setting settles it. -/
theorem value?_puts {pairs : List (Setting × Json)} (read : c.puts pairs = .ok c') (s : Setting) :
    match lastUnder? s pairs with
    | none => c'.value? s = c.value? s
    | some value => Option.Rel s.Means (nonNull value) (c'.value? s) := by
  induction pairs generalizing c with
  | nil =>
    cases read
    rfl
  | cons p rest ih =>
    rw [puts, List.foldlM_cons] at read
    obtain ⟨between, put, read⟩ := exists_of_bind_eq_ok read
    have further := ih read
    rw [lastUnder?_cons]
    cases later : lastUnder? s rest with
    | some value =>
      rw [later] at further
      exact further
    | none =>
      rw [later] at further
      rw [Option.none_or]
      by_cases here : p.1 = s
      · subst here
        rw [if_pos rfl]
        dsimp only at further ⊢
        rw [further]
        exact value?_put put
      · rw [if_neg here]
        exact further.trans (value?_put_of_ne put here)

theorem ofKey?_eq_some_iff {key : String} : Setting.ofKey? key = some s ↔ key = s.key := by
  unfold Setting.ofKey?
  constructor
  · intro found
    repeat' split at found
    all_goals cases found
    all_goals assumption
  · intro same
    subst same
    cases s <;> decide

/-- The settings that members name, each with its value. -/
def namedIn (members : List (String × Json)) : List (Setting × Json) :=
  members.filterMap fun m => (Setting.ofKey? m.1).map fun s => (s, m.2)

/-- Under a setting the last value is the last one under its key. -/
theorem lastUnder?_namedIn (s : Setting) (members : List (String × Json)) :
    lastUnder? s (namedIn members) = lastUnder? s.key members := by
  have last : lastUnder? s (namedIn members) = (lastUnder? s.key members).map id :=
    lastUnder?_filterMap (fun _ => ofKey?_eq_some_iff) id members
  rw [last, Option.map_id_fun, id]

/-- Members are read by putting in place those that name a setting. -/
theorem ofMembers_eq (c : Cors) (members : List (String × Json)) :
    c.ofMembers members = c.puts (namedIn members) := by
  induction members generalizing c with
  | nil => rfl
  | cons m rest ih =>
    rw [ofMembers, namedIn, List.filterMap_cons, ← namedIn]
    cases Setting.ofKey? m.1 with
    | none => exact ih c
    | some s =>
      rw [Option.map_some, puts, List.foldlM_cons]
      dsimp only
      cases put : c.put m.2 s with
      | error fault => rfl
      | ok next => exact ih next

/-- A list is read by putting its items in place, each for the setting at its position. -/
theorem ofItems_eq_ok {count : Nat} {settings : List Setting} {items : List Json}
    (read : ofItems count c settings items = .ok c') :
    c.puts (settings.zip items) = .ok c' := by
  induction settings generalizing c items with
  | nil =>
    cases items with
    | nil => exact read
    | cons => cases read
  | cons s rest ih =>
    cases items with
    | nil => cases read
    | cons value further =>
      rw [ofItems] at read
      rw [List.zip_cons_cons, puts, List.foldlM_cons]
      cases put : c.put value s with
      | error fault =>
        rw [put] at read
        cases read
      | ok next =>
        rw [put] at read
        exact ih read

/-- Each setting is what its last value means, or open where that is `null`. -/
theorem given_puts {pairs : List (Setting × Json)} (read : puts {} pairs = .ok c) (s : Setting) :
    Option.Rel s.Means ((lastUnder? s pairs).bind nonNull) (c.value? s) := by
  have settles := value?_puts read s
  cases found : lastUnder? s pairs with
  | some value =>
    rw [found] at settles
    exact settles
  | none =>
    rw [found] at settles
    dsimp only at settles
    rw [settles]
    cases s <;> exact .none

/-- What a `cors` section gives a setting is what its declaration has for it. -/
theorem ofJson_given {cors : Json} (read : ofJson cors = .ok c) (s : Setting) :
    Option.Rel s.Means (given? s cors) (c.value? s) := by
  cases cors with
  | object members =>
    rw [ofJson, ofMembers_eq] at read
    rw [given?, valueIn?, ← lastUnder?_namedIn]
    exact given_puts read s
  | array items => exact given_puts (ofItems_eq_ok read) s
  | null | bool | number | string => cases read

end Declaration.Cors

end EndpointTree
