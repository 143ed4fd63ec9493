import EndpointTree.Http.CrossOrigin
import EndpointTree.Proofs.Http.PlainText
import EndpointTree.Settings

/-!
# The field that lists methods

The refusal of a method lists others, with commas between them. A client cuts the value at the
commas and drops the blanks, and has the names of the methods again. No reply but a refusal has
such a field, so by it a refusal is told from a status that a handler or a policy has chosen.

* `Settings.listItems_intercalate`: items between commas are read back.
* `Http.Reply.allow?_methodNotAllowed`: a client reads the names that were listed.
-/

namespace EndpointTree

namespace Text

/-- A blank in front is lost. -/
theorem trim_cons_blank {c : Char} (blank : isBlank c = true) (s : List Char) :
    trim (c :: s) = trim s := by
  rw [trim, trim, List.dropWhile_cons_of_pos blank]

end Text

namespace Settings

/-- The pieces between commas are the parts of the text there. -/
theorem commaPieces_eq_splitOn (text : List Char) : commaPieces text = text.splitOn ',' := by
  induction text with
  | nil => rfl
  | cons c rest ih =>
    rw [List.splitOn, List.splitOnP_cons_eq_if_modifyHead, ← List.splitOn, ← ih, commaPieces]
    by_cases comma : c = ','
    · rw [if_pos comma, if_pos (beq_iff_eq.mpr comma)]
    · rw [if_neg comma, if_neg fun same => comma (beq_iff_eq.mp same)]
      cases pieces : commaPieces rest with
      | nil =>
        rw [pieces] at ih
        exact absurd ih.symm (List.splitOn_ne_nil ',' rest)
      | cons piece more => rfl

/-- Pieces with a space in front of all but the first. -/
def spaced : List (List Char) → List (List Char)
  | [] => []
  | first :: rest => first :: rest.map (' ' :: ·)

/-- A list is written with a blank behind each comma. -/
theorem intercalate_spaced (pieces : List (List Char)) :
    [',', ' '].intercalate pieces = [','].intercalate (spaced pieces) := by
  cases pieces with
  | nil => rfl
  | cons first rest =>
    rw [spaced]
    induction rest generalizing first with
    | nil => rfl
    | cons second rest ih =>
      -- the space in front of the second piece belongs to the separator
      have inner : [','].intercalate ((' ' :: second) :: rest.map (' ' :: ·)) =
          ' ' :: [','].intercalate (second :: rest.map (' ' :: ·)) := by
        cases rest <;> simp [List.intercalate_cons_cons]
      rw [List.map_cons, List.intercalate_cons_cons, List.intercalate_cons_cons, ih, inner]
      simp

/-- An item that a list between commas keeps: it has no comma and is filled up to its ends. -/
structure IsItem (item : String) : Prop where
  noComma : ',' ∉ item.toList
  filled : item.toList ≠ []
  trimmed : Text.trim item.toList = item.toList

/-- Items between commas are read back. -/
theorem listItems_intercalate {items : List String} (each : ∀ item ∈ items, IsItem item) :
    listItems (", ".intercalate items) = items := by
  have trimmed : (spaced (items.map String.toList)).map Text.trim = items.map String.toList := by
    have each : ∀ item ∈ items, Text.trim item.toList = item.toList := fun item member =>
      (each item member).trimmed
    cases items with
    | nil => rfl
    | cons first rest =>
      obtain ⟨here, others⟩ := List.forall_mem_cons.mp each
      rw [List.map_cons, spaced, List.map_cons, here, List.map_map, List.map_map]
      refine congrArg _ (List.map_congr_left fun item member => ?_)
      exact (Text.trim_cons_blank rfl item.toList).trans (others item member)
  have separate : ∀ piece ∈ spaced (items.map String.toList), ',' ∉ piece := by
    cases items with
    | nil => exact nofun
    | cons first rest =>
      obtain ⟨here, others⟩ := List.forall_mem_cons.mp each
      refine List.forall_mem_cons.mpr ⟨here.noComma, ?_⟩
      rw [List.map_map]
      refine List.forall_mem_map.mpr fun item member => ?_
      exact List.not_mem_cons_of_ne_of_not_mem (by decide) (others item member).noComma
  cases items with
  | nil => rfl
  | cons first rest =>
    have filled : ∀ item ∈ (first :: rest).map String.toList, (!item.isEmpty) = true :=
      List.forall_mem_map.mpr fun item member => by
        simpa using (each item member).filled
    rw [listItems, String.toList_intercalate, commaPieces_eq_splitOn]
    have comma : ", ".toList = [',', ' '] := rfl
    rw [comma, intercalate_spaced, List.splitOn_intercalate ',' separate (List.cons_ne_nil _ _),
      trimmed, List.filter_eq_self.mpr filled, List.map_map]
    exact (List.map_congr_left fun item _ => String.ofList_toList).trans (List.map_id _)

end Settings

namespace Http.Reply

/-- The names that a client reads in the field of a reply that lists methods, if it has one. -/
def allow? (r : Reply) : Option (List String) :=
  ((r.headers.get? "allow").bind plainText?).map Settings.listItems

theorem isItem_name (m : HttpMethod) : Settings.IsItem m.name := by
  cases m <;> exact ⟨by decide, by decide, by decide⟩

theorem isPlain_of_all {text : List Char} (plain : (text.all fun c => decide (IsPlain c)) = true) :
    ∀ c ∈ text, IsPlain c :=
  fun c member => of_decide_eq_true (List.all_eq_true.mp plain c member)

/-- Names of methods make a plain text. -/
theorem isPlain_intercalate_names (methods : List HttpMethod) :
    ∀ c ∈ (", ".intercalate (methods.map (·.name))).toList, IsPlain c := by
  induction methods with
  | nil => exact nofun
  | cons m rest ih =>
    have here : ∀ c ∈ m.name.toList, IsPlain c := isPlain_of_all (by cases m <;> decide)
    have comma : ∀ c ∈ ", ".toList, IsPlain c := isPlain_of_all (by decide)
    cases rest with
    | nil => rwa [List.map_singleton, String.intercalate_singleton]
    | cons second rest =>
      intro c member
      rw [List.map_cons, List.map_cons, String.intercalate_cons_cons, String.toList_append,
        String.toList_append, List.mem_append, List.mem_append] at member
      rcases member with (member | separator) | member
      · exact here c member
      · exact comma c separator
      · exact ih c member

/-- A client reads the names that were listed. -/
theorem allow?_methodNotAllowed (methods : List HttpMethod) :
    (methodNotAllowed methods).allow? = some (methods.map (·.name)) := by
  have value : (methodNotAllowed methods).headers.get? "allow" =
      some (headerValue (", ".intercalate (methods.map (·.name)))) := rfl
  rw [allow?, value, Option.bind_some, headerValue,
    plainText?_toUTF8 (isPlain_intercalate_names methods), Option.map_some,
    Settings.listItems_intercalate (List.forall_mem_map.mpr fun m _ => isItem_name m)]

theorem allow?_eq_none {r : Reply} (missing : r.headers.get? "allow" = none) :
    r.allow? = none := by
  rw [allow?, missing]
  rfl

/-- An early exit never lists methods. -/
theorem allow?_ofStop (stop : Stop) : (ofStop stop).allow? = none := by
  obtain ⟨status, payload⟩ := stop
  cases payload <;> exact allow?_eq_none rfl

/-- A reply with data never lists methods. -/
theorem allow?_ofData (status : Nat) (data : Json) : (ofData status data).allow? = none := by
  rw [ofData]
  split <;> exact allow?_eq_none rfl

theorem allow?_ofError (error : ApiError) : (ofError error).allow? = none := allow?_eq_none rfl

/-- A preflight names its methods in a field of its own. -/
theorem allow?_preflight (c : CorsOptions) (request : Headers) :
    (CrossOrigin.preflight c request).allow? = none := by
  have field {name : String} (other : ("allow" == name) = false) (value : Option (List UInt8)) :
      (CrossOrigin.field name value).lookup "allow" = none := by
    cases value with
    | none => rfl
    | some value => simp [CrossOrigin.field, List.lookup_cons, other]
  refine allow?_eq_none ?_
  simp only [Headers.get?, CrossOrigin.preflight, CrossOrigin.commonFields, CrossOrigin.textField,
    List.lookup_append, Option.or_eq_none_iff]
  exact ⟨⟨⟨⟨⟨field rfl _, field rfl _⟩, field rfl _⟩, field rfl _⟩, field rfl _⟩, field rfl _⟩

end Http.Reply

end EndpointTree
