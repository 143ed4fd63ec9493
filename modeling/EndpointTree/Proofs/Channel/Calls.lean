import EndpointTree.Channel.Observe
import EndpointTree.Proofs.Channel.Visits

/-!
# Calls of handlers

Doing what a session asks for comes down to calls of the handlers of its visit. Handlers
are code from outside, and a call may do anything; but what a connection receives is a
notice of the protocol, or something that a call sent, or a change that a subscription of
a call reports.

* `Call` is a call that a visit makes possible, `Call.Brings` what comes of it.
* `Preserved.performAll`: what every call preserves, the actions of a session preserve.
* `Effects.stems_performAll`: all that a session's actions do stems from calls.
* `Call.observe_brings`: what comes of a call of `observe`.
-/

namespace EndpointTree.Channel

/-- A call of one of the handlers of a visit. -/
structure Call (v : Visit) where
  stage : Stage
  handler : NamedHandler
  declared : handler ∈ stage.handlers v.handlers
  input : Json
  auth : AuthContext
  event : Option String
  store : Store

namespace Call

variable {v : Visit}

/-- What the handler did. -/
def reaction (call : Call v) : Reaction :=
  call.handler.run call.input { v.context with auth := call.auth, event := call.event } call.store

/-- What a call brings to its connection while changes are published. -/
inductive Brings (call : Call v) (published : List Change) : Outbound → Prop
  | sent {o : Outbound} : o ∈ call.reaction.sent → Brings call published o
  /-- A subscription that the handler made reports a change. -/
  | reported {w : Watch} {change : Change} : w ∈ call.reaction.watches → change ∈ published →
    w.accepts change = true → Brings call published (.message (update change))

/-- The handler made a subscription, which may have moved on since. -/
def Subscribes (call : Call v) (w : Watch) : Prop :=
  ∃ since, { w with since } ∈ call.reaction.watches

end Call

/-- What a connection for a visit may receive. -/
def Received (v : Visit) (published : List Change) (o : Outbound) : Prop :=
  o ∈ notices ∨ ∃ call : Call v, call.Brings published o

/-- A subscription that a connection for a visit may have. -/
def Subscribed (v : Visit) (w : Watch) : Prop := ∃ call : Call v, call.Subscribes w

/-! ## What calls preserve -/

/-- What holds of effects holds after any call of a visit on the store at hand, and after a
notice of the protocol. -/
structure Preserved (v : Visit) (P : Effects → Prop) : Prop where
  call : ∀ {effects}, P effects → ∀ call : Call v, call.store = effects.store →
    P (effects.after call.reaction)
  notice : ∀ {effects}, P effects → ∀ o ∈ notices,
    P { effects with sent := effects.sent ++ [o] }

namespace Preserved

variable {v : Visit} {P : Effects → Prop} {effects : Effects}

/-- The run of a stage: each handler is a call on the store that the one before it left. -/
theorem runHandlers (preserved : Preserved v P) {stage : Stage} {handlers : List NamedHandler}
    (declared : handlers ⊆ stage.handlers v.handlers) (auth : AuthContext)
    (event : Option String) (data : Json) (holds : P effects) :
    P (runHandlers { v.context with auth, event } handlers data effects).2 := by
  induction handlers generalizing data effects with
  | nil => exact holds
  | cons handler rest ih =>
    obtain ⟨here, declared⟩ := List.cons_subset.mp declared
    let call : Call v := ⟨stage, handler, here, data, auth, event, effects.store⟩
    have next : P (effects.after call.reaction) := preserved.call holds call rfl
    rw [Channel.runHandlers]
    dsimp only
    split
    · exact ih declared _ next
    · exact next
    · exact next

theorem perform (preserved : Preserved v P) {a : Action} (made : a.MadeFor v)
    (holds : P effects) : P (perform effects a) := by
  cases a with
  | send o => exact preserved.notice holds o made
  | run stage handlers input context =>
    obtain ⟨rfl, auth, event, rfl⟩ := made
    exact preserved.runHandlers (List.Subset.refl _) auth event input holds

/-- What every call of a visit preserves, the actions that are made for it preserve. -/
theorem performAll (preserved : Preserved v P) {store : Store} (start : P { store })
    {actions : List Action} (made : ∀ a ∈ actions, a.MadeFor v) : P (performAll store actions) := by
  rw [Channel.performAll]
  generalize ({ store } : Effects) = effects at start ⊢
  induction actions generalizing effects with
  | nil => exact start
  | cons a rest ih =>
    obtain ⟨here, made⟩ := List.forall_mem_cons.mp made
    exact ih made (Channel.perform effects a) (preserved.perform here start)

end Preserved

/-- Effects that stem from calls of the handlers of a visit. -/
structure Effects.Stems (v : Visit) (published : List Change) (effects : Effects) : Prop where
  sent : ∀ o ∈ effects.sent, Received v published o
  watches : ∀ w ∈ effects.watches, Subscribed v w

namespace Effects

theorem preserved_stems (v : Visit) (published : List Change) : Preserved v (Stems v published) where
  call stems call _ :=
    { sent := List.forall_mem_append.mpr ⟨stems.sent, fun _ said => .inr ⟨call, .sent said⟩⟩
      watches := List.forall_mem_append.mpr
        ⟨stems.watches, fun w made => ⟨call, w.since, made⟩⟩ }
  notice stems _ notice :=
    ⟨List.forall_mem_append.mpr ⟨stems.sent, List.forall_mem_singleton.mpr (.inl notice)⟩,
      stems.watches⟩

theorem stems_performAll {v : Visit} {published : List Change} (store : Store)
    {actions : List Action} (made : ∀ a ∈ actions, a.MadeFor v) :
    (performAll store actions).Stems v published :=
  (preserved_stems v published).performAll ⟨nofun, nofun⟩ made

end Effects

/-! ## Observing -/

/-- `observe` sends nothing, and subscribes to what the connection asked for only. -/
theorem observe_subscribes (data : Json) (context : Context) (store : Store) :
    (observe data context store).sent = [] ∧
      ∀ w ∈ (observe data context store).watches,
        context.collection = some w.collection ∧ Query.ofParams context.query = .ok w.query := by
  rw [observe]
  split
  · exact ⟨rfl, nofun⟩
  · next collection bound =>
    split
    · exact ⟨rfl, nofun⟩
    · next query read => exact ⟨rfl, List.forall_mem_singleton.mpr ⟨bound, read⟩⟩

/-- What comes of a call of `observe` is an update with a published change of the bound
collection that the query of the connection accepts. -/
theorem Call.observe_brings {v : Visit} {call : Call v} {published : List Change} {o : Outbound}
    (observes : call.handler.run = observe) (brings : call.Brings published o) :
    ∃ change ∈ published, ∃ query, o = .message (update change) ∧
      v.context.collection = some change.collection ∧
      Query.ofParams v.context.query = .ok query ∧ query.accepts change.record = true := by
  have reaction : call.reaction =
      observe call.input { v.context with auth := call.auth, event := call.event } call.store := by
    rw [Call.reaction, observes]
  obtain ⟨silent, subscribes⟩ := observe_subscribes call.input
    { v.context with auth := call.auth, event := call.event } call.store
  rw [← reaction] at silent subscribes
  cases brings with
  | sent said =>
    rw [silent] at said
    cases said
  | @reported w change made member accepts =>
    obtain ⟨bound, read⟩ := subscribes w made
    rw [Watch.accepts, Bool.and_eq_true, decide_eq_true_eq] at accepts
    obtain ⟨same, accepts⟩ := accepts
    exact ⟨change, member, w.query, rfl, same ▸ bound, read, accepts⟩

end EndpointTree.Channel
