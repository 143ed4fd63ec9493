import EndpointTree.Channel.Session

/-!
# Running handlers

The handlers of a stage run in order, each on what the one before it returned.
The first that fails or breaks down ends the run of its stage, and nothing else:
what it and those before it sent stays sent, and the session goes on.
-/

namespace EndpointTree.Channel

/-- What running actions has done, and the store after it. -/
structure Effects where
  sent : List Outbound := []
  watches : List Watch := []
  store : Store

namespace Effects

/-- Add what a handler did. -/
def after (e : Effects) (r : Reaction) : Effects :=
  ⟨e.sent ++ r.sent, e.watches ++ r.watches, r.store⟩

end Effects

/-- Run handlers on data; the result is what the last one returned, if all went on. -/
def runHandlers (context : Context) : List NamedHandler → Json → Effects → Option Json × Effects
  | [], data, effects => (some data, effects)
  | h :: rest, data, effects =>
    let reaction := h.run data context effects.store
    let next := effects.after reaction
    match reaction.outcome with
    | .proceed data => runHandlers context rest data next
    | .fail _ => (none, next)
    | .panic => (none, next)

/-- Do what a session asks for. -/
def perform (effects : Effects) : Action → Effects
  | .send outbound => { effects with sent := effects.sent ++ [outbound] }
  | .run _ handlers input context => (runHandlers context handlers input effects).2

/-- Do all that a session asks for, in order. -/
def performAll (store : Store) (actions : List Action) : Effects :=
  actions.foldl perform { store }

end EndpointTree.Channel
