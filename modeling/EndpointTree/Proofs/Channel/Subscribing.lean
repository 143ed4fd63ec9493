import EndpointTree.Proofs.Channel.Calls
import EndpointTree.Proofs.Channel.Forgetting
import EndpointTree.Proofs.Pairs
import EndpointTree.Proofs.Store.ChangeLog

/-!
# Where subscriptions begin

Handlers that work on the store by operations only let it grow, and with it the list of its
changes, so that the position at which a subscription begins keeps its meaning. A subscription
that `observe` makes begins behind the last change, and it is told of the changes of the bound
collection that the connection's query accepts; the keys that page a result say nothing about
single records.

* `Visit.Operates` is what is asked of handlers.
* `Effects.Grown` is the invariant of running them, `Effects.grown_performAll` the run.
* `accepts_iff_selects`: what a subscription of `observe` accepts.
-/

namespace EndpointTree

namespace Query

/-- The filters of a query are the keys that page nothing. -/
theorem filter_of_ofParams {params : Dict String} {q : Query} (read : ofParams params = .ok q) :
    q.filter = pagingKeys.foldl Dict.erase params := by
  rw [ofParams] at read
  split at read
  · cases read
    rfl
  · split at read
    · cases read
      rfl
    · cases read

/-- A query accepts the records that pass all of its filters. -/
theorem accepts_iff {q : Query} {record : Json} : q.accepts record = true ↔
    ∀ key expected, q.filter.get? key = some expected →
      memberMatches record key expected = true := by
  rw [accepts, List.all_eq_true]
  constructor
  · intro all key expected asked
    obtain ⟨front, rest, split, -⟩ := List.lookup_eq_some_iff.mp asked
    refine all (key, expected) ?_
    rw [Dict.toList, split]
    exact List.mem_append_right _ List.mem_cons_self
  · rintro all ⟨key, expected⟩ member
    exact all key expected (Dict.get?_of_mem member)

end Query

namespace Channel

/-- The handler works on the store by operations only. -/
def NamedHandler.Operates (h : NamedHandler) : Prop :=
  ∀ data context (s : Store), s.Grows (h.run data context s).store

/-- All handlers of a visit work on the store by operations only. -/
def Visit.Operates (v : Visit) : Prop :=
  ∀ stage : Stage, ∀ h ∈ stage.handlers v.handlers, h.Operates

/-- A call of the visit made the subscription, on the way from one store to another. -/
def Made (v : Visit) (s s' : Store) (w : Watch) : Prop :=
  ∃ call : Call v, w ∈ call.reaction.watches ∧ s.Grows call.store ∧ call.store.Grows s'

/-- A watch that was made between two stores was made between any two around them. -/
theorem Made.mono {v : Visit} {s₀ s s' s₁ : Store} {w : Watch} (made : Made v s s' w)
    (before : s₀.Grows s) (after : s'.Grows s₁) : Made v s₀ s₁ w := by
  obtain ⟨call, subscribes, since, until_⟩ := made
  exact ⟨call, subscribes, before.trans since, until_.trans after⟩

/-- Effects that began on a store: it has grown, and every subscription was made on the way. -/
structure Effects.Grown (v : Visit) (s : Store) (effects : Effects) : Prop where
  store : s.Grows effects.store
  watches : ∀ w ∈ effects.watches, Made v s effects.store w

namespace Effects

variable {v : Visit} {s : Store} {effects : Effects}

/-- The reaction to a handler that operates on records lets the store grow. -/
theorem grown_after (grown : effects.Grown v s) {call : Call v} (here : call.store = effects.store)
    (operates : call.handler.Operates) : (effects.after call.reaction).Grown v s := by
  have grows : call.store.Grows call.reaction.store := operates ..
  rw [here] at grows
  refine ⟨grown.store.trans grows, List.forall_mem_append.mpr ⟨?_, ?_⟩⟩
  · exact fun w made => (grown.watches w made).mono (.refl s) grows
  · exact fun w subscribes => ⟨call, subscribes, here ▸ grown.store, here ▸ grows⟩

theorem preserved_grown (operates : v.Operates) (s : Store) : Preserved v (Grown v s) where
  call grown call here := grown_after grown here (operates call.stage call.handler call.declared)
  notice grown _ _ := ⟨grown.store, grown.watches⟩

/-- Whatever a session asks for, its store grows and its watches are made on the way. -/
theorem grown_performAll (operates : v.Operates) (s : Store) {actions : List Action}
    (made : ∀ a ∈ actions, a.MadeFor v) : (performAll s actions).Grown v s :=
  (preserved_grown operates s).performAll ⟨.refl s, nofun⟩ made

end Effects

/-! ## Observing -/

theorem operates_observe (name : String) : (NamedHandler.mk name observe).Operates := by
  intro data context s
  have kept : (observe data context s).store = s := by
    rw [observe]
    split
    · rfl
    · split <;> rfl
  exact kept.symm ▸ .refl s

/-- A subscription of `observe` begins behind the last change. -/
theorem since_of_observe {data : Json} {context : Context} {s : Store} {w : Watch}
    (made : w ∈ (observe data context s).watches) : w.since = s.changes.length := by
  rw [observe] at made
  split at made
  · cases made
  · split at made
    · cases made
    · rw [List.mem_singleton.mp made]

/-- What a connection with a query asks to be told of a collection: the changes of records that
pass every filter of the query. Neither the transport nor paging filters anything. -/
def Selects (collection : Option String) (query : Dict String) (change : Change) : Prop :=
  collection = some change.collection ∧
    ∀ key expected, query.get? key = some expected → key ∉ transportKeys →
      key ∉ Query.pagingKeys → Query.memberMatches change.record key expected = true

/-- A watch accepts the changes that its connection's query selects. -/
theorem accepts_iff_selects {w : Watch} {collection : Option String} {query : Dict String}
    (bound : collection = some w.collection)
    (read : Query.ofParams (withoutTransport query) = .ok w.query) (change : Change) :
    w.accepts change = true ↔ Selects collection query change := by
  have asked (key expected : String) : w.query.filter.get? key = some expected ↔
      query.get? key = some expected ∧ key ∉ transportKeys ∧ key ∉ Query.pagingKeys := by
    rw [Query.filter_of_ofParams read, get?_foldl_erase, get?_withoutTransport]
    by_cases pages : key ∈ Query.pagingKeys <;> by_cases transports : key ∈ transportKeys <;>
      simp [pages, transports]
  rw [Watch.accepts, Bool.and_eq_true, decide_eq_true_eq, Query.accepts_iff, Selects, bound,
    Option.some.injEq, eq_comm]
  simp only [asked, and_imp]

/-- A subscription that a call of `observe` made on a visit accepts what the visit's query
selects of the bound collection. -/
theorem Call.accepts_iff_selects {route : Route} {params query : Dict String}
    {call : Call (.ofRoute route params query)} (observes : call.handler.run = observe) {w : Watch}
    (subscribes : call.Subscribes w) (change : Change) :
    w.accepts change = true ↔ Selects route.collection query change := by
  obtain ⟨since, made⟩ := subscribes
  rw [Call.reaction, observes] at made
  obtain ⟨-, asked⟩ := observe_subscribes call.input
    { (Visit.ofRoute route params query).context with auth := call.auth, event := call.event }
    call.store
  obtain ⟨bound, read⟩ := asked _ made
  exact Channel.accepts_iff_selects bound read change

end Channel

end EndpointTree
