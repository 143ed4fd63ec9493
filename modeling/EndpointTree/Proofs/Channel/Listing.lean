import EndpointTree.Proofs.Addresses
import EndpointTree.Proofs.Channel.Routing
import EndpointTree.Proofs.Endpoint.Handlers

/-!
# What the table of channels lists

A subtree is live if a channel handler stands somewhere in it. Whether it is, is made out from
below, and by it the table leaves whole subtrees out while it goes through the tree. What comes
of it is the listing of the tree without the places that are not live: no live place is missed,
however deep the handler stands that makes it so, and none is listed twice.

* `Channel.hasRealtime_at_iff` says which subtrees are live, address by address.
* `Channel.tableOf_eq_livePlaces`: the table lists the live places, in the order of the tree.
* `Channel.above_mem_before`: what stands above a live place is listed before it.
* `Endpoint.compile_channel_at`: the handlers of a channel are those that the declaration at the
  same address names.
-/

namespace EndpointTree

namespace ChannelHandlers

/-- There is something to run at some stage of a session. -/
def Listens (h : ChannelHandlers) : Prop := h.connect ≠ [] ∨ h.message ≠ [] ∨ h.disconnect ≠ []

theorem isEmpty_eq_false_iff {h : ChannelHandlers} : h.isEmpty = false ↔ h.Listens := by
  rw [isEmpty, Listens, Bool.and_eq_false_iff, Bool.and_eq_false_iff, List.isEmpty_eq_false_iff,
    List.isEmpty_eq_false_iff, List.isEmpty_eq_false_iff, or_assoc]

end ChannelHandlers

namespace Tree

variable {α : Type}

theorem anyValueOf_eq_any (test : α → Bool) (trees : List (Tree α)) :
    anyValueOf test trees = trees.any (anyValue test) := by
  induction trees with
  | nil => rfl
  | cons t rest ih => rw [anyValueOf, List.any_cons, ih]

/-- What stands in a tree stands at an address of it. -/
theorem mem_values_iff {v : α} {t : Tree α} :
    v ∈ t.values ↔ ∃ a s, t.subtree? a = some s ∧ s.value = v := by
  rw [values, ← map_snd_addressed, List.map_map, List.mem_map]
  constructor
  · rintro ⟨⟨a, s⟩, member, same⟩
    exact ⟨a, s, mem_addressed_iff.mp member, same⟩
  · rintro ⟨a, s, found, same⟩
    exact ⟨(a, s), mem_addressed_iff.mpr found, same⟩

end Tree

namespace Channel

variable {model t : Model} {a b : List Nat}

/-- A tree is live if its root listens or one of its subtrees is live. -/
theorem hasRealtime_node (e : Endpoint) (children : List Model) :
    Model.hasRealtime (.node e children) = true ↔
      e.channel.Listens ∨ ∃ child ∈ children, child.hasRealtime = true := by
  rw [Model.hasRealtime, Tree.anyValue, Tree.anyValueOf_eq_any, Bool.or_eq_true, Bool.not_eq_true',
    ChannelHandlers.isEmpty_eq_false_iff, List.any_eq_true]
  rfl

/-- A subtree is live if an endpoint listens at it or somewhere below. -/
theorem hasRealtime_at_iff (stands : model.subtree? a = some t) :
    t.hasRealtime = true ↔
      ∃ b s, model.subtree? (a ++ b) = some s ∧ s.value.channel.Listens := by
  rw [Model.hasRealtime_iff]
  simp only [Tree.subtree?_append, stands, Option.bind_some, ChannelHandlers.isEmpty_eq_false_iff]
  constructor
  · rintro ⟨e, member, listens⟩
    obtain ⟨b, s, found, rfl⟩ := Tree.mem_values_iff.mp member
    exact ⟨b, s, found, listens⟩
  · rintro ⟨b, s, found, listens⟩
    exact ⟨s.value, Tree.mem_values_iff.mpr ⟨b, s, found, rfl⟩, listens⟩

/-! ## Live places -/

/-- The places of a model from which a channel handler can be reached. -/
def livePlaces (model : Model) : List (List Nat × Model) :=
  model.addressed.filter fun p => p.2.hasRealtime

theorem mem_livePlaces_iff :
    (a, t) ∈ livePlaces model ↔ model.subtree? a = some t ∧ t.hasRealtime = true := by
  rw [livePlaces, List.mem_filter, Tree.mem_addressed_iff]

theorem pairwise_livePlaces (model : Model) :
    (livePlaces model).Pairwise fun p q => p.1 < q.1 :=
  (Tree.pairwise_addressed model).filter _

/-- The table lists the live places. -/
theorem tableOf_eq_livePlaces (model : Model) :
    tableOf model = (livePlaces model).map fun p => .ofEndpoint p.2.value := by
  rw [tableOf_eq, routesOf, ← Tree.map_snd_addressed, List.filter_map, List.map_map]
  rfl

theorem tableOf_eq_nil_iff : tableOf model = [] ↔ model.hasRealtime = false := by
  cases model with
  | node e children =>
    rw [tableOf]
    cases Model.hasRealtime (.node e children) with
    | true => simp only [if_true, reduceCtorEq]
    | false => simp only [Bool.false_eq_true, if_false]

/-- What stands above a live place is listed before it. -/
theorem above_mem_before {before after : List (List Nat × Model)}
    (listed : livePlaces model = before ++ (a ++ b, t) :: after) (proper : b ≠ []) :
    ∃ s, (a, s) ∈ before := by
  have member : (a ++ b, t) ∈ livePlaces model := by
    rw [listed]
    exact List.mem_append_right _ List.mem_cons_self
  obtain ⟨stands, live⟩ := mem_livePlaces_iff.mp member
  rw [Tree.subtree?_append] at stands
  obtain ⟨s, above, below⟩ := Option.bind_eq_some_iff.mp stands
  have aboveLive : Model.hasRealtime s = true := by
    obtain ⟨c, u, found, listens⟩ :=
      (hasRealtime_at_iff (Tree.subtree?_append model a b ▸ stands)).mp live
    refine (hasRealtime_at_iff above).mpr ⟨b ++ c, u, ?_, listens⟩
    rwa [List.append_assoc] at found
  have place : (a, s) ∈ livePlaces model := mem_livePlaces_iff.mpr ⟨above, aboveLive⟩
  -- the listing is in lexicographic order, so the place above cannot come later
  have ordered := pairwise_livePlaces model
  rw [listed] at place ordered
  have less : a < a ++ b := Tree.lt_append a proper
  rcases List.mem_append.mp place with first | later
  · exact ⟨s, first⟩
  · rcases List.mem_cons.mp later with same | later
    · have here : a = a ++ b := congrArg Prod.fst same
      rw [← here] at less
      exact absurd less (List.lt_irrefl a)
    · have behind := (List.pairwise_cons.mp (List.pairwise_append.mp ordered).2.1).1 _ later
      exact absurd behind (List.lt_asymm less)

end Channel

/-! ## Compiled trees -/

namespace Declaration

/-- There is a name for some stage of a session. -/
def Channel.Listens (c : Channel) : Prop := c.connect ≠ [] ∨ c.message ≠ [] ∨ c.disconnect ≠ []

/-- The names of the channel handlers of an endpoint, as it declares them. -/
def Source.channel (s : Source) : Channel :=
  ((lastUnder? "realTime" s.members).map channelIn).getD {}

end Declaration

namespace Endpoint

variable {registry : Registry} {defaults : CorsOptions} {tree : Tree Declaration} {model : Model}

/-- Channel handlers are those that the names stand for. -/
def StandsInChannel (registry : Registry) : List String → List Channel.NamedHandler → Prop :=
  StandIn registry.channels Channel.NamedHandler.name Channel.NamedHandler.run

/-- The channel handlers of an endpoint are those that names stand for, stage by stage. -/
structure ChannelFollows (registry : Registry) (names : Declaration.Channel) (e : Endpoint) :
    Prop where
  connect : StandsInChannel registry names.connect e.channel.connect
  message : StandsInChannel registry names.message e.channel.message
  disconnect : StandsInChannel registry names.disconnect e.channel.disconnect

theorem Compiled.channelFollows {above : Inherited} {d : Declaration} {e : Endpoint}
    (compiled : Compiled registry above d e) : ChannelFollows registry d.channel e := by
  obtain ⟨connect, connectEq, resolved⟩ := exists_of_bind_eq_ok compiled.channel
  obtain ⟨message, messageEq, resolved⟩ := exists_of_bind_eq_ok resolved
  obtain ⟨disconnect, disconnectEq, resolved⟩ := exists_of_bind_eq_ok resolved
  have stands {names : List String} {handlers : List Channel.NamedHandler}
      {unknown : String → CompileFault} :
      lookUp registry.channels Channel.NamedHandler.mk unknown names = .ok handlers →
        StandsInChannel registry names handlers :=
    standIn_of_lookUp (fun _ _ => rfl) fun _ _ => rfl
  have channelEq := Except.ok.inj resolved
  refine ⟨?_, ?_, ?_⟩ <;> rw [← channelEq]
  · exact stands connectEq
  · exact stands messageEq
  · exact stands disconnectEq

theorem ChannelFollows.listens_iff {names : Declaration.Channel} {e : Endpoint}
    (follows : ChannelFollows registry names e) : e.channel.Listens ↔ names.Listens := by
  have filled {names : List String} {handlers : List Channel.NamedHandler}
      (stands : StandsInChannel registry names handlers) : handlers ≠ [] ↔ names ≠ [] := by
    cases stands with
    | nil => exact iff_of_false (fun filled => filled rfl) (fun filled => filled rfl)
    | cons => exact iff_of_true (List.cons_ne_nil _ _) (List.cons_ne_nil _ _)
  rw [ChannelHandlers.Listens, Declaration.Channel.Listens, filled follows.connect,
    filled follows.message, filled follows.disconnect]

/-- A tree that compiles has the declaration of an endpoint at the address of the endpoint, and
nothing else. -/
theorem compile_subtree? {above : Inherited}
    (compiled : compile registry above tree = .ok model) (a : List Nat) :
    Option.Rel (fun u m => ∃ above, compile registry above u = .ok m)
      (tree.subtree? a) (model.subtree? a) := by
  induction a generalizing above tree model with
  | nil => exact .some ⟨above, compiled⟩
  | cons i rest ih =>
    have child := rel_getElem? (compiled_of_compile compiled).2 i
    rw [Tree.subtree?, Tree.subtree?]
    generalize tree.children[i]? = t?, model.children[i]? = m? at child
    cases child with
    | none => exact .none
    | some holds => exact ih holds

/-- The handlers of a channel are those that the declaration at the same address names. -/
theorem compile_channel_at {above : Inherited}
    (compiled : compile registry above tree = .ok model) (a : List Nat) :
    Option.Rel (fun u m => ChannelFollows registry u.value.channel m.value)
      (tree.subtree? a) (model.subtree? a) := by
  have place := compile_subtree? compiled a
  generalize tree.subtree? a = u?, model.subtree? a = m? at place
  cases place with
  | none => exact .none
  | @some u m holds =>
    obtain ⟨above', here⟩ := holds
    exact .some (compiled_of_compile here).1.channelFollows

/-- A handler is reached from an address if one is declared there or somewhere below. -/
theorem listens_below_iff (compiled : compile registry (.root defaults) tree = .ok model)
    (a : List Nat) :
    (∃ b s, model.subtree? (a ++ b) = some s ∧ s.value.channel.Listens) ↔
      ∃ b u, tree.subtree? (a ++ b) = some u ∧ u.value.channel.Listens := by
  refine exists_congr fun b => ?_
  have place := compile_channel_at compiled (a ++ b)
  generalize tree.subtree? (a ++ b) = u?, model.subtree? (a ++ b) = m? at place
  cases place with
  | none => simp only [reduceCtorEq, false_and, exists_false]
  | some follows => simp only [Option.some.injEq, exists_eq_left', follows.listens_iff]

end Endpoint

namespace Channel

/-- The listing of a tree that compiles has every place of it once, in lexicographic order of
the addresses. A place is live if an endpoint listens there or below, which is to say if one
declares a handler for some stage of a session there or below, and also if it listens itself or
a child is live. The table lists the live places, each once and in the order of the tree, with
the access, the handlers and the collection of the very endpoint; it is empty if the root is not
live; and whatever stands above a place that it lists is listed before it. -/
theorem table_lists_live_places {registry : Registry} {defaults : CorsOptions}
    {tree : Tree Declaration} {model : Model}
    (compiled : Endpoint.compile registry (.root defaults) tree = .ok model) :
    (model.addressed.map (·.2) = model.subtrees ∧
        (model.addressed.Pairwise fun p q => p.1 < q.1) ∧
        ∀ a t, (a, t) ∈ model.addressed ↔ model.subtree? a = some t) ∧
      (∀ a t, model.subtree? a = some t →
        (Model.hasRealtime t = true ↔
          ∃ b s, model.subtree? (a ++ b) = some s ∧ s.value.channel.Listens) ∧
        (Model.hasRealtime t = true ↔
          ∃ b u, tree.subtree? (a ++ b) = some u ∧ u.value.channel.Listens) ∧
        (Model.hasRealtime t = true ↔
          t.value.channel.Listens ∨ ∃ child ∈ t.children, Model.hasRealtime child = true)) ∧
      ((∀ a t, (a, t) ∈ livePlaces model ↔
          model.subtree? a = some t ∧ Model.hasRealtime t = true) ∧
        (livePlaces model).Pairwise fun p q => p.1 < q.1) ∧
      (tableOf model = (livePlaces model).map fun p =>
        { path := p.2.value.path
          pattern := .ofPath p.2.value.path
          access := p.2.value.access .realTime
          handlers := p.2.value.channel
          collection := p.2.value.collection }) ∧
      (tableOf model = [] ↔ Model.hasRealtime model = false) ∧
      (∀ a b t before after, livePlaces model = before ++ (a ++ b, t) :: after → b ≠ [] →
        ∃ s, (a, s) ∈ before) ∧
      ∀ raw, Declaration.ofJson "/" "" raw = .ok tree →
        List.Forall₂ (fun s e => e.path = s.path ∧ Endpoint.ChannelFollows registry s.channel e)
          (Declaration.sources "/" raw) model.values := by
  refine ⟨⟨Tree.map_snd_addressed model, Tree.pairwise_addressed model,
    fun a t => Tree.mem_addressed_iff⟩, fun a t stands => ⟨hasRealtime_at_iff stands, ?_, ?_⟩,
    ⟨fun a t => mem_livePlaces_iff, pairwise_livePlaces model⟩, tableOf_eq_livePlaces model,
    tableOf_eq_nil_iff, fun a b t before after => above_mem_before,
    fun raw read => Endpoint.compile_own_at_sources Endpoint.Compiled.channelFollows
      (fun own => own.channel) read compiled⟩
  · rw [hasRealtime_at_iff stands, Endpoint.listens_below_iff compiled]
  · obtain ⟨e, children⟩ := t
    exact hasRealtime_node e children

/-- A handler two levels down keeps all above it in the table, and nothing beside it. -/
theorem deep_handler_keeps_its_ancestors :
    let chat : Json := .object [("realTime", .object [("message", .string "observe")])]
    let raw : Json := .object
      [("/help", .object []), ("/rooms", .object [("/list", .object []), ("/:id", chat)])]
    ∃ tree model, Declaration.ofJson "/" "" raw = .ok tree ∧
      Endpoint.compile Registry.builtins (.root {}) tree = .ok model ∧
      (tableOf model).map (·.path) = ["/", "/rooms", "/rooms/:id"] ∧
      (livePlaces model).map (·.1) = [[], [1], [1, 1]] ∧
      ∀ before after t, livePlaces model = before ++ ([1, 1], t) :: after →
        ∃ s, ([1], s) ∈ before := by
  intro chat raw
  obtain ⟨tree, model, read, compiled, paths, addresses⟩ :
      ∃ tree model, Declaration.ofJson "/" "" raw = .ok tree ∧
        Endpoint.compile Registry.builtins (.root {}) tree = .ok model ∧
        (tableOf model).map (·.path) = ["/", "/rooms", "/rooms/:id"] ∧
        (livePlaces model).map (·.1) = [[], [1], [1, 1]] := ⟨_, _, rfl, rfl, rfl, rfl⟩
  refine ⟨tree, model, read, compiled, paths, addresses, fun before after t listed => ?_⟩
  obtain ⟨-, -, -, -, -, above, -⟩ := table_lists_live_places compiled
  exact above [1] [1] t before after listed (List.cons_ne_nil 1 [])

end Channel

end EndpointTree
