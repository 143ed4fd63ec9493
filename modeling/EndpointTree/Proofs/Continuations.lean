import EndpointTree.Proofs.Serving.Admission

/-!
# Chains as nested continuations

A step of a chain may be read as one that is handed its two ways on, to the steps behind it and
out of the chain, and takes exactly one of them. A chain is then its steps nested in each
other, folded from the right. Running the steps one after another, and leaving off at the first
that does not go on, comes to the same, whatever the two ways lead to.

* `Chain.interpret` nests the steps of a chain.
* `Chain.interpret_eq`: what the nested steps come to is what the run comes to.
* `Chain.run_append`, `Chain.trace_append`: the second part of a chain runs on what the first
  one made of the data and left of the exchange, if the first one was completed.
* `Chain.run_is_nested_continuations`: the same, and where a chain stops.
-/

namespace EndpointTree

universe u

variable {ρ : Type u} {step : NamedHandler} {data next : Json} {x left last : Exchange}
  {stop : Stop}

/-- The two ways on that a step is handed. -/
structure Flow (ρ : Type u) where
  proceed : Json → Exchange → ρ
  stop : Stop → Exchange → ρ

namespace Flow

/-- The way that a chain has taken by its end. -/
def take (flow : Flow ρ) : Chain.Outcome × Exchange → ρ
  | (.completed value, left) => flow.proceed value left
  | (.stopped stop, left) => flow.stop stop left

/-- The ways on behind which there is nothing more to do. -/
def outcome : Flow (Chain.Outcome × Exchange) where
  proceed value left := (.completed value, left)
  stop stop left := (.stopped stop, left)

/-- The flow that takes a result as it is gives it back. -/
theorem take_outcome (result : Chain.Outcome × Exchange) : outcome.take result = result := by
  rcases result with ⟨_ | _, left⟩ <;> rfl

end Flow

/-! ## Steps -/

namespace NamedHandler

/-- A step within its two ways on; what it throws is caught, and leads out of the chain. -/
def within (step : NamedHandler) (flow : Flow ρ) (data : Json) (x : Exchange) : ρ :=
  match step.run data x with
  | (.proceed next, left) => flow.proceed next left
  | (.stop stop, left) => flow.stop stop left
  | (.fail _, left) => flow.stop ⟨500, none⟩ left
  | (.panic, left) => flow.stop ⟨500, none⟩ left

/-- A step does not go on: it stops, returns an error or breaks down. -/
inductive Stops (step : NamedHandler) (data : Json) (x : Exchange) : Stop → Exchange → Prop
  | stopped {stop : Stop} {left : Exchange} :
    step.run data x = (.stop stop, left) → Stops step data x stop left
  | failed {fault : HandlerFault} {left : Exchange} :
    step.run data x = (.fail fault, left) → Stops step data x ⟨500, none⟩ left
  | brokeDown {left : Exchange} :
    step.run data x = (.panic, left) → Stops step data x ⟨500, none⟩ left

/-- A step either proceeds or stops; there is no third way. -/
theorem proceeds_or_stops (step : NamedHandler) (data : Json) (x : Exchange) :
    (∃ next left, step.run data x = (.proceed next, left)) ∨
      ∃ stop last, step.Stops data x stop last := by
  rcases ran : step.run data x with ⟨next | stop | fault | _, left⟩
  case proceed => exact .inl ⟨next, left, rfl⟩
  case stop => exact .inr ⟨stop, left, .stopped ran⟩
  case fail => exact .inr ⟨_, left, .failed ran⟩
  case panic => exact .inr ⟨_, left, .brokeDown ran⟩

/-- A step that proceeds goes on with the rest of the flow. -/
theorem within_of_proceeds (flow : Flow ρ) (proceeds : step.run data x = (.proceed next, left)) :
    step.within flow data x = flow.proceed next left := by
  rw [within, proceeds]

/-- A step that stops leaves the flow. -/
theorem within_of_stops (flow : Flow ρ) (stops : step.Stops data x stop last) :
    step.within flow data x = flow.stop stop last := by
  unfold within
  cases stops with
  | stopped ran | failed ran | brokeDown ran => rw [ran]

end NamedHandler

namespace Chain

variable {chain : Chain}

/-- Behind a step that proceeds, the rest runs on what it handed on. -/
theorem run_cons_of_proceeds (proceeds : step.run data x = (.proceed next, left))
    (rest : Chain) : run (step :: rest) data x = run rest next left ∧
      trace (step :: rest) data x = (step, data, x) :: trace rest next left := by
  simp only [run, trace, proceeds, and_self]

/-- Behind a step that stops, nothing runs. -/
theorem run_cons_of_stops (stops : step.Stops data x stop last) (rest : Chain) :
    run (step :: rest) data x = (.stopped stop, last) ∧
      trace (step :: rest) data x = [(step, data, x)] := by
  unfold run trace
  cases stops with
  | stopped ran | failed ran | brokeDown ran =>
    rw [ran]
    exact ⟨rfl, rfl⟩

/-! ## Nesting -/

/-- The steps of a chain, nested in each other from the last one to the first. -/
def interpret (chain : Chain) (flow : Flow ρ) : Json → Exchange → ρ :=
  chain.foldr (fun step behind => step.within { flow with proceed := behind }) flow.proceed

/-- A chain in two parts hands the second one to the first as what comes next. -/
theorem interpret_append (xs ys : Chain) (flow : Flow ρ) :
    interpret (xs ++ ys) flow = interpret xs { flow with proceed := interpret ys flow } := by
  unfold interpret
  rw [List.foldr_append]

theorem interpret_cons (step : NamedHandler) (rest : Chain) (flow : Flow ρ) :
    interpret (step :: rest) flow = step.within { flow with proceed := interpret rest flow } := by
  unfold interpret
  rw [List.foldr_cons]

/-- What the nested steps come to is what the run comes to. -/
theorem interpret_eq (chain : Chain) (flow : Flow ρ) (data : Json) (x : Exchange) :
    interpret chain flow data x = flow.take (run chain data x) := by
  induction chain generalizing data x with
  | nil => rfl
  | cons step rest ih =>
    rw [interpret_cons]
    rcases step.proceeds_or_stops data x with ⟨next, left, proceeds⟩ | ⟨stop, last, stops⟩
    · rw [step.within_of_proceeds _ proceeds, (run_cons_of_proceeds proceeds rest).1]
      exact ih next left
    · rw [step.within_of_stops _ stops, (run_cons_of_stops stops rest).1, Flow.take]

/-- To run a chain is to interpret it in the flow of outcomes. -/
theorem run_eq_interpret (chain : Chain) (data : Json) (x : Exchange) :
    run chain data x = interpret chain .outcome data x := by
  rw [interpret_eq, Flow.take_outcome]

/-! ## Two parts of a chain -/

/-- The second part of a chain runs on what the first one came to, if that was completed. -/
theorem run_append (xs ys : Chain) (data : Json) (x : Exchange) :
    run (xs ++ ys) data x = match run xs data x with
      | (.completed next, left) => run ys next left
      | (.stopped stop, left) => (.stopped stop, left) := by
  rw [run_eq_interpret, interpret_append, interpret_eq xs]
  rcases run xs data x with ⟨next | stop, left⟩
  case completed => exact (run_eq_interpret ys next left).symm
  case stopped => rfl

/-- The steps that run are those of the first part, and then, if it was completed, those of
the second one. -/
theorem trace_append (xs ys : Chain) (data : Json) (x : Exchange) :
    trace (xs ++ ys) data x = trace xs data x ++ match run xs data x with
      | (.completed next, left) => trace ys next left
      | (.stopped _, _) => [] := by
  induction xs generalizing data x with
  | nil => rfl
  | cons step rest ih =>
    rw [List.cons_append]
    rcases step.proceeds_or_stops data x with ⟨next, left, proceeds⟩ | ⟨stop, last, stops⟩
    · rw [(run_cons_of_proceeds proceeds rest).1, (run_cons_of_proceeds proceeds rest).2,
        (run_cons_of_proceeds proceeds _).2, ih, List.cons_append]
    · rw [(run_cons_of_stops stops rest).1, (run_cons_of_stops stops rest).2,
        (run_cons_of_stops stops _).2, List.append_nil]

/-- A chain that is completed has run all of its steps. -/
theorem map_trace_of_completed (completed : run chain data x = (.completed next, left)) :
    (trace chain data x).map (·.1) = chain := by
  induction chain generalizing data x with
  | nil => rfl
  | cons step rest ih =>
    rcases step.proceeds_or_stops data x with ⟨given, mid, proceeds⟩ | ⟨stop, last, stops⟩
    · obtain ⟨ran, traced⟩ := run_cons_of_proceeds proceeds rest
      rw [traced, List.map_cons, ih (ran.symm.trans completed)]
    · rw [(run_cons_of_stops stops rest).1] at completed
      cases completed

/-- A step that does not go on ends the chain: none of the steps behind it runs, and what the
steps in front of it left of the exchange is what it was given. -/
theorem run_of_stops (before after : Chain) (reached : run before data x = (.completed next, left))
    (stops : step.Stops next left stop last) :
    run (before ++ step :: after) data x = (.stopped stop, last) ∧
      trace (before ++ step :: after) data x = trace before data x ++ [(step, next, left)] := by
  rw [run_append, trace_append, reached]
  obtain ⟨ends, ran⟩ := run_cons_of_stops stops after
  exact ⟨ends, congrArg _ ran⟩

/-- Where a chain stops, one of its steps does not go on, and all in front of it do. -/
theorem exists_of_stopped (stopped : run chain data x = (.stopped stop, last)) :
    ∃ before step after next left, chain = before ++ step :: after ∧
      run before data x = (.completed next, left) ∧ step.Stops next left stop last := by
  induction chain generalizing data x with
  | nil => cases stopped
  | cons step rest ih =>
    rcases step.proceeds_or_stops data x with ⟨given, mid, proceeds⟩ | ⟨own, ends, stops⟩
    · rw [(run_cons_of_proceeds proceeds rest).1] at stopped
      obtain ⟨before, halting, after, next, left, rfl, reached, stops⟩ := ih stopped
      refine ⟨step :: before, halting, after, next, left, rfl, ?_, stops⟩
      rw [(run_cons_of_proceeds proceeds before).1, reached]
    · rw [(run_cons_of_stops stops rest).1] at stopped
      cases stopped
      exact ⟨[], step, rest, data, x, rfl, rfl, stops⟩

/-- What a chain comes to, and what it leaves of the exchange, is what its nested steps come
to, whatever the two ways on lead to; the empty chain hands on what it was given. So a chain
of two parts runs the first one, and then, if it was completed, the second one on its value and
on the exchange that it left; otherwise it ends where the first one did. A chain stops exactly
if one of its steps does not go on, with the stop of that step or a bare 500, and on the
exchange that the steps in front of it left; no step behind it runs. -/
theorem run_is_nested_continuations (chain : Chain) (data : Json) (x : Exchange) :
    run chain data x = interpret chain .outcome data x ∧
      (∀ {ρ : Type u} (flow : Flow ρ),
        interpret chain flow data x = flow.take (run chain data x)) ∧
      (run [] data x = (.completed data, x) ∧ trace [] data x = []) ∧
      (∀ xs ys, chain = xs ++ ys →
        (∀ next left, run xs data x = (.completed next, left) →
          run chain data x = run ys next left ∧
          trace chain data x = trace xs data x ++ trace ys next left ∧
          (trace xs data x).map (·.1) = xs) ∧
        (∀ stop left, run xs data x = (.stopped stop, left) →
          run chain data x = (.stopped stop, left) ∧ trace chain data x = trace xs data x)) ∧
      (∀ before step after next left stop last, chain = before ++ step :: after →
        run before data x = (.completed next, left) → step.Stops next left stop last →
        run chain data x = (.stopped stop, last) ∧
          trace chain data x = trace before data x ++ [(step, next, left)] ∧
          (trace chain data x).map (·.1) = before ++ [step]) ∧
      (∀ stop last, run chain data x = (.stopped stop, last) →
        ∃ before step after next left, chain = before ++ step :: after ∧
          run before data x = (.completed next, left) ∧ step.Stops next left stop last) := by
  refine ⟨run_eq_interpret chain data x, fun flow => interpret_eq chain flow data x, ⟨rfl, rfl⟩,
    ?parts, ?stops, fun stop last => exists_of_stopped⟩
  case parts =>
    rintro xs ys rfl
    rw [run_append, trace_append]
    refine ⟨fun next left completed => ?_, fun stop left stopped => ?_⟩
    · rw [completed]
      exact ⟨rfl, rfl, map_trace_of_completed completed⟩
    · rw [stopped]
      exact ⟨rfl, List.append_nil _⟩
  case stops =>
    rintro before step after next left stop last rfl reached stops
    obtain ⟨ends, ran⟩ := run_of_stops before after reached stops
    refine ⟨ends, ran, ?_⟩
    rw [ran, List.map_append, map_trace_of_completed reached, List.map_singleton]

/-- The status that the first step chose remains where the second one returns an error; the
third one, which would break down, does not run. -/
theorem failing_step_ends_its_chain :
    let accept : NamedHandler :=
      ⟨"accept", fun data x => (.proceed data, { x with status := some 202 })⟩
    let check : NamedHandler := ⟨"check", fun _ x => (.fail (.described "refused"), x)⟩
    let report : NamedHandler := ⟨"report", fun _ x => (.panic, x)⟩
    let x : Exchange :=
      ⟨.post, "/orders", .empty, .empty, [], .anonymous, none, .new toString, none⟩
    let accepted : Exchange := { x with status := some 202 }
    run [accept, check, report] .null x = (.stopped ⟨500, none⟩, accepted) ∧
      (trace [accept, check, report] .null x).map (·.1) = [accept, check] := by
  intro accept check report x accepted
  obtain ⟨-, -, -, -, stops, -⟩ := run_is_nested_continuations.{0} [accept, check, report] .null x
  obtain ⟨ends, -, ran⟩ := stops [accept] check [report] .null accepted ⟨500, none⟩ accepted rfl rfl
    (.failed rfl)
  exact ⟨ends, ran⟩

end Chain

end EndpointTree
