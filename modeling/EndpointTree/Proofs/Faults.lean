/-!
# Results that may be faults

One step that succeeds behind another means that both do, and a result that is no value is a
fault.
-/

namespace EndpointTree

variable {ε α β : Type}

/-- Two steps succeed only where both do. -/
theorem exists_of_bind_eq_ok {x : Except ε α} {f : α → Except ε β} {b : β}
    (bound : x >>= f = .ok b) : ∃ a, x = .ok a ∧ f a = .ok b := by
  cases x with
  | error fault => cases bound
  | ok a => exact ⟨a, rfl, bound⟩

theorem bind_eq_ok {x : Except ε α} {f : α → Except ε β} {a : α} {b : β}
    (first : x = .ok a) (next : f a = .ok b) : x >>= f = .ok b := by
  rw [first]
  exact next

/-- A mapped result succeeds only where the result does. -/
theorem exists_of_map_eq_ok {x : Except ε α} {f : α → β} {b : β}
    (mapped : x.map f = .ok b) : ∃ a, x = .ok a ∧ f a = b := by
  cases x with
  | error fault => cases mapped
  | ok a => exact ⟨a, rfl, Except.ok.inj mapped⟩

/-- A result that is no value is a fault. -/
theorem exists_error_of_forall_ne {x : Except ε α} (refused : ∀ a, x ≠ .ok a) :
    ∃ fault, x = .error fault := by
  cases x with
  | error fault => exact ⟨fault, rfl⟩
  | ok a => exact absurd rfl (refused a)

end EndpointTree
