/-!
# Results that are values

What can fail gives a value or an error.  Where it is made of several steps, an error of any step is
the error of the whole.  So a value at the end says that there was a value at every step.

## What is here

* `map_eq_ok` and `bind_eq_ok` — the values that a value came from.
-/

set_option autoImplicit false
namespace BlockScript

variable {ε α β : Type} {result : Except ε α} {value : β}

/-- A value that was changed was a value before. -/
theorem map_eq_ok {f : α → β} (h : result.map f = .ok value) :
    ∃ given, result = .ok given ∧ f given = value := by
  cases result with
  | error error => cases h
  | ok given => exact ⟨given, rfl, Except.ok.inj h⟩

/-- A value of two steps is a value of the first one, and of the second one after it. -/
theorem bind_eq_ok {next : α → Except ε β} (h : result >>= next = .ok value) :
    ∃ given, result = .ok given ∧ next given = .ok value := by
  cases result with
  | error error => cases h
  | ok given => exact ⟨given, rfl, h⟩

end BlockScript
