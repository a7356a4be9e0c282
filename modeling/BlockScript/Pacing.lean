/-!
# Pacing

## What is here

* `Pacing` — how long a run rests between its steps, in milliseconds, so that it can be watched.
* `Pacing.standard` and `Pacing.instant` — the usual rests, and none.
-/

set_option autoImplicit false
namespace BlockScript

/-- The rests of a run, in milliseconds. -/
structure Pacing where
  /-- After a move and after each iteration of a loop. -/
  step : Nat
  /-- After the target has been eaten. -/
  celebration : Nat
  deriving DecidableEq, Repr

namespace Pacing

/-- The usual rests. -/
def standard : Pacing := ⟨300, 1000⟩

/-- No rests at all. -/
def instant : Pacing := ⟨0, 0⟩

instance : Inhabited Pacing := ⟨standard⟩

end Pacing
end BlockScript
