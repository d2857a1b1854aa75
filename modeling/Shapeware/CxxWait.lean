import Mathlib

/-!
# Waiting on a condition variable

A `std::condition_variable` waits with a predicate, which it tests with the mutex held. A thread
that finds it false blocks and gives the mutex up in one go, so a notification before that is missed
and one after that is not. A thread can also wake up without a notification.
-/

namespace Shapeware

/-- Where a thread is in `wait(lck, predicate)`. -/
inductive Wait
  | test
  | block
  | blocked
  | relock
deriving DecidableEq

namespace Wait

def holdsMux : Wait → Bool
  | .test | .block => true
  | .blocked | .relock => false

def notified : Wait → Wait
  | .blocked => .relock
  | w => w

/-- Only a thread that has given the mutex up notices a notification. -/
theorem notified_eq {w : Wait} (hholds : w.holdsMux = true) : w.notified = w := by
  cases w with
  | test | block => rfl
  | blocked | relock => cases hholds

/-- The steps of a wait that is not over. -/
inductive Goes (predicate : Bool) : Wait → Wait → Prop
  | block (hfalse : predicate = false) : Goes predicate .test .block
  | sleep : Goes predicate .block .blocked
  | retest : Goes predicate .relock .test

end Wait

end Shapeware
