import Mathlib.Logic.Function.Basic

/-!
# Thread states (include/task.h:18-27) and `wake_up` (src/sched.c:371-383)
-/

namespace RedMagic.Sched

/-- `thread_state_t`. -/
inductive Status where
  | init
  | ready
  | running
  | blocked
  | complete
deriving DecidableEq, Repr

variable {τ : Type} [DecidableEq τ]

/-- `wake_up`: only a blocked thread changes. -/
def wakeUp (status : τ → Status) (t : τ) : τ → Status :=
  if status t = .blocked then Function.update status t .ready else status

theorem wakeUp_self_ne_blocked (status : τ → Status) (t : τ) : wakeUp status t t ≠ .blocked := by
  unfold wakeUp
  split
  · simp
  · assumption

theorem wakeUp_of_ne (status : τ → Status) {t u : τ} (h : u ≠ t) : wakeUp status t u = status u := by
  unfold wakeUp
  split
  · exact Function.update_of_ne h ..
  · rfl

end RedMagic.Sched
