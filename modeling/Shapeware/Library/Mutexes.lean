import Shapeware.Library.Runs

/-!
# Callbacks under mutexes

A component calls handlers that its user gave it, and offers methods that lock its mutexes. A mutex
is not recursive: a thread that locks a mutex it holds itself waits for ever. What matters is which
mutexes a thread holds while it runs a handler, since the handler may call any of the methods.
-/

namespace Mutexes

/-- A machine whose steps are taken by threads or by its environment, with what is seen of its
mutexes and of its handlers. -/
structure Component (σ α T M H P : Type*) where
  init : σ
  step : σ → α → Option σ
  /-- The thread that takes a step, if a thread of the component does. -/
  actor : α → Option T
  owner : σ → M → Option T
  /-- The handler that a thread is running. -/
  running : σ → T → Option H
  /-- The mutexes that a method locks, one after the other. -/
  locks : P → List M

namespace Component

variable {σ α T M H P : Type*} (C : Component σ α T M H P)

def Reaches (s : σ) : Prop := Runs.Reachable C.step (fun _ _ => True) C.init s

/-- No thread that runs a handler holds a mutex that a method locks. -/
def FreeHandlers (s : σ) : Prop :=
  ∀ t h, C.running s t = some h → ∀ p, ∀ m ∈ C.locks p, C.owner s m ≠ some t

/-- The call of a method would wait for a mutex that its own thread holds, whatever the others do
while it waits. -/
def SelfDeadlocks (s : σ) (t : T) (p : P) : Prop :=
  ∃ m ∈ C.locks p, ∀ s', Runs.Reachable C.step (fun _ a => C.actor a ≠ some t) s s' →
    C.owner s' m = some t

/-- Handlers run under one mutex, which some method locks. -/
structure CallsUnder (under : H → M) : Prop where
  owner_iff : ∀ s, C.Reaches s → ∀ t h, C.running s t = some h →
    ∀ m, C.owner s m = some t ↔ m = under h
  /-- Only its owner unlocks a mutex. -/
  keeps : ∀ s a s' t m, C.Reaches s → C.step s a = some s' → C.actor a ≠ some t →
    C.owner s m = some t → C.owner s' m = some t
  locked : ∀ h, ∃ p, under h ∈ C.locks p

/-- No handler ever runs free of the mutexes, and the handlers that call a method deadlock exactly if
it locks the mutex they run under. -/
def HandlersDeadlock (under : H → M) : Prop :=
  ∀ s, C.Reaches s → (C.FreeHandlers s ↔ ∀ t, C.running s t = none) ∧
    ∀ t h p, C.running s t = some h → (C.SelfDeadlocks s t p ↔ under h ∈ C.locks p)

variable {C} {under : H → M} {s : σ} {t : T} {h : H} {p : P} {m : M}

namespace CallsUnder

/-- While its owner waits, a mutex stays locked. -/
theorem owner_of_reachable (hC : C.CallsUnder under) (hs : C.Reaches s)
    (howner : C.owner s m = some t) {s' : σ}
    (hrun : Runs.Reachable C.step (fun _ a => C.actor a ≠ some t) s s') :
    C.owner s' m = some t := by
  refine hrun.invariant_of_reachable (fun s' => C.owner s' m = some t) howner
    fun s₁ a s₂ hs₁ hheld hother hstep => ?_
  have hreach : C.Reaches s₁ := hs.trans (hs₁.mono fun _ _ _ => trivial)
  exact hC.keeps s₁ a s₂ t m hreach hstep hother hheld

theorem freeHandlers_iff (hC : C.CallsUnder under) (hs : C.Reaches s) :
    C.FreeHandlers s ↔ ∀ t, C.running s t = none := by
  constructor
  · intro hfree t
    by_contra hrunning
    obtain ⟨h, hh⟩ := Option.ne_none_iff_exists'.mp hrunning
    obtain ⟨p, hp⟩ := hC.locked h
    exact hfree t h hh p (under h) hp ((hC.owner_iff s hs t h hh _).mpr rfl)
  · intro hnone t h hh
    exact absurd hh (by simp [hnone t])

/-- A handler deadlocks on the methods that lock the mutex it runs under. -/
theorem selfDeadlocks_iff (hC : C.CallsUnder under) (hs : C.Reaches s)
    (hrunning : C.running s t = some h) : C.SelfDeadlocks s t p ↔ under h ∈ C.locks p := by
  constructor
  · rintro ⟨m, hm, hheld⟩
    obtain rfl := (hC.owner_iff s hs t h hrunning m).mp (hheld s .refl)
    exact hm
  · intro hm
    refine ⟨under h, hm, fun s' hrun => hC.owner_of_reachable hs ?_ hrun⟩
    exact (hC.owner_iff s hs t h hrunning _).mpr rfl

theorem deadlocksUnder (hC : C.CallsUnder under) : C.HandlersDeadlock under := fun _ hs =>
  ⟨hC.freeHandlers_iff hs, fun _ _ _ => hC.selfDeadlocks_iff hs⟩

end CallsUnder

end Component

end Mutexes
