import Shapeware.AwsFleetProv.Steps
import Shapeware.Library.History

/-!
# The order of provisioning

What `makeProvisioning` has checked before an operation is read off the list of its operations, and
a promise holds the first value that it was given.
-/

namespace Shapeware.AwsFleetProv

open History

variable {p q : Promise} {trace : List Event} {e : Event}

def Event.valueOf (p : Promise) : Event → Option Bool
  | .result q value => if q = p then some value else none
  | _ => none

/-- The first value that a promise was given: the first answer, or the first response that was
processed to its end. -/
def firstResult (p : Promise) (trace : List Event) : Option Bool :=
  (trace.filterMap (Event.valueOf p)).head?

@[simp] theorem firstResult_append :
    firstResult p (trace ++ [e]) = (firstResult p trace).or (e.valueOf p) := by
  rw [firstResult, List.filterMap_append, List.head?_append]
  cases h : e.valueOf p <;> simp [firstResult, h]

/-- What must have come before an event of `makeProvisioning` or `worker`. -/
def Precondition (before : List Event) : Event → Prop
  | .published .keys =>
    firstResult (.subscribed .keysAccepted) before = some true ∧
      firstResult (.subscribed .keysRejected) before = some true
  | .published .register =>
    firstResult (.responded .keys) before = some true ∧
      firstResult (.subscribed .registerAccepted) before = some true ∧
      firstResult (.subscribed .registerRejected) before = some true
  | .onProvisioned =>
    (∀ r, .published r ∈ before) ∧ ∀ p, firstResult p before = some true
  | _ => True

/-- What an operation that did not throw leaves behind. -/
def Done (trace : List Event) : Op → Prop
  | .check p => firstResult p trace = some true
  | .publish r => .published r ∈ trace
  | _ => True

theorem Done.append {op : Op} (h : Done trace op) : Done (trace ++ [e]) op := by
  cases op with
  | check p =>
      rw [Done] at h
      simp [Done, h]
  | publish r => exact List.mem_append_left _ h
  | _ => trivial

/-- What was done where `worker` is. -/
def Behind (trace : List Event) : WorkerPc → Prop
  | .provisioning rest => DoneBefore makeProvisioning rest (Done trace)
  | .report true => ∀ op ∈ makeProvisioning, Done trace op
  | _ => True

theorem Behind.append {pc : WorkerPc} (h : Behind trace pc) : Behind (trace ++ [e]) pc := by
  cases pc with
  | provisioning rest => exact DoneBefore.mono h fun _ _ hop => hop.append
  | report connected =>
      cases connected with
      | false => trivial
      | true => exact fun op hop => (h op hop).append
  | _ => trivial

theorem precondition_published {r : Request} {rest : List Op}
    (h : DoneBefore makeProvisioning (.publish r :: rest) (Done trace)) :
    Precondition trace (.published r) := by
  have hbefore := h.before
  cases r with
  | keys =>
      exact ⟨hbefore (.check (.subscribed .keysAccepted)) (by decide),
        hbefore (.check (.subscribed .keysRejected)) (by decide)⟩
  | register =>
      exact ⟨hbefore (.check (.responded .keys)) (by decide),
        hbefore (.check (.subscribed .registerAccepted)) (by decide),
        hbefore (.check (.subscribed .registerRejected)) (by decide)⟩

theorem precondition_onProvisioned (h : ∀ op ∈ makeProvisioning, Done trace op) :
    Precondition trace .onProvisioned := by
  refine ⟨fun r => h (.publish r) ?_, fun p => h (.check p) ?_⟩
  · cases r <;> decide
  · cases p with
    | subscribed t => cases t <;> decide
    | sent r | responded r => cases r <;> decide

namespace Imp

variable {s s' : Imp} {a : Action}

structure Ordered (s : Imp) : Prop where
  results : ∀ p, s.promises p = firstResult p s.trace
  behind : Behind s.trace s.worker
  always : Always Precondition s.trace

namespace Ordered

theorem init : Imp.init.Ordered where
  results := fun _ => rfl
  behind := trivial
  always := always_nil

theorem quiet (h : s.Ordered) (hpromises : s'.promises = s.promises) (htrace : s'.trace = s.trace)
    (hbehind : Behind s.trace s'.worker) : s'.Ordered where
  results := by
    rw [hpromises, htrace]
    exact h.results
  behind := by rwa [htrace]
  always := by
    rw [htrace]
    exact h.always

theorem logs {e : Event} (h : s.Ordered) (hpromises : s'.promises = s.promises)
    (htrace : s'.trace = s.trace ++ [e]) (he : ∀ p, e.valueOf p = none)
    (hprecondition : Precondition s.trace e) (hbehind : Behind s.trace s'.worker) :
    s'.Ordered where
  results := fun p => by
    rw [hpromises, htrace, firstResult_append, he p, Option.or_none]
    exact h.results p
  behind := by
    rw [htrace]
    exact hbehind.append
  always := by
    rw [htrace]
    exact always_append_singleton.mpr ⟨h.always, hprecondition⟩

theorem setValue {value : Bool} (h : s.Ordered) : (s.setValue p value).Ordered where
  results := fun q => by
    have hq := h.results q
    change (if s.promises p = none then Function.update s.promises p (some value)
      else s.promises) q = firstResult q (s.trace ++ [.result p value])
    rw [firstResult_append, ← hq, Event.valueOf]
    by_cases hqp : p = q
    · subst hqp
      cases hp : s.promises p <;> simp [hp]
    · rw [if_neg hqp, Option.or_none]
      split_ifs
      · exact Function.update_of_ne (Ne.symm hqp) _ _
      · rfl
  behind := h.behind.append
  always := always_append_singleton.mpr ⟨h.always, trivial⟩

theorem answers {run : Nat} {value : Bool} (h : s.Ordered) :
    (s.answers run p value).Ordered := by
  unfold Imp.answers
  split_ifs
  · exact h.setValue
  · exact h

theorem goes {pc pc' : WorkerPc} (h : s.Ordered) (hbehind : Behind s.trace pc)
    (hgoes : s.Goes pc pc') : Behind s.trace pc' := by
  cases hgoes with
  | isConnected => exact .start _ _
  | @passes op rest hop =>
      refine DoneBefore.next hbehind ?_
      cases op with
      | check p => exact (h.results p).symm.trans hop
      | publish r => exact hop.elim
      | _ => trivial
  | isProvisioned => exact DoneBefore.all hbehind
  | _ => trivial

theorem throws {pc pc' : WorkerPc} (hthrows : s.ThrowsTo pc pc') : Behind s.trace pc' := by
  cases hthrows <;> trivial

theorem works (h : s.Ordered) (hworks : s.Works s') : s'.Ordered := by
  have hbehind := h.behind
  cases hworks with
  | goes hpc hgoes => exact h.quiet rfl rfl (h.goes (hpc ▸ hbehind) hgoes)
  | throws hpc hthrows =>
      exact h.logs rfl rfl (fun _ => rfl) trivial (throws hthrows)
  | creates hpc | callsOnError hpc | catches hpc =>
      exact h.logs rfl rfl (fun _ => rfl) trivial trivial
  | cannotConnect hpc => exact h.logs rfl rfl (fun _ => rfl) trivial trivial
  | connects hpc | cancelErases hpc | callsNobody hpc | destroys hpc =>
      exact h.quiet rfl rfl trivial
  | storesHandler hpc | readsToken hpc | readsCertificateId hpc | erasesHandler hpc =>
      rw [hpc] at hbehind
      exact h.quiet rfl rfl (DoneBefore.next hbehind trivial)
  | publishes hpc =>
      rw [hpc] at hbehind
      refine ⟨fun p => ?_, DoneBefore.next (DoneBefore.mono hbehind fun _ _ hop => hop.append) ?_,
        always_append_singleton.mpr ⟨h.always, precondition_published hbehind⟩⟩
      · exact (h.results p).trans (by simp [log, goto, Event.valueOf])
      · exact List.mem_append_right _ (List.mem_singleton_self _)
  | callsOnProvisioned hpc =>
      rw [hpc] at hbehind
      exact h.logs rfl rfl (fun _ => rfl) (precondition_onProvisioned hbehind) trivial

theorem handles {source : Source} {op : MessageOp} (h : s.Ordered) :
    (s.handles source op).Ordered := by
  cases op with
  | setValue r accepted => exact h.answers
  | _ => exact h.quiet rfl rfl h.behind

theorem step (h : s.Ordered) (hsteps : s.Steps a s') : s'.Ordered := by
  cases hsteps with
  | works hworks => exact h.works hworks
  | wakes hpc => exact h.quiet rfl rfl trivial
  | stays => exact h
  | registers | callsOnConnect | callsOnMessage | onConnectReturns | onMessageReturns
  | onMessageThrows | activates | deactivates => exact h.quiet rfl rfl h.behind
  | startsWorker => exact ⟨fun _ => rfl, trivial, always_nil⟩
  | stops => exact ⟨fun _ => rfl, trivial, always_nil⟩
  | answersSubscribe | answersSend =>
      exact answers (h.quiet rfl rfl h.behind)
  | setsConnected =>
      unfold Imp.wakes
      split
      · exact h.quiet rfl rfl trivial
      · exact h.quiet rfl rfl h.behind
  | @handles source op =>
      have hhandled : (s.handles source op).Ordered := h.handles
      exact hhandled.quiet rfl rfl hhandled.behind

end Ordered

theorem ordered_of_reachable (h : Runs.Reachable step (fun _ _ => True) init s) : s.Ordered :=
  h.invariant Ordered .init fun _ _ _ hs _ hstep => hs.step (step_cases hstep)

/-- In every run, whatever the library thread does, each request is published and `m_onProvisioned`
is called only after all that it needs. -/
theorem provisioning_order (h : Runs.Reachable step (fun _ _ => True) init s) :
    Always Precondition s.trace :=
  (ordered_of_reachable h).always

theorem provisioning_order_success :
    ∃ s : Imp, .onProvisioned ∈ s.trace ∧ Always Precondition s.trace := by
  have hrun : ∃ s, Runs.Reachable step (fun _ _ => True) init s ∧ .onProvisioned ∈ s.trace :=
    Runs.exists_reachable
      (List.flatten [[.launchProvisioning true true], Action.connects, Action.createsKeys,
        Action.asksToRegister, Action.isRegistered])
      (by decide +kernel)
  obtain ⟨s, hreach, hcalled⟩ := hrun
  exact ⟨s, hcalled, provisioning_order hreach⟩

end Imp

end Shapeware.AwsFleetProv
