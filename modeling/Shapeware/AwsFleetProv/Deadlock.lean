import Shapeware.AwsFleetProv.Steps

/-!
# Deadlocks of fleet provisioning

`worker` holds `m_workMtx` as long as `makeProvisioning` runs, and the handler of every reconnect
waits for that mutex, on the thread that has to set the promises. It holds `m_provisioningDataMtx`
while it calls `m_onProvisioned` or `m_onError`.
-/

namespace Shapeware.AwsFleetProv

def Callback.inOnConnect : Callback → Bool
  | .onConnect _ => true
  | _ => false

/-- If nothing throws but a promise with a negative answer, the operations come to a promise without
a value. -/
def comesToWait (promises : Promise → Option Bool) : List Op → Bool
  | [] => false
  | .get p :: rest => (promises p).isNone || comesToWait promises rest
  | .check p :: rest => promises p == some true && comesToWait promises rest
  | _ :: rest => comesToWait promises rest

namespace Imp

variable {s s' : Imp} {a : Action} {rest : List Op}

/-- `worker` waits for a promise that has no value. -/
def WaitsForPromise (s : Imp) : Prop :=
  ∃ p rest, s.worker = .provisioning (.get p :: rest) ∧ s.promises p = none

/-- The library thread waits for `m_workMtx`. -/
def BlockedOnWorkMtx (s : Imp) : Prop :=
  s.callback.inOnConnect = true ∧ s.worker.holdsWorkMtx = true

structure DeadlockFree (s : Imp) : Prop where
  promise : ¬ (s.WaitsForPromise ∧ s.BlockedOnWorkMtx)
  handler : s.worker.inApplicationHandler = true → s.worker.holdsProvisioningDataMtx = false

/-- No reconnect is reported while a promise is still to come, and nobody is called with
`m_provisioningDataMtx` held. -/
def undisturbed (s : Imp) : Action → Bool
  | .connected =>
    match s.worker with
    | .provisioning rest => !comesToWait s.promises rest
    | _ => true
  | .worker _ =>
    match s.worker with
    | .wait .test | .wait .timedOut =>
      !(s.connected && s.callback.inOnConnect && comesToWait s.promises makeProvisioning)
    | .report connected => !(if connected then s.onProvisioned else s.onError)
    | _ => true
  | _ => true

structure Calm (s : Imp) : Prop where
  promise : s.callback.inOnConnect = true → ∀ rest, s.worker = .provisioning rest →
    comesToWait s.promises rest = false
  handler : ∀ connected, s.worker ≠ .inHandler connected

theorem Calm.deadlockFree (h : s.Calm) : s.DeadlockFree where
  promise := by
    rintro ⟨⟨p, rest, hpc, hp⟩, hcallback, -⟩
    have hwait := h.promise hcallback _ hpc
    simp [comesToWait, hp] at hwait
  handler := by
    intro happlication
    cases hpc : s.worker with
    | inHandler connected => exact absurd hpc (h.handler connected)
    | _ => rfl

namespace Calm

theorem away (hcallback : s'.callback.inOnConnect = false)
    (hhandler : ∀ connected, s'.worker ≠ .inHandler connected) : s'.Calm :=
  ⟨fun h => absurd (hcallback.symm.trans h) (by simp), hhandler⟩

theorem moves (h : s.Calm) (hcallback : s'.callback = s.callback)
    (hpromises : s'.promises = s.promises) (hhandler : ∀ connected, s'.worker ≠ .inHandler connected)
    (hrest : s.callback.inOnConnect = true → ∀ rest', s'.worker = .provisioning rest' →
      comesToWait s.promises rest' = true →
        ∃ rest, s.worker = .provisioning rest ∧ comesToWait s.promises rest = true) : s'.Calm := by
  refine ⟨fun hin rest' hpc' => ?_, hhandler⟩
  rw [hcallback] at hin
  rw [hpromises]
  refine eq_false_of_ne_true fun hwait => ?_
  obtain ⟨rest, hpc, hwaits⟩ := hrest hin rest' hpc' hwait
  exact absurd ((h.promise hin rest hpc).symm.trans hwaits) (by simp)

theorem passes {op : Op} (hop : s.Passes op) (h : comesToWait s.promises rest = true) :
    comesToWait s.promises (op :: rest) = true := by
  cases op with
  | check p =>
      rw [Passes] at hop
      simp [comesToWait, hop, h]
  | _ => simp [comesToWait, h]

theorem works {outcome : Outcome} (h : s.Calm)
    (hundisturbed : s.undisturbed (.worker outcome) = true) (hworks : s.Works s') : s'.Calm := by
  cases hworks with
  | @goes pc pc' hpc hgoes =>
      cases hgoes with
      | isConnected hw hconnected =>
          refine h.moves rfl rfl nofun fun hin rest' hpc' hwait => ?_
          cases hpc'
          obtain rfl | rfl := hw <;>
            simp [undisturbed, hpc, hconnected, hin, hwait] at hundisturbed
      | passes hop =>
          refine h.moves rfl rfl nofun fun _ rest' hpc' hwait => ⟨_, hpc, ?_⟩
          cases hpc'
          exact passes hop hwait
      | _ => exact h.moves rfl rfl nofun nofun
  | throws hpc hthrows => cases hthrows <;> exact h.moves rfl rfl nofun nofun
  | storesHandler hpc | readsToken hpc | readsCertificateId hpc | publishes hpc | erasesHandler hpc =>
      refine h.moves rfl rfl nofun fun _ rest' hpc' hwait => ⟨_, hpc, ?_⟩
      cases hpc'
      exact hwait
  | callsOnProvisioned hpc hhandler | callsOnError hpc hhandler =>
      simp [undisturbed, hpc, hhandler] at hundisturbed
  | _ => exact h.moves rfl rfl nofun nofun

theorem step (h : s.Calm) (hundisturbed : s.undisturbed a = true) (hsteps : s.Steps a s') :
    s'.Calm := by
  cases hsteps with
  | works hworks => exact h.works hundisturbed hworks
  | wakes hpc => exact h.moves rfl rfl nofun nofun
  | stays => exact h
  | registers | activates | deactivates => exact ⟨h.promise, h.handler⟩
  | startsWorker => exact ⟨fun _ => nofun, nofun⟩
  | stops => exact away rfl nofun
  | callsOnConnect =>
      refine ⟨fun _ rest hpc => ?_, h.handler⟩
      change s.worker = _ at hpc
      simpa [undisturbed, hpc] using hundisturbed
  | answersSubscribe hcall | answersSend hcall =>
      unfold Imp.answers
      split_ifs <;> exact away (by simp [setValue, hcall.2, Callback.inOnConnect]) h.handler
  | callsOnMessage | onConnectReturns | onMessageReturns | onMessageThrows => exact away rfl h.handler
  | setsConnected =>
      refine away rfl ?_
      unfold Imp.wakes
      split
      · nofun
      · exact h.handler
  | @handles source op =>
      refine away rfl ?_
      cases op with
      | setValue r accepted =>
          unfold Imp.handles Imp.answers
          split_ifs <;> exact h.handler
      | _ => exact h.handler

end Calm

/-! ### What the condition leaves out -/

/-- Neither a wait nor a negative answer. -/
def Ready (s : Imp) : Op → Prop
  | .get p => s.promises p ≠ none
  | .check p => s.promises p = some true
  | _ => True

theorem comesToWait_cons {op : Op} (h : comesToWait s.promises (op :: rest) = true) :
    (∃ p, op = .get p ∧ s.promises p = none) ∨
      s.Ready op ∧ comesToWait s.promises rest = true := by
  cases op with
  | get p =>
      cases hp : s.promises p with
      | none => exact .inl ⟨p, rfl, hp⟩
      | some value => exact .inr ⟨by simp [Ready, hp], by simpa [comesToWait, hp] using h⟩
  | check p => exact .inr (by simpa [comesToWait, Ready] using h)
  | _ => exact .inr ⟨trivial, h⟩

theorem performs_of_ready {op : Op} (rest : List Op) (hmessage : s.callback.inMessage = false)
    (hop : s.Ready op) : ∃ t, s.performs .ok rest op = some t ∧ t.worker = .provisioning rest ∧
      t.callback = s.callback ∧ t.promises = s.promises := by
  cases op with
  | get p => exact ⟨s.goto (.provisioning rest), if_neg hop, rfl, rfl, rfl⟩
  | check p => exact ⟨s.goto (.provisioning rest), congrArg some (if_pos hop), rfl, rfl, rfl⟩
  | storeHandler t | eraseHandler t =>
      exact ⟨_, if_neg (by simp [hmessage]), rfl, rfl, rfl⟩
  | _ => exact ⟨_, rfl, rfl, rfl, rfl⟩

/-- Nothing but a promise can stop `worker` on its way to it. -/
theorem leads_to_wait (hcallback : s.callback.inOnConnect = true)
    (hpc : s.worker = .provisioning rest) (hwait : comesToWait s.promises rest = true) :
    Runs.Leads step (fun _ _ => True) s fun t => ¬ t.DeadlockFree := by
  induction rest generalizing s with
  | nil => simp [comesToWait] at hwait
  | cons op rest ih =>
      obtain ⟨p, rfl, hp⟩ | ⟨hop, hrest⟩ := comesToWait_cons hwait
      · refine Runs.leads_of_mem fun hfree => hfree.promise ⟨⟨p, rest, hpc, hp⟩, hcallback, ?_⟩
        rw [hpc]
        rfl
      · have hmessage : s.callback.inMessage = false := by
          cases h : s.callback with
          | onMessage source rest => simp [h, Callback.inOnConnect] at hcallback
          | _ => rfl
        obtain ⟨t, hperforms, hworker, hcallback', hpromises⟩ :=
          performs_of_ready rest hmessage hop
        have hstep : s.step (.worker .ok) = some t := by simpa [step, works, hpc] using hperforms
        exact .head trivial hstep
          (ih (hcallback' ▸ hcallback) hworker (hpromises ▸ hrest))

theorem leads_from_wait {outcome : Outcome} {w : TimedWait} (hpc : s.worker = .wait w)
    (hw : w = .test ∨ w = .timedOut) (hstep : s.step (.worker outcome) = some s')
    (hdisturbed : s.undisturbed (.worker outcome) = false) :
    Runs.Leads step (fun _ _ => True) s' fun t => ¬ t.DeadlockFree := by
  obtain ⟨⟨hconnected, hcallback⟩, hwait⟩ : (s.connected = true ∧ s.callback.inOnConnect = true) ∧
      comesToWait s.promises makeProvisioning = true := by
    obtain rfl | rfl := hw <;> simpa [undisturbed, hpc] using hdisturbed
  obtain rfl : s.goto (.provisioning makeProvisioning) = s' := by
    obtain rfl | rfl := hw <;> simpa [step, works, hpc, hconnected] using hstep
  exact leads_to_wait hcallback rfl hwait

/-- From where a step that the condition leaves out leads, a deadlock can be reached. -/
theorem leads_to_deadlock (hstep : s.step a = some s') (hdisturbed : s.undisturbed a = false) :
    Runs.Leads step (fun _ _ => True) s' fun t => ¬ t.DeadlockFree := by
  cases a with
  | connected =>
      cases hpc : s.worker with
      | provisioning rest =>
          rw [step] at hstep
          split_ifs at hstep
          obtain ⟨run, -, rfl⟩ := Option.map_eq_some_iff.mp hstep
          exact leads_to_wait rfl hpc (by simpa [undisturbed, hpc] using hdisturbed)
      | _ => simp [undisturbed, hpc] at hdisturbed
  | worker outcome =>
      cases hpc : s.worker with
      | wait w =>
          cases w with
          | test => exact leads_from_wait hpc (.inl rfl) hstep hdisturbed
          | timedOut => exact leads_from_wait hpc (.inr rfl) hstep hdisturbed
          | _ => simp [undisturbed, hpc] at hdisturbed
      | report connected =>
          have hhandler : (if connected then s.onProvisioned else s.onError) = true := by
            simpa [undisturbed, hpc] using hdisturbed
          have hcalls : s'.worker = .inHandler connected := by
            rw [step, works, hpc] at hstep
            cases hstep
            cases connected <;> simp_all [reports, goto]
          refine Runs.leads_of_mem fun hfree => ?_
          have hmutex := hfree.handler (by rw [hcalls]; rfl)
          rw [hcalls] at hmutex
          cases hmutex
      | _ => simp [undisturbed, hpc] at hdisturbed
  | _ => cases hdisturbed

instance (s : Imp) : Decidable s.BlockedOnWorkMtx := inferInstanceAs (Decidable (_ ∧ _))

end Imp

end Shapeware.AwsFleetProv
