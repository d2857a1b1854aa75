import Shapeware.AwsFleetProv.Steps
import Shapeware.Library.History

/-!
# Subscriptions and their messages

The handlers that `MqttService` knows, and the message that is being handled, belong to the run that
has created the client. `makeProvisioning` ends without them.
-/

namespace Shapeware.AwsFleetProv

open History

namespace WorkerPc

def hasClient : WorkerPc → Bool
  | .lockWork | .testCertFile | .testKeyFile | .createClient => false
  | .caught | .inOnError | .returned | .escaped => false
  | _ => true

end WorkerPc

theorem erases_of_stores {t : Topic} {rest : List Op}
    (h : Op.storeHandler t :: rest <:+ makeProvisioning) : Op.eraseHandler t ∈ rest :=
  of_suffix (P := fun op rest => op = .storeHandler t → .eraseHandler t ∈ rest)
    (by cases t <;> decide) h rfl

/-- Which handlers are there at each point of `worker`, and whether a message can be in progress. -/
def Subscribed (handlers : Topic → Option Nat) (inMessage : Bool) : WorkerPc → Prop
  | .provisioning rest =>
    rest <:+ makeProvisioning ∧ (∀ t, .eraseHandler t ∉ rest → handlers t = none) ∧
      ((∀ t, .eraseHandler t ∉ rest) → inMessage = false)
  | .setConnected | .setCallbacks | .connect | .wait _ => (∀ t, handlers t = none) ∧ inMessage = false
  | .report _ | .inHandler _ | .disconnect | .destroy => (∀ t, handlers t = none) ∧ inMessage = false
  | _ => True

namespace Subscribed

variable {handlers : Topic → Option Nat} {inMessage : Bool} {pc : WorkerPc} {op : Op}
  {rest : List Op} {t : Topic}

theorem of_idle (h : Subscribed handlers inMessage pc) : Subscribed handlers false pc := by
  cases pc with
  | provisioning rest => exact ⟨h.1, h.2.1, fun _ => rfl⟩
  | setConnected | setCallbacks | connect | wait w | report c | inHandler c | disconnect | destroy =>
      exact ⟨h.1, rfl⟩
  | _ => trivial

theorem begin {run : Nat} (h : Subscribed handlers inMessage pc) (hhandler : handlers t = some run) :
    Subscribed handlers true pc := by
  have hnone (hnone : handlers t = none) : False := by simp [hhandler] at hnone
  cases pc with
  | provisioning rest => exact ⟨h.1, h.2.1, fun herased => (hnone (h.2.1 t (herased t))).elim⟩
  | setConnected | setCallbacks | connect | wait w | report c | inHandler c | disconnect | destroy =>
      exact (hnone (h.1 t)).elim
  | _ => trivial

theorem next (h : Subscribed handlers inMessage (.provisioning (op :: rest)))
    (hop : ∀ t, op ≠ .eraseHandler t) : Subscribed handlers inMessage (.provisioning rest) := by
  have hkept (t) (hrest : .eraseHandler t ∉ rest) : .eraseHandler t ∉ op :: rest :=
    List.not_mem_cons_of_ne_of_not_mem (Ne.symm (hop t)) hrest
  exact ⟨(List.suffix_cons op rest).trans h.1, fun t hrest => h.2.1 t (hkept t hrest),
    fun hrest => h.2.2 fun t => hkept t (hrest t)⟩

theorem store {run : Nat} (h : Subscribed handlers inMessage (.provisioning (.storeHandler t :: rest))) :
    Subscribed (Function.update handlers t (some run)) inMessage (.provisioning rest) := by
  obtain ⟨hsuffix, hhandlers, hmessage⟩ := h.next (by simp)
  refine ⟨hsuffix, fun t' hrest => ?_, hmessage⟩
  have hne : t' ≠ t := by
    rintro rfl
    exact hrest (erases_of_stores h.1)
  rw [Function.update_of_ne hne]
  exact hhandlers t' hrest

theorem erase (h : Subscribed handlers inMessage (.provisioning (.eraseHandler t :: rest))) :
    Subscribed (Function.update handlers t none) false (.provisioning rest) := by
  refine ⟨(List.suffix_cons _ _).trans h.1, fun t' hrest => ?_, fun _ => rfl⟩
  by_cases hne : t' = t
  · subst hne
    exact Function.update_self ..
  · rw [Function.update_of_ne hne]
    exact h.2.1 t' (List.not_mem_cons_of_ne_of_not_mem (by simp [hne]) hrest)

end Subscribed

namespace Imp

variable {s s' : Imp} {a : Action} {pc pc' : WorkerPc}

structure Owned (s : Imp) : Prop where
  client : s.worker.hasClient = true → s.client = some s.run
  handlers : ∀ t q, s.handlers t = some q → s.client = some q
  message : ∀ source rest, s.callback = .onMessage source rest → s.client = some source.run
  subscribed : Subscribed s.handlers s.callback.inMessage s.worker

theorem Goes.subscribed {handlers : Topic → Option Nat} {inMessage : Bool} (hgoes : s.Goes pc pc')
    (h : Subscribed handlers inMessage pc) : Subscribed handlers inMessage pc' := by
  cases hgoes with
  | isConnected => exact ⟨List.suffix_rfl, fun t _ => h.1 t, fun _ => h.2⟩
  | @passes op rest hop =>
      refine h.next fun t => ?_
      rintro rfl
      exact hop
  | isProvisioned => exact ⟨fun t => h.2.1 t List.not_mem_nil, h.2.2 fun _ => List.not_mem_nil⟩
  | timesOut | setsConnected | setsCallbacks | waits | handlerReturns | disconnects => exact h
  | _ => trivial

theorem Goes.hasClient (hgoes : s.Goes pc pc') (h : pc'.hasClient = true) :
    pc.hasClient = true := by
  cases hgoes <;> first | rfl | cases h

theorem ThrowsTo.hasClient (hthrows : s.ThrowsTo pc pc') (h : pc'.hasClient = true) :
    pc.hasClient = true := by
  cases hthrows <;> first | rfl | cases h

theorem ThrowsTo.subscribed {handlers : Topic → Option Nat} {inMessage : Bool}
    (hthrows : s.ThrowsTo pc pc') : Subscribed handlers inMessage pc' := by
  cases hthrows <;> trivial

namespace Owned

theorem init : Imp.init.Owned where
  client := nofun
  handlers := nofun
  message := nofun
  subscribed := trivial

/-- Without a client there is no handler, and no message in progress. -/
theorem of_client_none (h : s.Owned) (hclient : s.client = none) :
    (∀ t, s.handlers t = none) ∧ s.callback.inMessage = false := by
  constructor
  · intro t
    cases hhandler : s.handlers t with
    | none => rfl
    | some q => exact absurd ((h.handlers t q hhandler).symm.trans hclient) (by simp)
  · cases hcallback : s.callback with
    | onMessage source rest =>
        exact absurd ((h.message source rest hcallback).symm.trans hclient) (by simp)
    | _ => rfl

theorem moves (h : s.Owned) (hrun : s'.run = s.run) (hclient : s'.client = s.client)
    (hhandlers : s'.handlers = s.handlers)
    (hcallback : s'.callback = s.callback ∨ s'.callback.inMessage = false)
    (hpc : s'.worker.hasClient = true → s.worker.hasClient = true)
    (hsubscribed : ∀ inMessage, Subscribed s.handlers inMessage s.worker →
      Subscribed s.handlers inMessage s'.worker) : s'.Owned where
  client := by
    rw [hrun, hclient]
    exact h.client ∘ hpc
  handlers := by
    rw [hhandlers, hclient]
    exact h.handlers
  message := by
    rw [hclient]
    exact fun source rest hmessage => h.message source rest (onMessage_of_moves hcallback hmessage)
  subscribed := by
    rw [hhandlers]
    obtain hcallback | hidle := hcallback
    · rw [hcallback]
      exact hsubscribed _ h.subscribed
    · rw [hidle]
      exact hsubscribed _ h.subscribed.of_idle

theorem erases {t : Topic} (h : s.Owned) (hrun : s'.run = s.run) (hclient : s'.client = s.client)
    (hhandlers : s'.handlers = Function.update s.handlers t none)
    (hcallback : s'.callback = s.callback) (hpc : s.worker.hasClient = true)
    (hsubscribed : Subscribed (Function.update s.handlers t none) s.callback.inMessage s'.worker) :
    s'.Owned where
  client := by
    rw [hrun, hclient]
    exact fun _ => h.client hpc
  handlers := by
    rw [hhandlers, hclient]
    intro t' q hhandler
    by_cases hne : t' = t
    · subst hne
      simp at hhandler
    · rw [Function.update_of_ne hne] at hhandler
      exact h.handlers t' q hhandler
  message := by
    rw [hclient, hcallback]
    exact h.message
  subscribed := by
    rw [hhandlers, hcallback]
    exact hsubscribed

theorem works (h : s.Owned) (hworks : s.Works s') : s'.Owned := by
  have hsubscribed := h.subscribed
  cases hworks with
  | goes hpc hgoes =>
      subst hpc
      exact h.moves rfl rfl rfl (.inl rfl) hgoes.hasClient fun _ => hgoes.subscribed
  | throws hpc hthrows =>
      subst hpc
      exact h.moves rfl rfl rfl (.inl rfl) hthrows.hasClient fun _ _ => hthrows.subscribed
  | creates hpc hclient =>
      obtain ⟨hhandlers, hmessage⟩ := h.of_client_none hclient
      refine ⟨fun _ => rfl, fun t q hhandler => ?_, fun source rest hcallback => ?_,
        ⟨hhandlers, hmessage⟩⟩
      · exact absurd ((hhandlers t).symm.trans hhandler) (by simp)
      · exact absurd ((h.message source rest hcallback).symm.trans hclient) (by simp)
  | connects hpc | callsNobody hpc | callsOnProvisioned hpc | callsOnError hpc =>
      exact h.moves rfl rfl rfl (.inl rfl) (by rw [hpc]; exact id) (by rw [hpc]; exact fun _ => id)
  | cannotConnect hpc | catches hpc =>
      exact h.moves rfl rfl rfl (.inl rfl) nofun fun _ _ => trivial
  | @storesHandler t rest hpc hcallback =>
      have hclient := h.client (by rw [hpc]; rfl)
      rw [hpc] at hsubscribed
      refine ⟨fun _ => hclient, fun t' q hhandler => ?_, h.message, hsubscribed.store⟩
      by_cases hne : t' = t
      · subst hne
        simp at hhandler
        exact hhandler ▸ hclient
      · change Function.update s.handlers t (some s.run) t' = some q at hhandler
        rw [Function.update_of_ne hne] at hhandler
        exact h.handlers t' q hhandler
  | readsToken hpc | readsCertificateId hpc | publishes hpc =>
      exact h.moves rfl rfl rfl (.inl rfl) (by rw [hpc]; exact id)
        (by rw [hpc]; exact fun _ hbefore => hbefore.next (by simp))
  | erasesHandler hpc hcallback =>
      rw [hpc] at hsubscribed
      exact h.erases rfl rfl rfl rfl (by rw [hpc]; rfl) (hcallback ▸ hsubscribed.erase)
  | cancelErases hpc => exact h.erases rfl rfl rfl rfl (by rw [hpc]; rfl) trivial
  | destroys hpc =>
      rw [hpc] at hsubscribed
      refine ⟨nofun, fun t q hhandler => ?_, fun source rest hcallback => ?_, trivial⟩
      · exact absurd ((hsubscribed.1 t).symm.trans hhandler) (by simp)
      · change s.callback = _ at hcallback
        rw [hcallback] at hsubscribed
        cases hsubscribed.2

theorem step (h : s.Owned) (hsteps : s.Steps a s') : s'.Owned := by
  cases hsteps with
  | works hworks => exact h.works hworks
  | wakes hpc =>
      exact h.moves rfl rfl rfl (.inl rfl) (by rw [hpc]; exact id) (by rw [hpc]; exact fun _ => id)
  | stays => exact h
  | registers | activates | deactivates =>
      exact h.moves rfl rfl rfl (.inl rfl) id fun _ => id
  | startsWorker =>
      exact ⟨nofun, h.handlers, h.message, trivial⟩
  | stops => exact ⟨nofun, nofun, nofun, trivial⟩
  | callsOnConnect | onConnectReturns | onMessageReturns | onMessageThrows =>
      exact h.moves rfl rfl rfl (.inr rfl) id fun _ => id
  | answersSubscribe hcall | answersSend hcall =>
      unfold Imp.answers
      split_ifs <;> exact h.moves rfl rfl rfl (.inl rfl) id fun _ => id
  | callsOnMessage hcall hhandler =>
      refine ⟨h.client, h.handlers, fun source rest hcallback => ?_, h.subscribed.begin hhandler⟩
      cases hcallback
      exact h.handlers _ _ hhandler
  | setsConnected =>
      unfold Imp.wakes
      split
      case h_1 hpc =>
        exact h.moves rfl rfl rfl (.inr rfl) (by rw [hpc]; exact id) (by rw [hpc]; exact fun _ => id)
      case h_2 => exact h.moves rfl rfl rfl (.inr rfl) id fun _ => id
  | @handles source op rest hcallback =>
      have hsubscribed := h.subscribed
      rw [hcallback] at hsubscribed
      refine ⟨?_, ?_, fun source' rest' hcallback' => ?_, ?_⟩
      · simpa using h.client
      · simpa using h.handlers
      · cases hcallback'
        exact handles_client.trans (h.message _ _ hcallback)
      · change Subscribed (s.handles source op).handlers true (s.handles source op).worker
        rw [handles_handlers, handles_worker]
        exact hsubscribed

end Owned

theorem owned_of_reachable (h : Runs.Reachable step (fun _ _ => True) init s) : s.Owned :=
  h.invariant Owned .init fun _ _ _ hs _ hstep => hs.step (step_cases hstep)

/-! ### The message in progress -/

/-- What an operation of the message leaves behind until its handler returns. -/
def Handled (s : Imp) (source : Source) : MessageOp → Prop
  | .open f =>
    (∃ written, s.files f = some ⟨source, written⟩) ∧ s.lastOpened = some source.run
  | _ => True

def InProgress (s : Imp) : Prop :=
  ∀ source rest, s.callback = .onMessage source rest →
    ∃ t, DoneBefore (AwsFleetProv.onMessage t) rest (s.Handled source)

theorem Works.unchanged (hworks : s.Works s') :
    s'.callback = s.callback ∧ s'.files = s.files ∧ s'.lastOpened = s.lastOpened := by
  cases hworks <;> exact ⟨rfl, rfl, rfl⟩

theorem Works.torn (hworks : s.Works s') : s'.torn = s.torn := by
  cases hworks <;> rfl

theorem handled_of_handles {source : Source} {op op' : MessageOp} (h : s.Handled source op') :
    (s.handles source op).Handled source op' := by
  cases op' with
  | «open» f =>
      obtain ⟨⟨written, hfile⟩, hlast⟩ := h
      cases op with
      | «open» f' =>
          refine ⟨?_, rfl⟩
          by_cases hf : f = f'
          · subst hf
            exact ⟨false, Function.update_self ..⟩
          · exact ⟨written, (Function.update_of_ne hf ..).trans hfile⟩
      | close f' =>
          refine ⟨?_, hlast⟩
          by_cases hf : f = f'
          · subst hf
            exact ⟨true, Function.update_self ..⟩
          · exact ⟨written, (Function.update_of_ne hf ..).trans hfile⟩
      | setValue r accepted =>
          unfold Imp.handles Imp.answers
          split_ifs <;> exact ⟨⟨written, hfile⟩, hlast⟩
      | _ => exact ⟨⟨written, hfile⟩, hlast⟩
  | _ => trivial

theorem handled_self {source : Source} {op : MessageOp} :
    (s.handles source op).Handled source op := by
  cases op with
  | «open» f => exact ⟨⟨false, Function.update_self ..⟩, rfl⟩
  | _ => trivial

namespace InProgress

theorem quiet (h : s.InProgress)
    (hunchanged : s'.callback = s.callback ∧ s'.files = s.files ∧ s'.lastOpened = s.lastOpened) :
    s'.InProgress := by
  obtain ⟨hcallback, hfiles, hlast⟩ := hunchanged
  intro source rest hmessage
  obtain ⟨t, hdone⟩ := h source rest (hcallback ▸ hmessage)
  refine ⟨t, hdone.mono fun op _ hop => ?_⟩
  cases op with
  | «open» f =>
      rw [Handled] at hop ⊢
      rwa [hfiles, hlast]
  | _ => trivial

theorem of_not_inMessage (h : s.callback.inMessage = false) : s.InProgress := by
  intro source rest hcallback
  rw [hcallback] at h
  cases h

theorem step (h : s.InProgress) (hsteps : s.Steps a s') : s'.InProgress := by
  cases hsteps with
  | works hworks => exact h.quiet hworks.unchanged
  | wakes | stays | registers | startsWorker | activates | deactivates =>
      exact h.quiet ⟨rfl, rfl, rfl⟩
  | stops | callsOnConnect | onConnectReturns | onMessageReturns | onMessageThrows =>
      exact of_not_inMessage rfl
  | setsConnected => exact of_not_inMessage rfl
  | answersSubscribe hcall | answersSend hcall =>
      refine of_not_inMessage ?_
      rw [answers_callback]
      exact congrArg Callback.inMessage hcall.2
  | @callsOnMessage t =>
      intro source rest hcallback
      cases hcallback
      exact ⟨t, .start _ _⟩
  | @handles source op rest hcallback =>
      intro source' rest' hcallback'
      cases hcallback'
      obtain ⟨t, hdone⟩ := h source (op :: rest) hcallback
      refine ⟨t, (hdone.mono fun op' _ hop' => ?_).next ?_⟩
      · exact handled_of_handles hop'
      · exact handled_self

end InProgress

theorem inProgress_of_reachable (h : Runs.Reachable step (fun _ _ => True) init s) :
    s.InProgress :=
  h.invariant InProgress (.of_not_inMessage rfl) fun _ _ _ hs _ hstep => hs.step (step_cases hstep)

end Imp

end Shapeware.AwsFleetProv
