import Shapeware.AwsFleetProv.Service

/-!
# What the steps of fleet provisioning can do

One constructor for each effect; the moves of `worker` that have none, and the exceptions, are told
apart by where they lead.
-/

namespace Shapeware.AwsFleetProv.Imp

/-- The operation only moves `worker` on. -/
def Passes (s : Imp) : Op → Prop
  | .subscribe _ | .unsubscribe _ => True
  | .get p => s.promises p ≠ none
  | .check p => s.promises p = some true
  | _ => False

def Throws (s : Imp) : Op → Prop
  | .subscribe _ | .unsubscribe _ => True
  | .check p => s.promises p ≠ some true
  | _ => False

/-- Where `worker` goes without doing anything else. -/
inductive Goes (s : Imp) : WorkerPc → WorkerPc → Prop
  | locks : Goes s .lockWork .testCertFile
  | findsCertFile : Goes s .testCertFile .testKeyFile
  | findsKeyFile : Goes s .testKeyFile .createClient
  | setsConnected : Goes s .setConnected .setCallbacks
  | setsCallbacks : Goes s .setCallbacks .connect
  | waits {w w' : TimedWait} : Goes s (.wait w) (.wait w')
  | isConnected {w : TimedWait} (hw : w = .test ∨ w = .timedOut) (hconnected : s.connected = true) :
      Goes s (.wait w) (.provisioning makeProvisioning)
  | timesOut (hconnected : s.connected = false) : Goes s (.wait .timedOut) (.report false)
  | passes {op : Op} {rest : List Op} (hop : s.Passes op) :
      Goes s (.provisioning (op :: rest)) (.provisioning rest)
  | isProvisioned : Goes s (.provisioning []) (.report true)
  | cancels {t : Topic} {rest : List Topic} :
      Goes s (.cancelling (t :: rest)) (.cancelErases t rest)
  | handlerReturns {connected : Bool} : Goes s (.inHandler connected) .disconnect
  | disconnects : Goes s .disconnect .destroy
  | ignores (hhandler : s.onError = false) : Goes s .caught .returned
  | onErrorReturns : Goes s .inOnError .returned

/-- Where an exception can be thrown, and where it leads. -/
inductive ThrowsTo (s : Imp) : WorkerPc → WorkerPc → Prop
  | testCertFile : ThrowsTo s .testCertFile .caught
  | testKeyFile : ThrowsTo s .testKeyFile .caught
  | createClient : ThrowsTo s .createClient .caught
  | setConnected : ThrowsTo s .setConnected .caught
  | setCallbacks : ThrowsTo s .setCallbacks .caught
  | provisioning {op : Op} {rest : List Op} (hop : s.Throws op) :
      ThrowsTo s (.provisioning (op :: rest)) (.cancelling cancelProvisioning)
  | cancelling {rest : List Topic} : ThrowsTo s (.cancelling rest) .caught
  | inHandler {connected : Bool} : ThrowsTo s (.inHandler connected) .caught
  | inOnError : ThrowsTo s .inOnError .escaped

inductive Works (s : Imp) : Imp → Prop
  | goes {pc pc' : WorkerPc} (hpc : s.worker = pc) (hgoes : s.Goes pc pc') : Works s (s.goto pc')
  | throws {pc pc' : WorkerPc} (hpc : s.worker = pc) (hthrows : s.ThrowsTo pc pc') :
      Works s (s.throws pc')
  | creates (hpc : s.worker = .createClient) (hclient : s.client = none) :
      Works s { (s.log .created).goto .setConnected with client := some s.run }
  | connects (hpc : s.worker = .connect) :
      Works s { s.goto (.wait .test) with onConnectHandler := some s.run }
  | cannotConnect (hpc : s.worker = .connect) :
      Works s { s.throws .caught with onConnectHandler := some s.run }
  | storesHandler {t : Topic} {rest : List Op}
      (hpc : s.worker = .provisioning (.storeHandler t :: rest))
      (hcallback : s.callback.inMessage = false) :
      Works s
        { s.goto (.provisioning rest) with
          handlers := Function.update s.handlers t (some s.run)
          subscribing := Function.update s.subscribing t (some s.run) }
  | readsToken {rest : List Op} (hpc : s.worker = .provisioning (.readToken :: rest)) :
      Works s { s.goto (.provisioning rest) with
        registerDoc := { s.registerDoc with token := s.token } }
  | readsCertificateId {rest : List Op}
      (hpc : s.worker = .provisioning (.readCertificateId :: rest)) :
      Works s { s.goto (.provisioning rest) with
        registerDoc := { s.registerDoc with certificateId := s.certificateId } }
  | publishes {r : Request} {rest : List Op} {sending : Request → Option Nat}
      (hpc : s.worker = .provisioning (.publish r :: rest))
      (hsending : sending = s.sending ∨ sending = Function.update s.sending r (some s.run)) :
      Works s { (s.log (.published r)).goto (.provisioning rest) with sending }
  | erasesHandler {t : Topic} {rest : List Op}
      (hpc : s.worker = .provisioning (.eraseHandler t :: rest))
      (hcallback : s.callback.inMessage = false) :
      Works s { s.goto (.provisioning rest) with handlers := Function.update s.handlers t none }
  | cancelErases {t : Topic} {rest : List Topic} (hpc : s.worker = .cancelErases t rest)
      (hcallback : s.callback.inMessage = false) :
      Works s { s.goto (.cancelling rest) with handlers := Function.update s.handlers t none }
  | callsOnProvisioned (hpc : s.worker = .report true) (hhandler : s.onProvisioned = true) :
      Works s
        { (s.log .onProvisioned).goto (.inHandler true) with
          isProvisioned := true
          provisionedRuns := s.run :: s.provisionedRuns }
  | callsOnError (hpc : s.worker = .report false) (hhandler : s.onError = true) :
      Works s { (s.log .onError).goto (.inHandler false) with isProvisioned := false }
  | callsNobody {connected : Bool} (hpc : s.worker = .report connected)
      (hhandler : (if connected then s.onProvisioned else s.onError) = false) :
      Works s { s.goto .disconnect with isProvisioned := connected }
  | destroys (hpc : s.worker = .destroy) : Works s { s.goto .returned with client := none }
  | catches (hpc : s.worker = .caught) (hhandler : s.onError = true) :
      Works s ((s.log .onError).goto .inOnError)

inductive Steps (s : Imp) : Action → Imp → Prop
  | works {outcome : Outcome} {s' : Imp} (hworks : s.Works s') : Steps s (.worker outcome) s'
  | wakes {a : Action} {w : TimedWait} (hpc : s.worker = .wait .blocked) :
      Steps s a (s.goto (.wait w))
  | stays {a : Action} : Steps s a s
  | registers {a : Action} {onProvisioned onError : Bool} :
      Steps s a { s with onProvisioned, onError }
  | startsWorker (hended : s.worker.hasEnded = true) : Steps s .startWorker s.startsWorker
  | callsOnConnect {run : Nat} (hcall : s.CanCall) (hhandler : s.onConnectHandler = some run) :
      Steps s .connected { s with callback := .onConnect run }
  | answersSubscribe {t : Topic} {result : Bool} {run : Nat} (hcall : s.CanCall)
      (hrun : s.subscribing t = some run) :
      Steps s (.subscribed t result)
        ({ s with subscribing := Function.update s.subscribing t none }.answers run
          (.subscribed t) result)
  | answersSend {r : Request} {result : Bool} {run : Nat} (hcall : s.CanCall)
      (hrun : s.sending r = some run) :
      Steps s (.sent r result)
        ({ s with sending := Function.update s.sending r none }.answers run (.sent r) result)
  | callsOnMessage {t : Topic} {run : Nat} (hcall : s.CanCall) (hhandler : s.handlers t = some run) :
      Steps s (.message t)
        { s with
          callback := .onMessage ⟨run, s.messages⟩ (AwsFleetProv.onMessage t)
          messages := s.messages + 1 }
  | setsConnected {outcome : Outcome} (hcallback : s.callback = .onConnect s.run)
      (hmutex : s.worker.holdsWorkMtx = false) :
      Steps s (.callback outcome) { s.wakes .relock with connected := true, callback := .idle }
  | onConnectReturns {outcome : Outcome} {run : Nat} (hcallback : s.callback = .onConnect run) :
      Steps s (.callback outcome) { s with callback := .idle }
  | onMessageReturns {outcome : Outcome} {source : Source}
      (hcallback : s.callback = .onMessage source []) :
      Steps s (.callback outcome) { s with callback := .idle }
  | handles {source : Source} {op : MessageOp} {rest : List MessageOp}
      (hcallback : s.callback = .onMessage source (op :: rest)) :
      Steps s (.callback .ok) { s.handles source op with callback := .onMessage source rest }
  | onMessageThrows {source : Source} {op : MessageOp} {rest : List MessageOp}
      (hcallback : s.callback = .onMessage source (op :: rest)) (hthrows : op.canThrow = true) :
      Steps s (.callback .threw) { s with torn := s.tornHere, callback := .idle }
  | stops :
      Steps s .stop
        { init with
          run := s.run, messages := s.messages, files := s.files, torn := s.tornHere
          lastOpened := s.lastOpened, provisionedRuns := s.provisionedRuns }
  | activates (hended : s.worker.hasEnded = true) : Steps s .activate s.activates
  | deactivates : Steps s .deactivate { s with onConnectHandler := none }

section Unchanged

variable {s : Imp} {run : Nat} {p : Promise} {value : Bool} {source : Source} {op : MessageOp}

@[simp] theorem answers_run : (s.answers run p value).run = s.run := by
  unfold answers
  split_ifs <;> rfl

@[simp] theorem answers_worker : (s.answers run p value).worker = s.worker := by
  unfold answers
  split_ifs <;> rfl

@[simp] theorem answers_callback : (s.answers run p value).callback = s.callback := by
  unfold answers
  split_ifs <;> rfl

@[simp] theorem answers_client : (s.answers run p value).client = s.client := by
  unfold answers
  split_ifs <;> rfl

@[simp] theorem answers_handlers : (s.answers run p value).handlers = s.handlers := by
  unfold answers
  split_ifs <;> rfl

@[simp] theorem answers_files : (s.answers run p value).files = s.files := by
  unfold answers
  split_ifs <;> rfl

@[simp] theorem answers_messages : (s.answers run p value).messages = s.messages := by
  unfold answers
  split_ifs <;> rfl

@[simp] theorem answers_torn : (s.answers run p value).torn = s.torn := by
  unfold answers
  split_ifs <;> rfl

@[simp] theorem answers_registerDoc : (s.answers run p value).registerDoc = s.registerDoc := by
  unfold answers
  split_ifs <;> rfl

@[simp] theorem handles_run : (s.handles source op).run = s.run := by
  cases op <;> first | rfl | exact answers_run

@[simp] theorem handles_worker : (s.handles source op).worker = s.worker := by
  cases op <;> first | rfl | exact answers_worker

@[simp] theorem handles_client : (s.handles source op).client = s.client := by
  cases op <;> first | rfl | exact answers_client

@[simp] theorem handles_handlers : (s.handles source op).handlers = s.handlers := by
  cases op <;> first | rfl | exact answers_handlers

@[simp] theorem handles_messages : (s.handles source op).messages = s.messages := by
  cases op <;> first | rfl | exact answers_messages

@[simp] theorem handles_registerDoc : (s.handles source op).registerDoc = s.registerDoc := by
  cases op <;> first | rfl | exact answers_registerDoc

end Unchanged

variable {s s' : Imp} {a : Action} {outcome : Outcome} {op : Op} {rest : List Op}

/-- A message in progress after a step that begins none was in progress before it. -/
theorem onMessage_of_moves {source : Source} {rest : List MessageOp}
    (hcallback : s'.callback = s.callback ∨ s'.callback.inMessage = false)
    (hmessage : s'.callback = .onMessage source rest) : s.callback = .onMessage source rest := by
  obtain hcallback | hidle := hcallback
  · exact hcallback.symm.trans hmessage
  · rw [hmessage] at hidle
    cases hidle

theorem performs_cases (hpc : s.worker = .provisioning (op :: rest))
    (h : s.performs outcome rest op = some s') : s.Works s' := by
  cases op with
  | subscribe t | unsubscribe t =>
      cases h
      cases outcome with
      | ok => exact .goes hpc (.passes trivial)
      | threw => exact .throws hpc (.provisioning trivial)
  | storeHandler t =>
      rw [performs] at h
      split_ifs at h with hcallback
      cases h
      exact .storesHandler hpc (eq_false_of_ne_true hcallback)
  | get p =>
      rw [performs] at h
      split_ifs at h with hp
      cases h
      exact .goes hpc (.passes hp)
  | check p =>
      simp only [performs, Option.some.injEq] at h
      split_ifs at h with hp
      · exact h ▸ .goes hpc (.passes hp)
      · exact h ▸ .throws hpc (.provisioning hp)
  | readToken =>
      cases h
      exact .readsToken hpc
  | readCertificateId =>
      cases h
      exact .readsCertificateId hpc
  | publish r =>
      cases h
      refine .publishes hpc ?_
      split_ifs
      · exact .inr rfl
      · exact .inl rfl
  | eraseHandler t =>
      rw [performs, erases] at h
      split_ifs at h with hcallback
      cases h
      exact .erasesHandler hpc (eq_false_of_ne_true hcallback)

theorem reports_cases {connected : Bool} (hpc : s.worker = .report connected) :
    s.Works (s.reports connected) := by
  cases connected with
  | true =>
      simp only [reports, ↓reduceIte]
      split_ifs with hhandler
      · exact .callsOnProvisioned hpc hhandler
      · exact .callsNobody hpc (eq_false_of_ne_true hhandler)
  | false =>
      simp only [reports, Bool.false_eq_true, ↓reduceIte]
      split_ifs with hhandler
      · exact .callsOnError hpc hhandler
      · exact .callsNobody hpc (eq_false_of_ne_true hhandler)

theorem orThrows_cases {pc pc' handler : WorkerPc} (hpc : s.worker = pc)
    (hgoes : s.Goes pc pc') (hthrows : s.ThrowsTo pc handler) :
    s.Works (s.orThrows outcome handler (s.goto pc')) := by
  cases outcome with
  | ok => exact .goes hpc hgoes
  | threw => exact .throws hpc hthrows

theorem wait_cases {w : TimedWait} (hpc : s.worker = .wait w)
    (h : s.works outcome = some s') : s.Works s' := by
  simp only [works, hpc] at h
  cases w with
  | test =>
      cases h
      split_ifs with hconnected
      · exact .goes hpc (.isConnected (.inl rfl) hconnected)
      · exact .goes hpc .waits
  | block | relock =>
      cases h
      exact .goes hpc .waits
  | blocked => cases h
  | timedOut =>
      cases h
      split_ifs with hconnected
      · exact .goes hpc (.isConnected (.inr rfl) hconnected)
      · exact .goes hpc (.timesOut (eq_false_of_ne_true hconnected))

theorem work_cases (h : s.works outcome = some s') : s.Works s' := by
  cases hpc : s.worker with
  | wait w => exact wait_cases hpc h
  | lockWork =>
      simp only [works, hpc, Option.some.injEq] at h
      exact h ▸ .goes hpc .locks
  | testCertFile =>
      simp only [works, hpc, Option.some.injEq] at h
      exact h ▸ orThrows_cases hpc .findsCertFile .testCertFile
  | testKeyFile =>
      simp only [works, hpc, Option.some.injEq] at h
      exact h ▸ orThrows_cases hpc .findsKeyFile .testKeyFile
  | createClient =>
      simp only [works, hpc, Option.some.injEq] at h
      split_ifs at h with hclient
      · cases outcome with
        | ok => exact h ▸ .creates hpc hclient
        | threw => exact h ▸ .throws hpc .createClient
      · exact h ▸ .throws hpc .createClient
  | setConnected =>
      simp only [works, hpc, Option.some.injEq] at h
      exact h ▸ orThrows_cases hpc .setsConnected .setConnected
  | setCallbacks =>
      simp only [works, hpc, Option.some.injEq] at h
      exact h ▸ orThrows_cases hpc .setsCallbacks .setCallbacks
  | connect =>
      simp only [works, hpc, Option.some.injEq] at h
      cases outcome with
      | ok => exact h ▸ .connects hpc
      | threw => exact h ▸ .cannotConnect hpc
  | provisioning rest =>
      cases rest with
      | nil =>
          simp only [works, hpc, Option.some.injEq] at h
          exact h ▸ .goes hpc .isProvisioned
      | cons op rest =>
          simp only [works, hpc] at h
          exact performs_cases hpc h
  | cancelling rest =>
      cases rest with
      | nil =>
          simp only [works, hpc, Option.some.injEq] at h
          exact h ▸ .throws hpc .cancelling
      | cons t rest =>
          simp only [works, hpc, Option.some.injEq] at h
          exact h ▸ orThrows_cases hpc .cancels .cancelling
  | cancelErases t rest =>
      simp only [works, hpc, erases] at h
      split_ifs at h with hcallback
      cases h
      exact .cancelErases hpc (eq_false_of_ne_true hcallback)
  | report connected =>
      simp only [works, hpc, Option.some.injEq] at h
      exact h ▸ reports_cases hpc
  | inHandler connected =>
      simp only [works, hpc, Option.some.injEq] at h
      exact h ▸ orThrows_cases hpc .handlerReturns .inHandler
  | disconnect =>
      simp only [works, hpc, Option.some.injEq] at h
      exact h ▸ .goes hpc .disconnects
  | destroy =>
      simp only [works, hpc, Option.some.injEq] at h
      exact h ▸ .destroys hpc
  | caught =>
      simp only [works, hpc, Option.some.injEq] at h
      split_ifs at h with hhandler
      · exact h ▸ .catches hpc hhandler
      · exact h ▸ .goes hpc (.ignores (eq_false_of_ne_true hhandler))
  | inOnError =>
      simp only [works, hpc, Option.some.injEq] at h
      exact h ▸ orThrows_cases hpc .onErrorReturns .inOnError
  | returned | escaped => simp [works, hpc] at h

theorem wakes_cases {w : TimedWait} : s.Steps a (s.wakes w) := by
  unfold wakes
  split
  case h_1 hpc => exact .wakes hpc
  case h_2 => exact .stays

theorem callsBack_cases (h : s.callsBack outcome = some s') : s.Steps (.callback outcome) s' := by
  rw [callsBack] at h
  split at h
  case h_1 => cases h
  case h_2 run hcallback =>
    split_ifs at h with hmutex hrun
    · cases h
      subst hrun
      exact .setsConnected hcallback (eq_false_of_ne_true hmutex)
    · cases h
      exact .onConnectReturns hcallback
  case h_3 source hcallback =>
    cases h
    exact .onMessageReturns hcallback
  case h_4 source op rest hcallback =>
    cases outcome with
    | ok =>
        cases h
        exact .handles hcallback
    | threw =>
        simp only at h
        split_ifs at h with hthrows
        cases h
        exact .onMessageThrows hcallback hthrows

theorem step_cases (h : s.step a = some s') : s.Steps a s' := by
  cases a with
  | launchProvisioning onProvisioned onError =>
      cases h
      exact .registers
  | startWorker =>
      rw [step] at h
      split_ifs at h with hended
      cases h
      exact .startsWorker hended
  | unregisterProvisioningHandlers =>
      cases h
      exact .registers
  | worker outcome => exact .works (work_cases h)
  | wake | timeout =>
      cases h
      exact wakes_cases
  | connected =>
      rw [step] at h
      split_ifs at h with hcall
      obtain ⟨run, hhandler, rfl⟩ := Option.map_eq_some_iff.mp h
      exact .callsOnConnect hcall hhandler
  | subscribed t result =>
      rw [step] at h
      split_ifs at h with hcall
      obtain ⟨run, hrun, rfl⟩ := Option.map_eq_some_iff.mp h
      exact .answersSubscribe hcall hrun
  | sent r result =>
      rw [step] at h
      split_ifs at h with hcall
      obtain ⟨run, hrun, rfl⟩ := Option.map_eq_some_iff.mp h
      exact .answersSend hcall hrun
  | message t =>
      rw [step] at h
      split_ifs at h with hcall
      obtain ⟨run, hhandler, rfl⟩ := Option.map_eq_some_iff.mp h
      exact .callsOnMessage hcall hhandler
  | callback outcome => exact callsBack_cases h
  | stop =>
      cases h
      exact .stops
  | activate =>
      rw [step] at h
      split_ifs at h with hended
      cases h
      exact .activates hended
  | deactivate =>
      cases h
      exact .deactivates

end Shapeware.AwsFleetProv.Imp
