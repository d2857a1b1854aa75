import Shapeware.Cxx
import Shapeware.Library.Runs

/-!
# Creating and destroying clients

`create` takes the connection parameters of one client and writes those that are not empty over the
members that hold the configuration, where they stay for the clients created after it. It writes them
before it calls the library, and when one of the library's later calls fails it throws with the
client handle in place, so that the next `create` is refused.
-/

namespace Shapeware.Mqtt

open Runs

/-- The members that a configuration sets and that `create` may overwrite. -/
@[ext]
structure Parameters where
  mqttBrokerAddr : StdString := []
  trustStore : StdString := []
  keyStore : StdString := []
  privateKey : StdString := []
  mqttUser : StdString := []
  mqttPassword : StdString := []
deriving DecidableEq

/-- `IMqttService::ConnectionPars`. -/
structure ConnectionPars where
  brokerAddress : StdString := []
  trustStore : StdString := []
  certificate : StdString := []
  privateKey : StdString := []
  user : StdString := []
  password : StdString := []
  enabledSSL : Bool := true
deriving DecidableEq

/-- The members of a configuration that are read here, where present. -/
structure Properties where
  brokerAddr : Option StdString := none
  user : Option StdString := none
  password : Option StdString := none
  enabledSSL : Option Bool := none
  trustStore : Option StdString := none
  keyStore : Option StdString := none
  privateKey : Option StdString := none

/-- What `create`, `destroy` and `modify` know of a client. -/
structure ClientImp where
  parameters : Parameters := {}
  mqttEnabledSSL : Bool := false
  mqttClientId : StdString := []
  /-- Whether `m_client` is not null. -/
  client : Bool := false
deriving DecidableEq

/-- How the three library calls of `create` turn out: the first that fails, with its error code. The
first of them also writes the handle, and may leave one that is not null when it fails. -/
inductive LibraryCalls
  | createWithOptions (retval : Int) (handle : Bool)
  | setConnected (ret : Int)
  | setCallbacks (retval : Int)
  | success
deriving DecidableEq

/-- The `std::logic_error`s of `create`, with the values printed in their texts. -/
inductive CreateError
  | alreadyCreated (clientId : StdString)
  | createFailed (retval : Int)
  | setConnectedFailed (retval : Int)
  | setCallbacksFailed (retval : Int)
deriving DecidableEq

/-- A parameter of the call, or else the member as it is. -/
def orMember (parameter member : StdString) : StdString :=
  if parameter = [] then member else parameter

theorem orMember_eq_iff {parameter p q : StdString} :
    orMember parameter p = orMember parameter q ↔ parameter ≠ [] ∨ p = q := by
  by_cases h : parameter = [] <;> simp [orMember, h]

theorem orMember_eq_self {parameter member : StdString} :
    orMember parameter member = member ↔ parameter = [] ∨ parameter = member := by
  by_cases h : parameter = [] <;> simp [orMember, h]

namespace ConnectionPars

/-- The parameters of the call over the members. -/
def mergedInto (cp : ConnectionPars) (p : Parameters) : Parameters where
  mqttBrokerAddr := orMember cp.brokerAddress p.mqttBrokerAddr
  trustStore := orMember cp.trustStore p.trustStore
  keyStore := orMember cp.certificate p.keyStore
  privateKey := orMember cp.privateKey p.privateKey
  mqttUser := orMember cp.user p.mqttUser
  mqttPassword := orMember cp.password p.mqttPassword

/-- Where the two sets of members differ, the call has a parameter of its own. -/
def Covers (cp : ConnectionPars) (p q : Parameters) : Prop :=
  (cp.brokerAddress ≠ [] ∨ p.mqttBrokerAddr = q.mqttBrokerAddr) ∧
    (cp.trustStore ≠ [] ∨ p.trustStore = q.trustStore) ∧
    (cp.certificate ≠ [] ∨ p.keyStore = q.keyStore) ∧
    (cp.privateKey ≠ [] ∨ p.privateKey = q.privateKey) ∧
    (cp.user ≠ [] ∨ p.mqttUser = q.mqttUser) ∧
    (cp.password ≠ [] ∨ p.mqttPassword = q.mqttPassword)

/-- The call brings nothing that is not in the members. -/
def Repeats (cp : ConnectionPars) (p : Parameters) : Prop :=
  (cp.brokerAddress = [] ∨ cp.brokerAddress = p.mqttBrokerAddr) ∧
    (cp.trustStore = [] ∨ cp.trustStore = p.trustStore) ∧
    (cp.certificate = [] ∨ cp.certificate = p.keyStore) ∧
    (cp.privateKey = [] ∨ cp.privateKey = p.privateKey) ∧
    (cp.user = [] ∨ cp.user = p.mqttUser) ∧
    (cp.password = [] ∨ cp.password = p.mqttPassword)

theorem mergedInto_eq_iff {cp : ConnectionPars} {p q : Parameters} :
    cp.mergedInto p = cp.mergedInto q ↔ cp.Covers p q := by
  simp [mergedInto, Covers, orMember_eq_iff]

theorem mergedInto_eq_self {cp : ConnectionPars} {p : Parameters} :
    cp.mergedInto p = p ↔ cp.Repeats p := by
  rw [Parameters.ext_iff]
  simp [mergedInto, Repeats, orMember_eq_self]

end ConnectionPars

namespace ClientImp

/-- A configured file is looked for in the data directory. -/
def certFile (dataDir file : StdString) : StdString :=
  if file = [] then [] else dataDir ++ bytes "/cert/" ++ file

/-- What `modify` makes of the members, of which the configuration may leave some out. -/
def modify (s : ClientImp) (dataDir : StdString) (props : Properties) : ClientImp :=
  { s with
    parameters :=
      { mqttBrokerAddr := props.brokerAddr.getD s.parameters.mqttBrokerAddr
        trustStore := certFile dataDir (props.trustStore.getD s.parameters.trustStore)
        keyStore := certFile dataDir (props.keyStore.getD s.parameters.keyStore)
        privateKey := certFile dataDir (props.privateKey.getD s.parameters.privateKey)
        mqttUser := props.user.getD s.parameters.mqttUser
        mqttPassword := props.password.getD s.parameters.mqttPassword }
    mqttEnabledSSL := props.enabledSSL.getD s.mqttEnabledSSL }

/-- The members are written before the library is called. The text of the second error prints the
code of the first call, which has succeeded. -/
def create (s : ClientImp) (clientId : StdString) (cp : ConnectionPars) (library : LibraryCalls) :
    ClientImp × Except CreateError Unit :=
  if s.client then (s, .error (.alreadyCreated clientId))
  else
    let s' : ClientImp :=
      { s with
        parameters := cp.mergedInto s.parameters
        mqttEnabledSSL := cp.enabledSSL
        mqttClientId := clientId }
    match library with
    | .createWithOptions retval handle => ({ s' with client := handle }, .error (.createFailed retval))
    | .setConnected _ => ({ s' with client := true }, .error (.setConnectedFailed 0))
    | .setCallbacks retval => ({ s' with client := true }, .error (.setCallbacksFailed retval))
    | .success => ({ s' with client := true }, .ok ())

/-- `MQTTAsync_destroy` makes the handle null. -/
def destroy (s : ClientImp) : ClientImp := { s with client := false }

/-- Alike for any call of `create`: it overwrites the other members itself. -/
def Alike (s s' : ClientImp) : Prop := s'.client = s.client ∧ s'.parameters = s.parameters

/-- The service is as it was exactly if the next `create` cannot tell the difference. -/
theorem alike_iff {s s' : ClientImp} (hclient : s.client = false) :
    s.Alike s' ↔
      ∀ clientId cp library, s'.create clientId cp library = s.create clientId cp library := by
  constructor
  · rintro ⟨hsame, hparameters⟩ clientId cp library
    simp [create, hsame, hclient, hparameters]
  · intro hall
    have hnext := hall [] {} .success
    cases hclient' : s'.client with
    | true => simp [create, hclient, hclient'] at hnext
    | false =>
        have hparameters : ConnectionPars.mergedInto {} s'.parameters
            = ConnectionPars.mergedInto {} s.parameters := by
          simpa [create, hclient, hclient'] using hnext
        have hself : ∀ p, ConnectionPars.mergedInto {} p = p := fun p =>
          ConnectionPars.mergedInto_eq_self.mpr (by simp [ConnectionPars.Repeats])
        exact ⟨hclient'.trans hclient.symm, by rwa [hself, hself] at hparameters⟩

end ClientImp

/-! ### Histories of clients -/

/-- What a call of `create` has done, if it was not refused. -/
inductive CreateReport
  | succeeded (cp : ConnectionPars) (parameters : Parameters)
  | failed (before after : ClientImp)
deriving DecidableEq

/-- A new client has the parameters of its own call over the configured ones, and whatever call comes
after a failed one goes as if that had not been made. -/
def CreateReport.Isolated (configured : Parameters) : CreateReport → Prop
  | .succeeded cp parameters => parameters = cp.mergedInto configured
  | .failed before after => ∀ clientId cp library,
    after.create clientId cp library = before.create clientId cp library

structure Clients where
  imp : ClientImp
  reports : List CreateReport := []

namespace Clients

inductive Action
  | create (clientId : StdString) (cp : ConnectionPars) (library : LibraryCalls)
  | destroy (clientId : StdString)

/-- The service as a configuration leaves it. -/
def init (dataDir : StdString) (props : Properties) : Clients :=
  { imp := ClientImp.modify {} dataDir props }

def creates (s : Clients) (clientId : StdString) (cp : ConnectionPars) (library : LibraryCalls) :
    Clients :=
  let created := s.imp.create clientId cp library
  { imp := created.1
    reports := match created.2 with
      | .ok () => s.reports ++ [.succeeded cp created.1.parameters]
      | .error (.alreadyCreated _) => s.reports
      | .error _ => s.reports ++ [.failed s.imp created.1] }

def step (s : Clients) : Action → Option Clients
  | .create clientId cp library => some (s.creates clientId cp library)
  | .destroy _ => some { s with imp := s.imp.destroy }

/-- Every call so far was isolated from the others. -/
def Isolated (configured : Parameters) (s : Clients) : Prop :=
  ∀ report ∈ s.reports, report.Isolated configured

/-- A call that is to succeed has a parameter of its own wherever an earlier call has left something
else than what is configured; one that is to fail does so in its first library call, which leaves no
handle, and brings nothing new. -/
def KeepsApart (configured : Parameters) (s : Clients) : Action → Prop
  | .create _ cp library => s.imp.client = false → match library with
    | .success => cp.Covers s.imp.parameters configured
    | .createWithOptions _ handle => handle = false ∧ cp.Repeats s.imp.parameters
    | .setConnected _ | .setCallbacks _ => False
  | .destroy _ => True

variable {s s' : Clients} {configured : Parameters}

/-- A call is refused, or is reported and isolated exactly if it meets the condition. -/
theorem creates_reports (s : Clients) (clientId : StdString) (cp : ConnectionPars)
    (library : LibraryCalls) :
    s.imp.client = true ∧ (s.creates clientId cp library).reports = s.reports ∨
      ∃ report, (s.creates clientId cp library).reports = s.reports ++ [report] ∧
        (report.Isolated configured ↔ s.KeepsApart configured (.create clientId cp library)) := by
  cases hclient : s.imp.client with
  | true => exact .inl ⟨rfl, by simp [creates, ClientImp.create, hclient]⟩
  | false =>
      refine .inr ?_
      cases library with
      | success =>
          refine ⟨_, by simp [creates, ClientImp.create, hclient]; rfl, ?_⟩
          simp [CreateReport.Isolated, KeepsApart, hclient, ConnectionPars.mergedInto_eq_iff]
      | createWithOptions retval handle =>
          refine ⟨_, by simp [creates, ClientImp.create, hclient]; rfl, ?_⟩
          rw [CreateReport.Isolated, ← ClientImp.alike_iff hclient]
          simp [ClientImp.Alike, KeepsApart, hclient, ConnectionPars.mergedInto_eq_self]
      | setConnected retval | setCallbacks retval =>
          refine ⟨_, by simp [creates, ClientImp.create, hclient]; rfl, ?_⟩
          rw [CreateReport.Isolated, ← ClientImp.alike_iff hclient]
          simp [ClientImp.Alike, KeepsApart, hclient]

theorem isolated_creates {clientId : StdString} {cp : ConnectionPars} {library : LibraryCalls}
    (h : s.Isolated configured) : (s.creates clientId cp library).Isolated configured ↔
      s.KeepsApart configured (.create clientId cp library) := by
  obtain ⟨hclient, hreports⟩ | ⟨report, hreports, hiff⟩ :=
    @creates_reports configured s clientId cp library
  · have hapart : s.KeepsApart configured (.create clientId cp library) := by
      simp [KeepsApart, hclient]
    simpa [Isolated, hreports, hapart] using h
  · rw [← hiff]
    refine ⟨fun hall => hall report (by simp [hreports]), fun hnew other hother => ?_⟩
    obtain hold | rfl := by simpa [hreports] using hother
    · exact h other hold
    · exact hnew

/-- **Isolation of clients.** In a run of `create` and `destroy` calls under any configuration, every
new client has the parameters of its own call over the configured ones and every failed call leaves
the service as it was, if and only if each call gives a value of its own wherever an earlier one has
left another value than the configured one, and fails, if at all, in its first library call, with no handle
left and with nothing new among its parameters. -/
theorem clients_isolated_iff (dataDir : StdString) (props : Properties) (s : Clients) :
    Keeps step (fun _ _ => True) (Isolated (init dataDir props).imp.parameters)
        (init dataDir props) s ↔
      Reachable step (fun s a => True ∧ s.KeepsApart (init dataDir props).imp.parameters a)
        (init dataDir props) s := by
  have hisolated : ∀ s, Reachable step
      (fun s a => True ∧ s.KeepsApart (init dataDir props).imp.parameters a) (init dataDir props) s →
      s.Isolated (init dataDir props).imp.parameters := by
    intro s h
    refine h.invariant (Isolated _) (by simp [init, Isolated]) fun s a s' hs hallowed hstep => ?_
    cases a with
    | create clientId cp library =>
        obtain rfl := Option.some.inj hstep
        exact (isolated_creates hs).mpr hallowed.2
    | destroy clientId =>
        obtain rfl := Option.some.inj hstep
        exact hs
  refine keeps_iff hisolated fun s a s' h _ hstep hnot => ?_
  cases a with
  | create clientId cp library =>
      obtain rfl := Option.some.inj hstep
      exact fun hs => hnot ((isolated_creates (hisolated s h)).mp hs)
  | destroy clientId => exact absurd trivial hnot

/-- The user and the password of the first client's broker are those of the second client, whose
call names another broker and nobody; and a failure to set the callbacks leaves a client behind. -/
theorem clients_not_isolated :
    (¬ ∀ dataDir props s, Reachable step (fun _ _ => True) (init dataDir props) s →
      ∀ cp p, .succeeded cp p ∈ s.reports → p = cp.mergedInto (init dataDir props).imp.parameters) ∧
    ¬ ∀ dataDir props s, Reachable step (fun _ _ => True) (init dataDir props) s →
      ∀ before after, .failed before after ∈ s.reports → ∀ clientId cp library,
        after.create clientId cp library = before.create clientId cp library := by
  constructor
  · intro hall
    specialize hall [] {}
    revert hall
    refine Runs.not_forall_reachable
      [.create (bytes "first") { brokerAddress := bytes "a", user := bytes "u", password := bytes "p" }
          .success,
        .destroy (bytes "first"), .create (bytes "second") { brokerAddress := bytes "b" } .success]
      ⟨_, Option.get_mem (by decide +kernel), fun h => ?_⟩
    exact absurd (h { brokerAddress := bytes "b" }
      { mqttBrokerAddr := bytes "b", mqttUser := bytes "u", mqttPassword := bytes "p" }
      (by decide +kernel)) (by decide +kernel)
  · intro hall
    specialize hall [] {}
    revert hall
    refine Runs.not_forall_reachable [.create (bytes "first") {} (.setCallbacks (-1))]
      ⟨_, Option.get_mem (by decide +kernel), fun h => ?_⟩
    exact absurd (h {} { mqttEnabledSSL := true, mqttClientId := bytes "first", client := true }
      (by decide +kernel) (bytes "second") {} .success) (by decide +kernel)

end Clients

end Shapeware.Mqtt
