import Shapeware.AwsFleetProv.Files
import Shapeware.Mqtt.Create

/-!
# What the component provides

Others ask the component whether the device is provisioned, how to connect, and for the prefix of its
topics. `worker`, the handler of the accepted registration and `activate` each set a part of that, and
`activate` says that the device is provisioned before it has looked into the provision file.
-/

namespace Shapeware.AwsFleetProv

open History Runs

/-- The part of `IIdentityProvider::IdentityParams` that is read for the provisioning data. -/
structure IdentityParams where
  topicRoot : StdString
  devStage : StdString
  vendor : StdString
  product : StdString
  serialNumber : StdString

/-- What the component is run with: `m_brokerAddr`, and what the two providers say. -/
structure Setup where
  params : IdentityParams
  brokerAddr : StdString
  dataDir : StdString

/-- `IMqttConnectionParsProvider::ProvisioningData`. -/
@[ext]
structure ProvisioningData where
  connectionPars : Mqtt.ConnectionPars
  provisionedKey : StdString
  isProvisioned : Bool
deriving DecidableEq

/-- The component with the data that it provides. -/
structure Provider where
  imp : Imp
  connectionPars : Mqtt.ConnectionPars := {}
  provisionedKey : StdString := []
  topicPrefix : StdString := []

/-- The `std::logic_error` of `getTopicPrefix`. -/
inductive NotSetYet
  | provisioningKey
deriving DecidableEq

/-- What happens to the component. `activate` may find a provision file that it cannot read or parse,
and throws then. -/
inductive ProviderAction
  | own (a : Action)
  | activate (explores : Bool)

namespace Setup

variable (setup : Setup)

def officialCertStorePath : StdString := setup.dataDir ++ bytes "/cert/official/"

def officialCertificatePemFileName : StdString :=
  setup.officialCertStorePath ++ bytes "certificate.pem.crt"

def officialPrivatePemFileName : StdString :=
  setup.officialCertStorePath ++ bytes "private.pem.key"

def provisionedKey : StdString :=
  setup.params.vendor ++ bytes "/" ++ setup.params.product ++ bytes "/" ++ setup.params.serialNumber

def topicPrefix : StdString :=
  setup.params.topicRoot ++ bytes "/" ++ setup.params.devStage ++ bytes "/" ++ setup.provisionedKey

/-- What is set when the device is provisioned. -/
def officialPars (cp : Mqtt.ConnectionPars) : Mqtt.ConnectionPars :=
  { cp with
    brokerAddress := setup.brokerAddr
    certificate := setup.officialCertificatePemFileName
    privateKey := setup.officialPrivatePemFileName }

/-- The data of a device that is provisioned. -/
def provisioned : ProvisioningData :=
  { connectionPars := setup.officialPars {}, provisionedKey := setup.provisionedKey
    isProvisioned := true }

theorem provisionedKey_ne_nil : setup.provisionedKey ≠ [] := by
  have hslash : bytes "/" ≠ [] := by decide +kernel
  simp [provisionedKey, hslash]

end Setup

/-- What a step of `worker` does to what the data depend on. -/
theorem Imp.Works.provides {s s' : Imp} (h : s.Works s') :
    s'.callback = s.callback ∧ s'.promises = s.promises ∧
      (s'.isProvisioned = s.isProvisioned ∧ (∀ connected, s.worker ≠ .report connected) ∨
        ∃ connected, s.worker = .report connected ∧ s'.isProvisioned = connected) := by
  cases h with
  | goes hpc hgoes =>
      refine ⟨rfl, rfl, .inl ⟨rfl, fun connected heq => ?_⟩⟩
      rw [hpc] at heq
      subst heq
      cases hgoes
  | throws hpc hthrows =>
      refine ⟨rfl, rfl, .inl ⟨rfl, fun connected heq => ?_⟩⟩
      rw [hpc] at heq
      subst heq
      cases hthrows
  | callsOnProvisioned hpc | callsOnError hpc | callsNobody hpc =>
      exact ⟨rfl, rfl, .inr ⟨_, hpc, rfl⟩⟩
  | creates hpc | connects hpc | cannotConnect hpc | storesHandler hpc | readsToken hpc
  | readsCertificateId hpc | publishes hpc | erasesHandler hpc | cancelErases hpc | destroys hpc
  | catches hpc =>
      exact ⟨rfl, rfl, .inl ⟨rfl, fun connected heq => by rw [hpc] at heq; cases heq⟩⟩

theorem Imp.answers_isProvisioned {s : Imp} {run : Nat} {p : Promise} {value : Bool} :
    (s.answers run p value).isProvisioned = s.isProvisioned := by
  unfold answers
  split_ifs <;> rfl

@[simp] theorem Imp.wakes_promises {s : Imp} {w : TimedWait} :
    (s.wakes w).promises = s.promises := by
  unfold wakes
  split <;> rfl

@[simp] theorem Imp.wakes_isProvisioned {s : Imp} {w : TimedWait} :
    (s.wakes w).isProvisioned = s.isProvisioned := by
  unfold wakes
  split <;> rfl

/-- An answer sets no other promise. -/
theorem Imp.promises_of_answers {s : Imp} {run : Nat} {p q : Promise} {value : Bool}
    (h : (s.answers run p value).promises q = some true) :
    s.promises q = some true ∨ q = p ∧ value = true := by
  unfold answers setValue at h
  split_ifs at h with hrun hunset
  · by_cases hq : q = p
    · subst hq
      exact .inr ⟨rfl, by simpa using h⟩
    · exact .inl (by simpa [hq] using h)
  · exact .inl h
  · exact .inl h

namespace Provider

variable (setup : Setup)

def init : Provider := { imp := .init }

def getProvisioningData (p : Provider) : ProvisioningData :=
  { connectionPars := p.connectionPars, provisionedKey := p.provisionedKey
    isProvisioned := p.imp.isProvisioned }

def getTopicPrefix (p : Provider) : Except NotSetYet StdString :=
  if p.provisionedKey = [] then .error .provisioningKey else .ok p.topicPrefix

/-- A call of `exploreProvisionFile` that does not throw. -/
def explores (p : Provider) : Provider :=
  { p with provisionedKey := setup.provisionedKey, topicPrefix := setup.topicPrefix }

/-- What `worker` and the library thread set in the next step. -/
def sets (p : Provider) : Action → Provider
  | .worker _ => match p.imp.worker with
    | .report true => { p with connectionPars := setup.officialPars p.connectionPars }
    | _ => p
  | .callback .ok => match p.imp.callback with
    | .onMessage _ (.exploreProvisionFile :: _) => p.explores setup
    | _ => p
  | .stop => { imp := p.imp }
  | _ => p

/-- What `activate` sets, apart from `m_isProvisioned`. -/
def activates (p : Provider) (explores : Bool) : Provider :=
  if p.imp.activates.isProvisioned then
    let p := { p with connectionPars := setup.officialPars p.connectionPars }
    if explores then p.explores setup else p
  else
    { p with connectionPars :=
      { p.connectionPars with brokerAddress := [], certificate := [], privateKey := [] } }

/-- `activate` only looks into the provision file when it has found the four files, and throws what
`exploreProvisionFile` throws. -/
def activateThrows (p : Provider) (explores : Bool) : Bool :=
  p.imp.activates.isProvisioned && !explores

def step (p : Provider) : ProviderAction → Option Provider
  | .own .activate => none
  | .own a => (p.imp.step a).map fun imp => { p.sets setup a with imp }
  | .activate explores =>
    (p.imp.step .activate).map fun imp => { p.activates setup explores with imp }

/-- Who is told that the device is provisioned can have all the data. -/
def Complete (p : Provider) : Prop :=
  p.imp.isProvisioned = true → p.getProvisioningData = setup.provisioned ∧
    p.getTopicPrefix = .ok setup.topicPrefix

/-- The provision file can be read and parsed, if `activate` needs it. -/
def ReadsFile (p : Provider) (a : ProviderAction) : Prop :=
  a = .activate false → (∀ f, p.imp.files f ≠ none) → p.provisionedKey ≠ []

/-! ### What has been explored -/

variable {setup : Setup} {p p' : Provider} {a : Action} {outcome : Outcome} {imp : Imp}

def Explored (setup : Setup) (p : Provider) : Prop :=
  p.provisionedKey = setup.provisionedKey ∧ p.topicPrefix = setup.topicPrefix

/-- The promise of the registration is not set before the provision file has been explored. -/
def Covered (explored : Prop) : List MessageOp → Prop
  | [] => True
  | .exploreProvisionFile :: _ => True
  | .setValue .register true :: _ => explored
  | _ :: rest => Covered explored rest

theorem Covered.mono {explored explored' : Prop} {rest : List MessageOp}
    (h : Covered explored rest) (himp : explored → explored') : Covered explored' rest := by
  induction rest with
  | nil => trivial
  | cons op rest ih =>
      cases op with
      | setValue r accepted => cases r <;> cases accepted <;> first | exact himp h | exact ih h
      | exploreProvisionFile => trivial
      | _ => exact ih h

theorem covered_of_explored {explored : Prop} (h : explored) (rest : List MessageOp) :
    Covered explored rest := by
  induction rest with
  | nil => trivial
  | cons op rest ih =>
      cases op with
      | setValue r accepted => cases r <;> cases accepted <;> first | exact h | exact ih
      | exploreProvisionFile => trivial
      | _ => exact ih

theorem covered_onMessage (t : Topic) (explored : Prop) : Covered explored (onMessage t) := by
  cases t <;> trivial

/-- The data are set where they should be. -/
structure Provides (setup : Setup) (p : Provider) : Prop where
  ordered : p.imp.Ordered
  known : (p.provisionedKey = [] ∧ p.topicPrefix = []) ∨ p.Explored setup
  pars : p.connectionPars = {} ∨ p.connectionPars = setup.officialPars {}
  covered : ∀ source rest, p.imp.callback = .onMessage source rest →
    Covered (p.Explored setup) rest
  responded : p.imp.promises (.responded .register) = some true → p.Explored setup
  provisioned : p.imp.isProvisioned = true →
    p.Explored setup ∧ p.connectionPars = setup.officialPars {}

theorem officialPars_of_pars (h : p.connectionPars = {} ∨ p.connectionPars = setup.officialPars {}) :
    setup.officialPars p.connectionPars = setup.officialPars {} := by
  obtain h | h := h
  · rw [h]
  · rw [h]
    rfl

theorem step_own (h : p.step setup (.own a) = some p') :
    ∃ imp, p.imp.step a = some imp ∧ { p.sets setup a with imp } = p' ∧ a ≠ .activate := by
  cases a with
  | activate => cases h
  | _ =>
      rw [step] at h
      · obtain ⟨imp, himp, heq⟩ := Option.map_eq_some_iff.mp h
        exact ⟨imp, himp, heq, by simp⟩
      · simp

namespace Provides

theorem init : Provider.init.Provides setup where
  ordered := .init
  known := .inl ⟨rfl, rfl⟩
  pars := .inl rfl
  covered := fun _ _ heq => by cases heq
  responded := fun heq => by cases heq
  provisioned := fun heq => by cases heq

/-- `makeProvisioning` has returned, so the answer to the registration was explored. -/
theorem explored_of_report (h : p.Provides setup) (hpc : p.imp.worker = .report true) :
    p.Explored setup := by
  have hbehind := h.ordered.behind
  rw [hpc] at hbehind
  have hchecked : Done p.imp.trace (.check (.responded .register)) := hbehind _ (by decide)
  exact h.responded ((h.ordered.results _).trans hchecked)

theorem works (h : p.Provides setup) (hworks : p.imp.Works imp) :
    Provides setup { p.sets setup (.worker outcome) with imp } := by
  obtain ⟨hcallback, hpromises, ⟨hsame, hpc⟩ | ⟨connected, hpc, hconnected⟩⟩ := hworks.provides
  · have hsets : p.sets setup (.worker outcome) = p := by
      rw [sets]
      split
      case h_1 heq => exact absurd heq (hpc true)
      case h_2 => rfl
    rw [hsets]
    exact ⟨h.ordered.works hworks, h.known, h.pars, fun source rest heq =>
      h.covered source rest (hcallback.symm.trans heq), fun heq =>
      h.responded ((congrFun hpromises _).symm.trans heq), fun heq =>
      h.provisioned (hsame.symm.trans heq)⟩
  · cases connected with
    | false =>
        have hsets : p.sets setup (.worker outcome) = p := by simp [sets, hpc]
        rw [hsets]
        exact ⟨h.ordered.works hworks, h.known, h.pars, fun source rest heq =>
          h.covered source rest (hcallback.symm.trans heq), fun heq =>
          h.responded ((congrFun hpromises _).symm.trans heq), fun heq =>
          absurd (heq.symm.trans hconnected) Bool.noConfusion⟩
    | true =>
        have hsets : p.sets setup (.worker outcome) =
            { p with connectionPars := setup.officialPars p.connectionPars } := by
          simp [sets, hpc]
        have hexplored := h.explored_of_report hpc
        have hpars := officialPars_of_pars h.pars
        rw [hsets, hpars]
        exact ⟨h.ordered.works hworks, .inr hexplored, .inr rfl, fun _ rest _ =>
          covered_of_explored hexplored rest, fun _ => hexplored, fun _ => ⟨hexplored, rfl⟩⟩

theorem frame (h : p.Provides setup) (hordered : imp.Ordered)
    (hcovered : ∀ source rest, imp.callback = .onMessage source rest →
      Covered (p.Explored setup) rest)
    (hresponded : imp.promises (.responded .register) = some true → p.Explored setup)
    (hprovisioned : imp.isProvisioned = p.imp.isProvisioned) :
    Provides setup { p with imp } where
  ordered := hordered
  known := h.known
  pars := h.pars
  covered := hcovered
  responded := hresponded
  provisioned := fun heq => h.provisioned (hprovisioned.symm.trans heq)

theorem of_explored (h : p.Provides setup) (hordered : imp.Ordered)
    (hprovisioned : imp.isProvisioned = p.imp.isProvisioned) :
    Provides setup { p.explores setup with imp } where
  ordered := hordered
  known := .inr ⟨rfl, rfl⟩
  pars := h.pars
  covered := fun _ rest _ => covered_of_explored ⟨rfl, rfl⟩ rest
  responded := fun _ => ⟨rfl, rfl⟩
  provisioned := fun heq => ⟨⟨rfl, rfl⟩, (h.provisioned (hprovisioned.symm.trans heq)).2⟩

/-- A step of the library thread between two handlers, or of the application. -/
theorem quiet (h : p.Provides setup) (hsteps : p.imp.Steps a imp)
    (hworker : ∀ outcome, a ≠ .worker outcome) (hcallback : ∀ outcome, a ≠ .callback outcome)
    (hstop : a ≠ .stop) (hactivate : a ≠ .activate) : Provides setup { p with imp } := by
  have hordered := h.ordered.step hsteps
  cases hsteps with
  | works => exact absurd rfl (hworker _)
  | activates => exact absurd rfl hactivate
  | stops => exact absurd rfl hstop
  | setsConnected | onConnectReturns | onMessageReturns | handles | onMessageThrows =>
      exact absurd rfl (hcallback _)
  | startsWorker => exact h.frame hordered h.covered (fun heq => by cases heq) rfl
  | callsOnConnect => exact h.frame hordered (fun _ _ heq => by cases heq) h.responded rfl
  | @callsOnMessage t =>
      refine h.frame hordered (fun source rest heq => ?_) h.responded rfl
      obtain ⟨-, rfl⟩ := Callback.onMessage.inj heq
      exact covered_onMessage t _
  | answersSubscribe | answersSend =>
      refine h.frame hordered (fun source rest heq => ?_) (fun heq => ?_) Imp.answers_isProvisioned
      · exact h.covered source rest (by simpa using heq)
      · obtain hold | ⟨heq, -⟩ := Imp.promises_of_answers heq
        · exact h.responded hold
        · cases heq
  | _ => exact h.frame hordered h.covered h.responded rfl

/-- An operation of a handler that is not `exploreProvisionFile`. -/
theorem handles (h : p.Provides setup) {source : Source} {op : MessageOp} {rest : List MessageOp}
    (hcallback : p.imp.callback = .onMessage source (op :: rest)) (hop : op ≠ .exploreProvisionFile) :
    Provides setup { p with imp :=
      { p.imp.handles source op with callback := .onMessage source rest } } := by
  have hordered := h.ordered.step (.handles hcallback)
  have hcovered := h.covered source _ hcallback
  have hrest : Covered (p.Explored setup) rest := by
    cases op with
    | exploreProvisionFile => exact absurd rfl hop
    | setValue r accepted =>
        cases r with
        | keys => exact hcovered
        | register =>
            cases accepted with
            | false => exact hcovered
            | true => exact covered_of_explored hcovered rest
    | _ => exact hcovered
  refine h.frame hordered (fun source' rest' heq => ?_) (fun heq => ?_) ?_
  · obtain ⟨-, rfl⟩ := Callback.onMessage.inj heq
    exact hrest
  · cases op with
    | setValue r accepted =>
        obtain hold | ⟨hresponded, rfl⟩ := Imp.promises_of_answers heq
        · exact h.responded hold
        · cases hresponded
          exact hcovered
    | _ => exact h.responded heq
  · cases op with
    | setValue r accepted => exact Imp.answers_isProvisioned
    | _ => rfl

theorem callsBack (h : p.Provides setup) (hstep : p.imp.step (.callback outcome) = some imp) :
    Provides setup { p.sets setup (.callback outcome) with imp } := by
  have hordered := h.ordered.step (Imp.step_cases hstep)
  change p.imp.callsBack outcome = some imp at hstep
  rw [Imp.callsBack] at hstep
  cases hcallback : p.imp.callback with
  | idle => simp [hcallback] at hstep
  | onConnect run =>
      have hsets : p.sets setup (.callback outcome) = p := by
        cases outcome <;> simp [sets, hcallback]
      simp only [hcallback] at hstep
      rw [hsets]
      split_ifs at hstep with hmutex hrun
      · obtain rfl := Option.some.inj hstep
        exact h.frame hordered (fun _ _ heq => by cases heq)
          (fun heq => h.responded (by simpa using heq)) (by simp)
      · obtain rfl := Option.some.inj hstep
        exact h.frame hordered (fun _ _ heq => by cases heq) h.responded rfl
  | onMessage source rest =>
      simp only [hcallback] at hstep
      cases rest with
      | nil =>
          have hsets : p.sets setup (.callback outcome) = p := by
            cases outcome <;> simp [sets, hcallback]
          obtain rfl := Option.some.inj hstep
          rw [hsets]
          exact h.frame hordered (fun _ _ heq => by cases heq) h.responded rfl
      | cons op rest =>
          cases outcome with
          | threw =>
              simp only at hstep
              split_ifs at hstep
              obtain rfl := Option.some.inj hstep
              exact h.frame hordered (fun _ _ heq => by cases heq) h.responded rfl
          | ok =>
              obtain rfl := Option.some.inj hstep
              by_cases hop : op = .exploreProvisionFile
              · subst hop
                have hsets : p.sets setup (.callback .ok) = p.explores setup := by
                  simp [sets, hcallback]
                rw [hsets]
                exact h.of_explored hordered rfl
              · have hsets : p.sets setup (.callback .ok) = p := by
                  simp only [sets, hcallback]
                  split
                  case h_1 heq =>
                    obtain ⟨-, heq⟩ := Callback.onMessage.inj heq
                    exact absurd (List.cons.inj heq).1 hop
                  case h_2 => rfl
                rw [hsets]
                exact h.handles hcallback hop

theorem stops (h : p.Provides setup) (hstep : p.imp.step .stop = some imp) :
    Provides setup { p.sets setup .stop with imp } := by
  have hordered := h.ordered.step (Imp.step_cases hstep)
  obtain rfl := Option.some.inj hstep
  exact ⟨hordered, .inl ⟨rfl, rfl⟩, .inl rfl, fun _ _ heq => (by cases heq),
    fun heq => (by cases heq), fun heq => (by cases heq)⟩

theorem activates (h : p.Provides setup) {explores : Bool}
    (hreads : p.ReadsFile (.activate explores)) (hstep : p.imp.step .activate = some imp) :
    Provides setup { p.activates setup explores with imp } := by
  have hordered := h.ordered.step (Imp.step_cases hstep)
  obtain rfl := Imp.eq_activates hstep
  have hpars := officialPars_of_pars h.pars
  cases hprovisioned : p.imp.activates.isProvisioned with
  | false =>
      have hcleared : ({ p.connectionPars with
          brokerAddress := [], certificate := [], privateKey := [] } : Mqtt.ConnectionPars) = {} := by
        obtain heq | heq := h.pars
        · rw [heq]
        · rw [heq]
          rfl
      rw [Provider.activates, hprovisioned, if_neg Bool.false_ne_true, hcleared]
      exact ⟨hordered, h.known, .inl rfl, h.covered, h.responded,
        fun heq => absurd (heq.symm.trans hprovisioned) Bool.noConfusion⟩
  | true =>
      rw [Provider.activates, hprovisioned, if_pos rfl, hpars]
      have hexplored : explores = false → p.Explored setup := by
        rintro rfl
        exact h.known.resolve_left fun hnone =>
          hreads rfl (Imp.isProvisioned_activates.mp hprovisioned) hnone.1
      cases explores with
      | true =>
          exact ⟨hordered, .inr ⟨rfl, rfl⟩, .inr rfl,
            fun _ rest _ => covered_of_explored ⟨rfl, rfl⟩ rest, fun _ => ⟨rfl, rfl⟩,
            fun _ => ⟨⟨rfl, rfl⟩, rfl⟩⟩
      | false =>
          exact ⟨hordered, h.known, .inr rfl, h.covered, h.responded,
            fun _ => ⟨hexplored rfl, rfl⟩⟩

theorem step {a : ProviderAction} (h : p.Provides setup) (hreads : p.ReadsFile a)
    (hstep : p.step setup a = some p') : p'.Provides setup := by
  cases a with
  | activate explores =>
      obtain ⟨imp, himp, rfl⟩ := Option.map_eq_some_iff.mp hstep
      exact h.activates hreads himp
  | own a =>
      obtain ⟨imp, himp, rfl, hactivate⟩ := step_own hstep
      cases a with
      | stop => exact h.stops himp
      | worker outcome => exact h.works (Imp.work_cases himp)
      | callback outcome => exact h.callsBack himp
      | activate => exact absurd rfl hactivate
      | _ => exact h.quiet (Imp.step_cases himp) (by simp) (by simp) (by simp) (by simp)

theorem complete (h : p.Provides setup) : p.Complete setup := by
  intro hprovisioned
  obtain ⟨⟨hkey, htopicPrefix⟩, hpars⟩ := h.provisioned hprovisioned
  refine ⟨?_, ?_⟩
  · simp [getProvisioningData, Setup.provisioned, hprovisioned, hkey, hpars]
  · simp [getTopicPrefix, hkey, htopicPrefix, setup.provisionedKey_ne_nil]

end Provides

/-- An `activate` that cannot read the provision file, and the key was not set before. -/
theorem activates_of_not_readsFile {a : ProviderAction} (hreads : ¬ p.ReadsFile a)
    (hstep : p.step setup a = some p') :
    a = .activate false ∧ p.activateThrows false = true ∧
      p'.getProvisioningData.isProvisioned = true ∧
      p'.getTopicPrefix = .error .provisioningKey := by
  obtain ⟨rfl, hneeds⟩ := Classical.not_imp.mp hreads
  obtain ⟨hfiles, hkey⟩ := Classical.not_imp.mp hneeds
  obtain ⟨imp, himp, rfl⟩ := Option.map_eq_some_iff.mp hstep
  obtain rfl := Imp.eq_activates himp
  have hprovisioned : p.imp.activates.isProvisioned = true := Imp.isProvisioned_activates.mpr hfiles
  refine ⟨rfl, by simp [activateThrows, hprovisioned], hprovisioned, ?_⟩
  have hkey' : (p.activates setup false).provisionedKey = [] := by
    rw [Provider.activates, if_pos hprovisioned]
    exact not_not.mp hkey
  exact if_pos hkey'

/-- **Complete data.** In a run, through any number of restarts, the device is only said to be
provisioned when all its data are there, the same ones after the registration as after a restart,
exactly if every `activate` that finds the four files can read the provision file, or the key has been
set before. Otherwise `activate` throws, and the device is said to be provisioned while its topic
prefix cannot be had. -/
theorem complete_iff :
    (Keeps (step setup) (fun _ _ => True) (Complete setup) Provider.init p ↔
      Reachable (step setup) (fun p a => True ∧ p.ReadsFile a) Provider.init p) ∧
    ∀ a p', ¬ p.ReadsFile a → p.step setup a = some p' →
      a = .activate false ∧ p.activateThrows false = true ∧
        p'.getProvisioningData.isProvisioned = true ∧
        p'.getTopicPrefix = .error .provisioningKey := by
  refine ⟨keeps_iff (fun p h => ?_) fun p a p' _ _ hstep hreads hcomplete => ?_, fun a p' hreads =>
    activates_of_not_readsFile hreads⟩
  · exact (h.invariant (Provides setup) .init fun _ _ _ hp hallowed hstep =>
      hp.step hallowed.2 hstep).complete
  · obtain ⟨-, -, hprovisioned, hthrows⟩ := activates_of_not_readsFile hreads hstep
    have htopic := (hcomplete hprovisioned).2
    rw [hthrows] at htopic
    cases htopic

/-- After a registration and a restart, a provision file that cannot be parsed leaves a device that is
said to be provisioned, without a prefix. -/
example : ∃ p ∈ Runs.run (step ⟨⟨bytes "r", bytes "d", bytes "v", bytes "p", bytes "1"⟩, bytes "b", []⟩)
    (fun _ _ => True) Provider.init (((List.flatten [Action.connects, Action.createsKeys,
      Action.asksToRegister, Action.isRegistered, [.stop]]).map .own) ++ [.activate false]),
    p.getProvisioningData.isProvisioned = true ∧ p.getTopicPrefix = .error .provisioningKey := by
  decide +kernel

end Provider

end Shapeware.AwsFleetProv
