import Shapeware.Cxx
import Shapeware.AwsFleetProv.Service
import Shapeware.Library.Effects

/-!
# What the handlers make of a message

The four `onMessage` handlers parse what they get, and throw where it is not what they expect or where
a file cannot be opened. `msgarrvd` calls them without a `try`. The parser of rapidjson is a parameter
here.
-/

namespace Shapeware.AwsFleetProv

open Effects

inductive Json
  | null
  | bool (value : Bool)
  | number (value : ℚ)
  | string (value : StdString)
  | array (elements : List Json)
  | object (members : List (String × Json))

/-- `rapidjson::Pointer` with one name. -/
def Json.get (doc : Json) (name : String) : Option Json :=
  match doc with
  | .object members => (members.find? fun member => member.1 = name).map Prod.snd
  | _ => none

/-- `Parse` and `ParseStream`, which fail with `HasParseError`. -/
structure Rapidjson where
  parse : StdString → Option Json
  parseStream : StdString → Option Json

/-- What becomes of the files while a message is handled. -/
structure Disk where
  opens : OfficialFile → Bool
  /-- What is in a file after it was written and closed. -/
  stores : StdString → StdString
  /-- The provision file can be opened for reading. -/
  reopens : Bool

structure Message where
  topic : Topic
  payload : StdString
  disk : Disk

inductive Exception
  /-- `Json parse error`, with what it is in. -/
  | jsonParseError (inside : String)
  /-- `Missing or bad type: `. -/
  | missingOrBadType (pointerPath : String)
  /-- `Cannot open file: `, for writing. -/
  | cannotOpenFile (f : OfficialFile)
  /-- `Cannot open: `, for reading. -/
  | cannotOpen (f : OfficialFile)

/-- What the handlers of a run read and write. -/
structure Device where
  certificateId : StdString
  token : StdString
  files : OfficialFile → Option StdString
  responded : Request → Option Bool
  /-- The operations that the handlers have performed. -/
  performed : List MessageOp

abbrev Handler (α : Type) := ExceptT Exception (StateM Device) α

/-- The call is the operation. -/
def perform {α : Type} (op : MessageOp) (call : Handler α) : Handler α := do
  let a ← call
  modify fun d => { d with performed := d.performed ++ [op] }
  pure a

/-! ### The calls of the handlers -/

/-- `GET_JSON_AS_STR`, of which `GetString` shows what comes before the first zero. -/
def getJsonAsStr (doc : Json) (name : String) : Handler StdString :=
  match doc.get name with
  | some (.string value) => pure (cStr value)
  | _ => throw (.missingOrBadType ("/" ++ name))

/-- `GET_JSON_AS_INT`. -/
def getJsonAsInt (doc : Json) (name : String) : Handler Int :=
  match doc.get name with
  | some (.number value) => pure (value.num.tdiv value.den)
  | _ => throw (.missingOrBadType ("/" ++ name))

def openFile (disk : Disk) (f : OfficialFile) : Handler Unit :=
  if disk.opens f then modify fun d => { d with files := Function.update d.files f (some []) }
  else throw (.cannotOpenFile f)

/-- Writes and closes a file, and says what is in it then. -/
def closeFile (disk : Disk) (f : OfficialFile) (data : StdString) : Handler StdString := do
  modify fun d => { d with files := Function.update d.files f (some (disk.stores data)) }
  pure (disk.stores data)

/-- `set_value`, with its own `try`. -/
def setValue (r : Request) (accepted : Bool) : Handler Unit :=
  modify fun d =>
    if d.responded r = none then
      { d with responded := Function.update d.responded r (some accepted) }
    else d

namespace Rapidjson

variable (J : Rapidjson)

/-- An empty message is not parsed, and leaves the document null. -/
def document (msg : StdString) : Option Json :=
  if msg = [] then some .null else J.parse msg

def parseMessage (inside : String) (msg : StdString) : Handler Json :=
  match J.document msg with
  | some doc => pure doc
  | none => throw (.jsonParseError inside)

def exploreProvisionFile (disk : Disk) (contents : StdString) : Handler Unit := do
  if disk.reopens = false then throw (.cannotOpen .provision)
  match J.parseStream contents with
  | some _ => pure ()
  | none => throw (.jsonParseError "")

/-! ### The handlers -/

def onKeysAccepted (disk : Disk) (msg : StdString) : Handler Unit := do
  let doc ← perform .parse (J.parseMessage "keys accepted" msg)
  perform .setCertificateId do
    let certificateId ← getJsonAsStr doc "certificateId"
    modify fun d => { d with certificateId }
  let cert ← perform .parse (getJsonAsStr doc "certificatePem")
  let key ← perform .parse (getJsonAsStr doc "privateKey")
  perform .setToken do
    let token ← getJsonAsStr doc "certificateOwnershipToken"
    modify fun d => { d with token }
  perform (.open .certificates) (openFile disk .certificates)
  perform (.open .certificatePem) (openFile disk .certificatePem)
  perform (.open .privatePem) (openFile disk .privatePem)
  let _ ← perform (.close .certificates) (closeFile disk .certificates msg)
  let _ ← perform (.close .certificatePem) (closeFile disk .certificatePem cert)
  let _ ← perform (.close .privatePem) (closeFile disk .privatePem key)
  perform (.setValue .keys true) (setValue .keys true)

/-- The two handlers of a rejected request differ in the text of an exception. -/
def onRejected (r : Request) (inside : String) (msg : StdString) : Handler Unit := do
  perform .parse do
    let doc ← J.parseMessage inside msg
    let _ ← getJsonAsInt doc "statusCode"
    let _ ← getJsonAsStr doc "errorCode"
    let _ ← getJsonAsStr doc "errorMessage"
    pure ()
  perform (.setValue r false) (setValue r false)

def onKeysRejected (msg : StdString) : Handler Unit := J.onRejected .keys "keys accepted" msg

def onRegisterAccepted (disk : Disk) (msg : StdString) : Handler Unit := do
  perform (.open .provision) (openFile disk .provision)
  let contents ← perform (.close .provision) (closeFile disk .provision msg)
  perform .exploreProvisionFile (J.exploreProvisionFile disk contents)
  perform (.setValue .register true) (setValue .register true)

def onRegisterRejected (msg : StdString) : Handler Unit := J.onRejected .register "keys rejected" msg

/-- The handler that `msgarrvd` calls for a message. -/
def handle (m : Message) : Handler Unit :=
  match m.topic with
  | .keysAccepted => J.onKeysAccepted m.disk m.payload
  | .keysRejected => J.onKeysRejected m.payload
  | .registerAccepted => J.onRegisterAccepted m.disk m.payload
  | .registerRejected => J.onRegisterRejected m.payload

end Rapidjson

/-! ### When a handler returns -/

namespace Json

def HasString (doc : Json) (name : String) : Prop := ∃ value, doc.get name = some (.string value)

def HasNumber (doc : Json) (name : String) : Prop := ∃ value, doc.get name = some (.number value)

/-- What `GET_JSON_AS_STR` gets. -/
def asStr (doc : Json) (name : String) : StdString :=
  match doc.get name with
  | some (.string value) => cStr value
  | _ => []

/-- What `GET_JSON_AS_INT` gets. -/
def asInt (doc : Json) (name : String) : Int :=
  match doc.get name with
  | some (.number value) => value.num.tdiv value.den
  | _ => 0

end Json

/-- The payload is what the handler of the topic expects, and the files can be opened. -/
def Rapidjson.WellFormed (J : Rapidjson) (m : Message) : Prop :=
  let doc := (J.document m.payload).getD .null
  match m.topic with
  | .keysAccepted => (J.document m.payload).isSome = true ∧ doc.HasString "certificateId" ∧
      doc.HasString "certificatePem" ∧ doc.HasString "privateKey" ∧
      doc.HasString "certificateOwnershipToken" ∧ m.disk.opens .certificates = true ∧
      m.disk.opens .certificatePem = true ∧ m.disk.opens .privatePem = true
  | .registerAccepted => m.disk.opens .provision = true ∧ m.disk.reopens = true ∧
      (J.parseStream (m.disk.stores m.payload)).isSome = true
  | .keysRejected | .registerRejected => (J.document m.payload).isSome = true ∧
      doc.HasNumber "statusCode" ∧ doc.HasString "errorCode" ∧ doc.HasString "errorMessage"

section Calls

variable {α : Type} {op : MessageOp} {call : Handler α} {value : α} {ok : Prop} {J : Rapidjson}
  {disk : Disk} {f : OfficialFile} {doc : Json} {name : String}

/-- The call performs no operation of `onMessage`. -/
abbrev QuietCall (call : Handler α) (value : α) (ok : Prop) : Prop :=
  Quiet Device.performed call value ok

/-- The call performs the operations of `onMessage`. -/
abbrev Performs (call : Handler α) (value : α) (ops : List MessageOp) (ok : Prop) : Prop :=
  Follows Device.performed MessageOp.canThrow call value ops ok

theorem performs_perform (h : QuietCall call value ok) (hop : op.canThrow = false → ok) :
    Performs (perform op call) value [op] ok where
  returns := fun hok d => by
    obtain ⟨d', hcall, hperformed⟩ := h.returns hok d
    refine ⟨{ d' with performed := d'.performed ++ [op] }, by simp [perform, hcall], ?_⟩
    rw [← hperformed]
  throws := fun hnot d => by
    obtain ⟨e, d', hcall, hperformed⟩ := h.throws hnot d
    refine ⟨e, d', [], op, [], by simp [perform, hcall], by simp [hperformed], rfl, ?_⟩
    exact eq_true_of_ne_false fun hop' => hnot (hop hop')

theorem quiet_getJsonAsStr :
    QuietCall (getJsonAsStr doc name) (doc.asStr name) (doc.HasString name) := by
  rw [getJsonAsStr, Json.asStr, Json.HasString]
  split
  case h_1 value hvalue =>
    exact ⟨fun _ d => ⟨d, rfl, rfl⟩, fun hnot => (hnot ⟨value, hvalue⟩).elim⟩
  case h_2 hother =>
    exact ⟨fun ⟨value, hvalue⟩ => (hother value hvalue).elim, fun _ d => ⟨_, d, rfl, rfl⟩⟩

theorem quiet_getJsonAsInt :
    QuietCall (getJsonAsInt doc name) (doc.asInt name) (doc.HasNumber name) := by
  rw [getJsonAsInt, Json.asInt, Json.HasNumber]
  split
  case h_1 value hvalue =>
    exact ⟨fun _ d => ⟨d, rfl, rfl⟩, fun hnot => (hnot ⟨value, hvalue⟩).elim⟩
  case h_2 hother =>
    exact ⟨fun ⟨value, hvalue⟩ => (hother value hvalue).elim, fun _ d => ⟨_, d, rfl, rfl⟩⟩

theorem quiet_parseMessage {inside : String} {msg : StdString} :
    QuietCall (J.parseMessage inside msg) ((J.document msg).getD .null)
      ((J.document msg).isSome = true) := by
  rw [Rapidjson.parseMessage]
  cases J.document msg with
  | some doc => exact ⟨fun _ d => ⟨d, rfl, rfl⟩, fun hnot => (hnot rfl).elim⟩
  | none => exact ⟨nofun, fun _ d => ⟨_, d, rfl, rfl⟩⟩

/-- A member of the component is set to what `GET_JSON_AS_STR` gets. -/
theorem quiet_setJsonAsStr {set : StdString → Device → Device}
    (hset : ∀ value d, (set value d).performed = d.performed) :
    QuietCall (do
      let value ← getJsonAsStr doc name
      modify (set value)) () (doc.HasString name) :=
  (quiet_getJsonAsStr.bind fun _ => Quiet.modify (hset _)).congr (and_iff_left trivial)

theorem performs_parseMessage {inside : String} {msg : StdString} :
    Performs (perform .parse (J.parseMessage inside msg)) ((J.document msg).getD .null) [.parse]
      ((J.document msg).isSome = true) :=
  performs_perform quiet_parseMessage nofun

theorem performs_getJsonAsStr :
    Performs (perform .parse (getJsonAsStr doc name)) (doc.asStr name) [.parse]
      (doc.HasString name) :=
  performs_perform quiet_getJsonAsStr nofun

theorem performs_setCertificateId :
    Performs (perform .setCertificateId do
        let certificateId ← getJsonAsStr doc name
        modify fun d => { d with certificateId }) () [.setCertificateId] (doc.HasString name) :=
  performs_perform (quiet_setJsonAsStr fun _ _ => rfl) nofun

theorem performs_setToken :
    Performs (perform .setToken do
        let token ← getJsonAsStr doc name
        modify fun d => { d with token }) () [.setToken] (doc.HasString name) :=
  performs_perform (quiet_setJsonAsStr fun _ _ => rfl) nofun

theorem performs_openFile :
    Performs (perform (.open f) (openFile disk f)) () [.open f] (disk.opens f = true) := by
  refine performs_perform ⟨fun hopens d => ?_, fun hnot d => ?_⟩ nofun
  · exact ⟨{ d with files := Function.update d.files f (some []) }, by simp [openFile, hopens], rfl⟩
  · exact ⟨_, d, by simp [openFile, hnot]; rfl, rfl⟩

theorem performs_closeFile {data : StdString} :
    Performs (perform (.close f) (closeFile disk f data)) (disk.stores data) [.close f] True :=
  performs_perform ⟨fun _ _ => ⟨_, rfl, rfl⟩, fun hnot => (hnot trivial).elim⟩ fun _ => trivial

theorem performs_setValue {r : Request} {accepted : Bool} :
    Performs (perform (.setValue r accepted) (setValue r accepted)) () [.setValue r accepted] True := by
  refine performs_perform (.modify fun _ => ?_) fun _ => trivial
  split_ifs <;> rfl

theorem performs_exploreProvisionFile {contents : StdString} :
    Performs (perform .exploreProvisionFile (J.exploreProvisionFile disk contents)) ()
      [.exploreProvisionFile] (disk.reopens = true ∧ (J.parseStream contents).isSome = true) := by
  refine performs_perform ⟨fun hok d => ?_, fun hnot d => ?_⟩ nofun
  · obtain ⟨doc, hdoc⟩ := Option.isSome_iff_exists.mp hok.2
    exact ⟨d, by simp [Rapidjson.exploreProvisionFile, hok.1, hdoc], rfl⟩
  · cases hreopens : disk.reopens with
    | false => exact ⟨.cannotOpen .provision, d, by simp [Rapidjson.exploreProvisionFile, hreopens], rfl⟩
    | true =>
        have hparse : J.parseStream contents = none := by simpa [hreopens] using hnot
        exact ⟨.jsonParseError "", d,
          by simp [Rapidjson.exploreProvisionFile, hreopens, hparse], rfl⟩

end Calls

namespace Rapidjson

variable {J : Rapidjson} {disk : Disk} {msg : StdString} {r : Request} {inside : String}

theorem performs_onRejected :
    Performs (J.onRejected r inside msg) () [.parse, .setValue r false]
      (J.WellFormed ⟨.keysRejected, msg, disk⟩) := by
  have hchecks : QuietCall (do
      let doc ← J.parseMessage inside msg
      let _ ← getJsonAsInt doc "statusCode"
      let _ ← getJsonAsStr doc "errorCode"
      let _ ← getJsonAsStr doc "errorMessage"
      pure ()) () (J.WellFormed ⟨.keysRejected, msg, disk⟩) := by
    refine (quiet_parseMessage.bind fun _ => quiet_getJsonAsInt.bind fun _ =>
      quiet_getJsonAsStr.bind fun _ => quiet_getJsonAsStr.bind fun _ => .pure _ ()).congr ?_
    simp [WellFormed]
  have hparse : Performs (perform .parse _) () [.parse] _ := performs_perform hchecks nofun
  exact (hparse.bind fun _ => performs_setValue).congr (by simp)

theorem performs_onRegisterAccepted :
    Performs (J.onRegisterAccepted disk msg) () (onMessage .registerAccepted)
      (J.WellFormed ⟨.registerAccepted, msg, disk⟩) := by
  refine (performs_openFile.bind fun _ => performs_closeFile.bind fun _ =>
    performs_exploreProvisionFile.bind fun _ => performs_setValue).congr ?_
  simp [WellFormed]

theorem performs_onKeysAccepted :
    Performs (J.onKeysAccepted disk msg) () (onMessage .keysAccepted)
      (J.WellFormed ⟨.keysAccepted, msg, disk⟩) := by
  refine (performs_parseMessage.bind fun _ => performs_setCertificateId.bind fun _ =>
    performs_getJsonAsStr.bind fun _ => performs_getJsonAsStr.bind fun _ =>
    performs_setToken.bind fun _ => performs_openFile.bind fun _ => performs_openFile.bind fun _ =>
    performs_openFile.bind fun _ => performs_closeFile.bind fun _ => performs_closeFile.bind fun _ =>
    performs_closeFile.bind fun _ => performs_setValue).congr ?_
  simp [WellFormed]

/-- Each handler performs the operations of `onMessage`, up to one that throws unless the payload is
well formed. -/
theorem performs_handle (m : Message) :
    Performs (J.handle m) () (onMessage m.topic) (J.WellFormed m) := by
  obtain ⟨topic, payload, disk⟩ := m
  cases topic with
  | keysAccepted => exact performs_onKeysAccepted
  | registerAccepted => exact performs_onRegisterAccepted
  | keysRejected => exact performs_onRejected
  | registerRejected =>
      have hrejected : Performs (J.onRegisterRejected payload) () [.parse, .setValue .register false]
          (J.WellFormed ⟨.keysRejected, payload, disk⟩) := performs_onRejected
      exact hrejected

end Rapidjson

end Shapeware.AwsFleetProv
