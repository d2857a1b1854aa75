import Shapeware.Cxx

/-!
# Two ways to get a file

`CurlRestApiService` and `CppRestService` implement `getFile`, the first by a sequence of checked
calls, the second by a chain of tasks. What comes from the server, libcurl and the C++ REST SDK are
parameters.
-/

namespace Shapeware.RestApi

/-- What a request comes to: the transport fails, perhaps after a status and some of the body were
received, or a response is completely received. -/
inductive Outcome
  | failure (status : Option Nat) (received : List UInt8)
  | response (status : Nat) (body : List UInt8)

/-- The transport fails. -/
def Outcome.Failed (outcome : Outcome) : Prop := ∃ status received, outcome = .failure status received

/-- There is a response with status 200. -/
def Outcome.Found (outcome : Outcome) : Prop := ∃ body, outcome = .response 200 body

theorem Outcome.Failed.not_response {outcome : Outcome} (h : outcome.Failed) (status : Nat)
    (body : List UInt8) : outcome ≠ .response status body := by
  obtain ⟨_, _, rfl⟩ := h
  simp

theorem Outcome.Failed.not_found {outcome : Outcome} (h : outcome.Failed) : ¬ outcome.Found :=
  fun hfound => hfound.elim (h.not_response 200)

inductive CurlOption
  | url (url : StdString)
  | followLocation (follow : Nat)
  | writeFunction
  | writeData (file : Option StdString)
  | sslVerifyPeer (verify : Nat)
  | failOnError (fail : Nat)
deriving DecidableEq

/-- The URL that a transfer with these options asks for: the last that was set. -/
def requestedUrl (options : List CurlOption) : Option StdString :=
  (options.filterMap fun | .url url => some url | _ => none).getLast?

/-- The exceptions. Those of the services are `std::logic_error`s. -/
inductive Thrown
  /-- `Failed curl init`. -/
  | failedInit
  /-- `Failed curl set option: `. -/
  | failedSetOption (option : CurlOption)
  /-- `Could not open output file: `. -/
  | couldNotOpen (fname : StdString)
  /-- `Failed curl perform: `. -/
  | failedPerform (res : Nat)
  /-- `response status code: `. -/
  | statusCode (status : Nat)
  /-- `Cannot download:`. -/
  | cannotDownload (url : StdString)
  /-- A `std::exception` of the C++ REST SDK. -/
  | sdk
deriving DecidableEq

/-- The contents of the files, those that are open, the options of the easy handle, and the variables
of the two functions: `file` is the `FILE*`, and `fileBuffer` the stream buffer that the tasks share.
A file is told by the name that the system sees. -/
structure World where
  files : StdString → Option (List UInt8)
  openFiles : List StdString
  options : List CurlOption
  file : Option StdString
  fileBuffer : Option StdString

abbrev Rest (α : Type) := ExceptT Thrown (StateM World) α

/-- The calls of libcurl: whether they succeed, and for `curl_easy_perform` the `CURLcode` and the
bytes that are passed to the write callback. -/
structure Curl where
  easyInit : Bool
  easySetopt : CurlOption → Bool
  easyPerform : (StdString → Outcome) → List CurlOption → Nat × List UInt8

/-- The calls of the C++ REST SDK and of its tasks. A stream buffer is told by the file behind it. -/
structure Sdk where
  Task : Type → Type
  Response : Type
  /-- `file_buffer<uint8_t>::open`, for writing -/
  fileBufferOpen : StdString → Rest (Task (Option StdString))
  /-- `http_client client(wurl, config)` and `client.request(methods::GET)` -/
  request : StdString → Rest (Task Response)
  statusCode : Response → Nat
  /-- `response.body().read_to_end` -/
  readToEnd : Response → Option StdString → Rest (Task Nat)
  close : Option StdString → Rest (Task Unit)
  /-- `task::then` -/
  andThen : {α β : Type} → Task α → (α → Rest (Task β)) → Rest (Task β)
  /-- `task::get` -/
  get : {α : Type} → Task α → Rest α

structure Environment where
  curl : Curl
  sdk : Sdk
  canOpen : StdString → Bool
  server : StdString → Outcome

namespace World

/-- A file is opened for writing, and is empty then. -/
def openFile (w : World) (fname : StdString) : World :=
  { w with
    files := Function.update w.files fname (some [])
    openFiles := fname :: w.openFiles }

def closeFile (w : World) (fname : StdString) : World :=
  { w with openFiles := w.openFiles.erase fname }

def write (w : World) (fname : StdString) (data : List UInt8) : World :=
  { w with files := Function.update w.files fname (some ((w.files fname).getD [] ++ data)) }

@[simp] theorem openFile_options (w : World) (fname : StdString) :
    (w.openFile fname).options = w.options := rfl

@[simp] theorem openFile_files (w : World) (fname : StdString) :
    (w.openFile fname).files fname = some [] := by
  simp [openFile]

@[simp] theorem closeFile_files (w : World) (fname : StdString) :
    (w.closeFile fname).files = w.files := rfl

@[simp] theorem write_files (w : World) (fname : StdString) (data : List UInt8) :
    (w.write fname data).files fname = some ((w.files fname).getD [] ++ data) := by
  simp [write]

@[simp] theorem write_file (w : World) (fname : StdString) (data : List UInt8) :
    (w.write fname data).file = w.file := rfl

@[simp] theorem write_fileBuffer (w : World) (fname : StdString) (data : List UInt8) :
    (w.write fname data).fileBuffer = w.fileBuffer := rfl

end World

section Exec

variable {α β : Type} (w : World)

/-- What a call comes to, and what it leaves behind. -/
def exec (call : Rest α) (w : World) : Except Thrown α × World := call.run.run w

@[simp] theorem exec_pure (a : α) : exec (pure a) w = (.ok a, w) := rfl

@[simp] theorem exec_throw (e : Thrown) : exec (throw e : Rest α) w = (.error e, w) := rfl

@[simp] theorem exec_get : exec (get : Rest World) w = (.ok w, w) := rfl

@[simp] theorem exec_modify (f : World → World) : exec (modify f) w = (.ok (), f w) := rfl

@[simp] theorem exec_bind (call : Rest α) (next : α → Rest β) : exec (call >>= next) w =
    match exec call w with
    | (.ok a, w') => exec (next a) w'
    | (.error e, w') => (.error e, w') := by
  rw [exec, exec, ExceptT.run_bind, StateT.run_bind]
  cases h : call.run.run w with
  | mk result w' => cases result <;> rfl

@[simp] theorem exec_map (f : α → β) (call : Rest α) : exec (f <$> call) w =
    match exec call w with
    | (.ok a, w') => (.ok (f a), w')
    | (.error e, w') => (.error e, w') := by
  rw [← bind_pure_comp, exec_bind]
  rfl

@[simp] theorem exec_tryCatch (call : Rest α) (handler : Thrown → Rest α) :
    exec (tryCatch call handler) w =
      match exec call w with
      | (.ok a, w') => (.ok a, w')
      | (.error e, w') => exec (handler e) w' := by
  rw [exec, exec, ExceptT.run_tryCatch, StateT.run_bind]
  cases h : call.run.run w with
  | mk result w' => cases result <;> rfl

@[simp] theorem exec_ite (c : Prop) [Decidable c] (call other : Rest α) :
    exec (if c then call else other) w = if c then exec call w else exec other w :=
  apply_ite (exec · w) c call other

end Exec

/-! ### `CurlRestApiService` -/

namespace CurlRestApiService

def setopt (env : Environment) (option : CurlOption) : Rest Unit :=
  if env.curl.easySetopt option then
    modify fun w => { w with options := w.options ++ [option] }
  else throw (.failedSetOption option)

def fopen (env : Environment) (fname : StdString) : Rest Unit :=
  modify fun w =>
    if env.canOpen fname then { w.openFile fname with file := some fname }
    else { w with file := none }

/-- `if (file) fclose(file)` -/
def fclose : Rest Unit := modify fun w => w.file.elim w w.closeFile

/-- `curl_easy_perform`, with `writeCallback` writing all it gets to the file. -/
def perform (env : Environment) : Rest Unit := do
  let w ← get
  let (res, received) := env.curl.easyPerform env.server w.options
  modify fun w => w.file.elim w (w.write · received)
  if res ≠ 0 then throw (.failedPerform res)

def getFile (env : Environment) (url fname : StdString) : Rest Unit := do
  if env.curl.easyInit = false then throw .failedInit
  modify fun w => { w with options := [] }
  setopt env (.url (cStr url))
  modify fun w => { w with file := none }
  try
    fopen env (cStr fname)
    if (← get).file = none then throw (.couldNotOpen fname)
    setopt env (.followLocation 1)
    setopt env .writeFunction
    setopt env (.writeData (← get).file)
    setopt env (.sslVerifyPeer 0)
    perform env
  catch e =>
    fclose
    throw e
  fclose

end CurlRestApiService

/-! ### `CppRestService` -/

namespace CppRestService

def sendRequest (env : Environment) (url : StdString) (outFile : Option StdString) :
    Rest (env.sdk.Task env.sdk.Response) := do
  modify fun w => { w with fileBuffer := outFile }
  env.sdk.request url

def handleResponse (env : Environment) (response : env.sdk.Response) : Rest (env.sdk.Task Nat) := do
  if env.sdk.statusCode response ≠ 200 then throw (.statusCode (env.sdk.statusCode response))
  env.sdk.readToEnd response (← get).fileBuffer

def closeFileBuffer (env : Environment) : Rest (env.sdk.Task Unit) := do
  env.sdk.close (← get).fileBuffer

def getFile (env : Environment) (url fname : StdString) : Rest Unit := do
  modify fun w => { w with fileBuffer := none }
  let openTask ← env.sdk.fileBufferOpen fname
  let openTask ← env.sdk.andThen openTask (sendRequest env url)
  let responseTask ← env.sdk.andThen openTask (handleResponse env)
  let writtenTask ← env.sdk.andThen responseTask fun _ => closeFileBuffer env
  try
    let _ ← env.sdk.get openTask
    let _ ← env.sdk.get responseTask
    env.sdk.get writtenTask
  catch _ => throw (.cannotDownload url)

end CppRestService

/-! ### What the libraries promise -/

/-- The calls before the transfer succeed, a transfer that fails gives an error, and one that is
complete gives none and all of the body, unless `CURLOPT_FAILONERROR` is set. -/
structure Curl.Documented (curl : Curl) : Prop where
  easyInit : curl.easyInit = true
  easySetopt : ∀ option, curl.easySetopt option = true
  failure : ∀ server options url, requestedUrl options = some url → (server url).Failed →
    (curl.easyPerform server options).1 ≠ 0
  response : ∀ server options url status body, requestedUrl options = some url →
    (∀ fail, .failOnError fail ∉ options) → server url = .response status body →
    curl.easyPerform server options = (0, body)

namespace Sdk

variable (sdk : Sdk)

/-- Waiting for the task gives this. -/
def EndsWith {α : Type} (task : sdk.Task α) (result : Except Thrown α) : Prop :=
  ∀ w, exec (sdk.get task) w = (result, w)

/-- The call, or the task that it starts, comes to this. What the task does is counted for the call. -/
def ComesTo {α : Type} (call : Rest (sdk.Task α)) (w : World) (result : Except Thrown α)
    (w' : World) : Prop :=
  (∃ task, exec call w = (.ok task, w') ∧ sdk.EndsWith task result) ∨
    ∃ e, exec call w = (.error e, w') ∧ result = .error e

/-- A continuation runs when its antecedent has succeeded, and else fails like it. -/
def ContinuesTo {α β : Type} (antecedent : Except Thrown α) (continuation : α → Rest (sdk.Task β))
    (w : World) (result : Except Thrown β) (w' : World) : Prop :=
  match antecedent with
  | .ok a => sdk.ComesTo (continuation a) w result w'
  | .error e => result = .error e ∧ w' = w

/-- A response is there with its status, and its body is then read to the end; where the transfer
fails, so does the request or the reading. -/
structure Documented (canOpen : StdString → Bool) (server : StdString → Outcome) : Prop where
  andThen : ∀ {α β : Type} (task : sdk.Task α) (antecedent : Except Thrown α)
    (continuation : α → Rest (sdk.Task β)) (w : World) (result : Except Thrown β) (w' : World),
    sdk.EndsWith task antecedent → sdk.ContinuesTo antecedent continuation w result w' →
    ∃ task', exec (sdk.andThen task continuation) w = (.ok task', w') ∧ sdk.EndsWith task' result
  fileBufferOpen : ∀ fname w, canOpen (cStr fname) = true →
    sdk.ComesTo (sdk.fileBufferOpen fname) w (.ok (some (cStr fname))) (w.openFile (cStr fname))
  response : ∀ url status body w, server url = .response status body →
    ∃ response, sdk.ComesTo (sdk.request url) w (.ok response) w ∧
      sdk.statusCode response = status ∧
      ∀ fname w, sdk.ComesTo (sdk.readToEnd response (some fname)) w (.ok body.length)
        (w.write fname body)
  failure : ∀ url w, (server url).Failed →
    (∃ e, sdk.ComesTo (sdk.request url) w (.error e) w) ∨
      ∃ response, sdk.ComesTo (sdk.request url) w (.ok response) w ∧
        ∀ fname w, ∃ e w', sdk.ComesTo (sdk.readToEnd response (some fname)) w (.error e) w'
  close : ∀ fname w, sdk.ComesTo (sdk.close (some fname)) w (.ok ()) (w.closeFile fname)

end Sdk

/-- Both throw, or both return and the file holds the body of a response with status 200. -/
def Agree (env : Environment) (url fname : StdString) (w : World) : Prop :=
  let curl := exec (CurlRestApiService.getFile env url fname) w
  let cpp := exec (CppRestService.getFile env url fname) w
  (curl.1 ≠ .ok () ∧ cpp.1 ≠ .ok ()) ∨
    curl.1 = .ok () ∧ cpp.1 = .ok () ∧
      (∃ body, env.server (cStr url) = .response 200 body ∧
        curl.2.files (cStr fname) = some body) ∧
      ∃ body, env.server url = .response 200 body ∧ cpp.2.files (cStr fname) = some body

section

variable {env : Environment} {url fname : StdString} {w : World}

/-! ### `curl_getFile` -/

theorem exec_setopt (hcurl : env.curl.Documented) (option : CurlOption) (w : World) :
    exec (CurlRestApiService.setopt env option) w =
      (.ok (), { w with options := w.options ++ [option] }) := by
  simp [CurlRestApiService.setopt, hcurl.easySetopt]

theorem exec_fopen (hopen : env.canOpen fname = true) (w : World) :
    exec (CurlRestApiService.fopen env fname) w =
      (.ok (), { w.openFile fname with file := some fname }) := by
  simp [CurlRestApiService.fopen, hopen]

theorem exec_perform (hfile : w.file = some fname) : exec (CurlRestApiService.perform env) w =
    (if (env.curl.easyPerform env.server w.options).1 = 0 then .ok ()
      else .error (.failedPerform (env.curl.easyPerform env.server w.options).1),
      w.write fname (env.curl.easyPerform env.server w.options).2) := by
  by_cases hres : (env.curl.easyPerform env.server w.options).1 = 0 <;>
    simp [CurlRestApiService.perform, hres, hfile]

/-- `CurlRestApiService::getFile` throws if the transfer fails, and else the file holds the body,
whatever the status is. -/
theorem curl_getFile (hcurl : env.curl.Documented) (hopen : env.canOpen (cStr fname) = true)
    (url : StdString) (w : World) :
    (env.server (cStr url)).Failed ∧ (exec (CurlRestApiService.getFile env url fname) w).1 ≠ .ok () ∨
      ∃ status body, env.server (cStr url) = .response status body ∧
        (exec (CurlRestApiService.getFile env url fname) w).1 = .ok () ∧
        (exec (CurlRestApiService.getFile env url fname) w).2.files (cStr fname) = some body := by
  have hexec : ∀ res received, env.curl.easyPerform env.server [.url (cStr url), .followLocation 1,
        .writeFunction, .writeData (some (cStr fname)), .sslVerifyPeer 0] = (res, received) →
      (exec (CurlRestApiService.getFile env url fname) w).1 =
          (if res = 0 then .ok () else .error (.failedPerform res)) ∧
        (exec (CurlRestApiService.getFile env url fname) w).2.files (cStr fname) = some received := by
    intro res received hperform
    by_cases hres : res = 0 <;>
      simp [CurlRestApiService.getFile, CurlRestApiService.fclose, hcurl.easyInit,
        exec_setopt hcurl, exec_fopen hopen, @exec_perform env (cStr fname), hperform, hres]
  cases hserver : env.server (cStr url) with
  | failure status received =>
      have hres := hcurl.failure env.server [.url (cStr url), .followLocation 1, .writeFunction,
        .writeData (some (cStr fname)), .sslVerifyPeer 0] (cStr url) rfl
        ⟨status, received, hserver⟩
      refine .inl ⟨⟨status, received, rfl⟩, ?_⟩
      simp [(hexec _ _ rfl).1, hres]
  | response status body =>
      have hdone := hcurl.response env.server [.url (cStr url), .followLocation 1, .writeFunction,
        .writeData (some (cStr fname)), .sslVerifyPeer 0] (cStr url) status body rfl (by simp)
        hserver
      exact .inr ⟨status, body, rfl, by simpa using hexec 0 body hdone⟩

/-! ### `CppRestService::getFile` -/

theorem exec_fileBufferOpen (hsdk : env.sdk.Documented env.canOpen env.server)
    (hopen : env.canOpen (cStr fname) = true) (w : World) :
    ∃ task, exec (env.sdk.fileBufferOpen fname) w = (.ok task, w.openFile (cStr fname)) ∧
      env.sdk.EndsWith task (.ok (some (cStr fname))) := by
  obtain hopened | ⟨e, -, herror⟩ := hsdk.fileBufferOpen fname w hopen
  · exact hopened
  · cases herror

/-- The tasks end one after the other, and `getFile` returns if the last of them has succeeded. -/
theorem exec_getFile (hsdk : env.sdk.Documented env.canOpen env.server)
    (hopen : env.canOpen (cStr fname) = true) {requested : Except Thrown env.sdk.Response}
    {read : Except Thrown Nat} {closed : Except Thrown Unit} {w₁ w₂ w₃ : World}
    (hrequest : env.sdk.ComesTo (env.sdk.request url)
      { w.openFile (cStr fname) with fileBuffer := some (cStr fname) } requested w₁)
    (hread : env.sdk.ContinuesTo requested (CppRestService.handleResponse env) w₁ read w₂)
    (hclose : env.sdk.ContinuesTo read (fun _ => CppRestService.closeFileBuffer env) w₂ closed w₃) :
    exec (CppRestService.getFile env url fname) w =
      (closed.mapError fun _ => .cannotDownload url, w₃) := by
  obtain ⟨fileTask, hfile, hfileEnds⟩ :=
    exec_fileBufferOpen hsdk hopen { w with fileBuffer := none }
  have hsend : env.sdk.ContinuesTo (.ok (some (cStr fname))) (CppRestService.sendRequest env url)
      ({ w with fileBuffer := none }.openFile (cStr fname)) requested w₁ := by
    simp only [Sdk.ContinuesTo, Sdk.ComesTo, CppRestService.sendRequest, exec_bind, exec_modify]
    exact hrequest
  obtain ⟨openTask, hopenTask, hopenEnds⟩ := hsdk.andThen _ _ _ _ _ _ hfileEnds hsend
  obtain ⟨responseTask, hresponseTask, hresponseEnds⟩ :=
    hsdk.andThen _ _ _ _ _ _ hopenEnds hread
  obtain ⟨writtenTask, hwrittenTask, hwrittenEnds⟩ :=
    hsdk.andThen _ _ _ _ _ _ hresponseEnds hclose
  -- a failure of an earlier task is one of the last
  have hlast : (∀ e, requested = .error e → read = .error e) ∧
      ∀ e, read = .error e → closed = .error e := by
    constructor
    · rintro e rfl
      exact hread.1
    · rintro e rfl
      exact hclose.1
  simp only [CppRestService.getFile, exec_bind, exec_modify, hfile, hopenTask, hresponseTask,
    hwrittenTask, exec_tryCatch, hopenEnds w₃]
  cases requested with
  | error e =>
      rw [hlast.2 e (hlast.1 e rfl)]
      rfl
  | ok response =>
      simp only [hresponseEnds w₃]
      cases read with
      | error e =>
          rw [hlast.2 e rfl]
          rfl
      | ok size =>
          simp only [hwrittenEnds w₃]
          cases closed <;> rfl

theorem comesTo_handleResponse {response : env.sdk.Response} {result : Except Thrown Nat} {w' : World}
    (hfound : env.sdk.statusCode response = 200) (hbuffer : w.fileBuffer = some fname)
    (hread : env.sdk.ComesTo (env.sdk.readToEnd response (some fname)) w result w') :
    env.sdk.ComesTo (CppRestService.handleResponse env response) w result w' := by
  simpa [Sdk.ComesTo, CppRestService.handleResponse, hfound, hbuffer] using hread

theorem comesTo_handleResponse_error {response : env.sdk.Response}
    (hstatus : env.sdk.statusCode response ≠ 200) :
    env.sdk.ComesTo (CppRestService.handleResponse env response) w
      (.error (.statusCode (env.sdk.statusCode response))) w := by
  simp [Sdk.ComesTo, CppRestService.handleResponse, hstatus]

theorem comesTo_closeFileBuffer (hsdk : env.sdk.Documented env.canOpen env.server)
    (hbuffer : w.fileBuffer = some fname) :
    env.sdk.ComesTo (CppRestService.closeFileBuffer env) w (.ok ()) (w.closeFile fname) := by
  simpa [Sdk.ComesTo, CppRestService.closeFileBuffer, hbuffer] using hsdk.close fname w

/-- A request or a reading that fails makes `getFile` throw. -/
theorem getFile_throws (hsdk : env.sdk.Documented env.canOpen env.server)
    (hopen : env.canOpen (cStr fname) = true) {requested : Except Thrown env.sdk.Response}
    {e : Thrown} {w₁ w₂ : World}
    (hrequest : env.sdk.ComesTo (env.sdk.request url)
      { w.openFile (cStr fname) with fileBuffer := some (cStr fname) } requested w₁)
    (hread : env.sdk.ContinuesTo requested (CppRestService.handleResponse env) w₁ (.error e) w₂) :
    (exec (CppRestService.getFile env url fname) w).1 = .error (.cannotDownload url) := by
  have hclose : env.sdk.ContinuesTo (.error e : Except Thrown Nat)
      (fun _ => CppRestService.closeFileBuffer env) w₂ (.error e) w₂ := ⟨rfl, rfl⟩
  rw [exec_getFile hsdk hopen hrequest hread hclose]
  rfl

/-- `CppRestService::getFile` returns if the status is 200 and the body is there. -/
theorem cpp_getFile (hsdk : env.sdk.Documented env.canOpen env.server)
    (hopen : env.canOpen (cStr fname) = true) (url : StdString) (w : World) :
    (∃ body, env.server url = .response 200 body ∧
      (exec (CppRestService.getFile env url fname) w).1 = .ok () ∧
      (exec (CppRestService.getFile env url fname) w).2.files (cStr fname) = some body) ∨
    ¬ (env.server url).Found ∧
      (exec (CppRestService.getFile env url fname) w).1 = .error (.cannotDownload url) := by
  cases hserver : env.server url with
  | response status body =>
      obtain ⟨response, hrequest, rfl, hread⟩ := hsdk.response url status body
        { w.openFile (cStr fname) with fileBuffer := some (cStr fname) } hserver
      by_cases hstatus : env.sdk.statusCode response = 200
      · have hhandle := comesTo_handleResponse hstatus rfl (hread (cStr fname)
          { w.openFile (cStr fname) with fileBuffer := some (cStr fname) })
        refine .inl ⟨body, by rw [hstatus], ?_⟩
        rw [exec_getFile hsdk hopen hrequest hhandle (comesTo_closeFileBuffer hsdk rfl)]
        exact ⟨rfl, by simp⟩
      · refine .inr ⟨?_, getFile_throws hsdk hopen hrequest (comesTo_handleResponse_error hstatus)⟩
        rintro ⟨_, hfound⟩
        exact hstatus (Outcome.response.inj hfound).1
  | failure status received =>
      refine .inr ⟨by simp [Outcome.Found], ?_⟩
      obtain ⟨e, hrequest⟩ | ⟨response, hrequest, hread⟩ := hsdk.failure url
        { w.openFile (cStr fname) with fileBuffer := some (cStr fname) } ⟨status, received, hserver⟩
      · exact getFile_throws hsdk hopen hrequest ⟨rfl, rfl⟩
      · by_cases hstatus : env.sdk.statusCode response = 200
        · obtain ⟨e, w', hfails⟩ := hread (cStr fname)
            { w.openFile (cStr fname) with fileBuffer := some (cStr fname) }
          exact getFile_throws hsdk hopen hrequest (comesTo_handleResponse hstatus rfl hfails)
        · exact getFile_throws hsdk hopen hrequest (comesTo_handleResponse_error hstatus)

/-- **The two agree** when both transfers fail or find nothing, and when both find the file, and only
then; a zero byte cuts the URL of the first off. -/
theorem agree_iff (hcurl : env.curl.Documented) (hsdk : env.sdk.Documented env.canOpen env.server)
    (hopen : env.canOpen (cStr fname) = true) :
    Agree env url fname w ↔
      (env.server (cStr url)).Failed ∧ ¬ (env.server url).Found ∨
        (env.server (cStr url)).Found ∧ (env.server url).Found := by
  obtain ⟨hfailed, hcurlThrows⟩ | ⟨status, body, hserver, hcurlReturns, hcurlFile⟩ :=
      curl_getFile hcurl hopen url w <;>
    obtain ⟨found, hfound, hcppReturns, hcppFile⟩ | ⟨hnone, hcppThrows⟩ := cpp_getFile hsdk hopen url w
  · refine iff_of_false ?_ ?_
    · rintro (⟨-, hthrows⟩ | ⟨hreturns, -⟩)
      · exact hthrows hcppReturns
      · exact hcurlThrows hreturns
    · rintro (⟨-, hnone⟩ | ⟨hcurlFound, -⟩)
      · exact hnone ⟨found, hfound⟩
      · exact hfailed.not_found hcurlFound
  · exact iff_of_true (.inl ⟨hcurlThrows, by simp [hcppThrows]⟩) (.inl ⟨hfailed, hnone⟩)
  · rw [hserver, hfound]
    constructor
    · rintro (⟨hthrows, -⟩ | ⟨-, -, ⟨body, hbody, -⟩, -⟩)
      · exact absurd hcurlReturns hthrows
      · exact .inr ⟨⟨body, hserver ▸ hbody⟩, found, rfl⟩
    · rintro (⟨-, hnone⟩ | ⟨⟨body, hbody⟩, -⟩)
      · exact absurd ⟨found, rfl⟩ hnone
      · obtain ⟨rfl, rfl⟩ := Outcome.response.inj hbody
        exact .inr ⟨hcurlReturns, hcppReturns, ⟨_, hserver, hcurlFile⟩, found, hfound, hcppFile⟩
  · refine iff_of_false ?_ ?_
    · rintro (⟨hthrows, -⟩ | ⟨-, hreturns, -⟩)
      · exact hthrows hcurlReturns
      · exact absurd (hcppThrows.symm.trans hreturns) (by simp)
    · rintro (⟨hfailed, -⟩ | ⟨-, hfound⟩)
      · exact hfailed.not_response _ _ hserver
      · exact hnone hfound

/-- With the same URL for both, they agree when its transfer fails and when the status is 200. -/
theorem agree_iff_of_notMem (hcurl : env.curl.Documented)
    (hsdk : env.sdk.Documented env.canOpen env.server) (hopen : env.canOpen (cStr fname) = true)
    (hurl : 0 ∉ url) :
    Agree env url fname w ↔ (env.server url).Failed ∨ (env.server url).Found := by
  rw [agree_iff hcurl hsdk hopen, cStr_of_notMem hurl, and_self]
  exact or_congr_left (and_iff_left_of_imp Outcome.Failed.not_found)

end

/-! ### Libraries that do so -/

/-- libcurl, as far as `getFile` uses it: an error of the server is one of the transfer only with
`CURLOPT_FAILONERROR`. -/
def libcurl : Curl where
  easyInit := true
  easySetopt _ := true
  easyPerform server options :=
    match (requestedUrl options).map server with
    | none => (3, [])
    | some (.failure _ received) => (56, received)
    | some (.response status body) =>
      if 400 ≤ status ∧ .failOnError 1 ∈ options then (22, []) else (0, body)

theorem libcurl_documented : libcurl.Documented where
  easyInit := rfl
  easySetopt _ := rfl
  failure server options url hurl hfailed := by
    obtain ⟨status, received, hserver⟩ := hfailed
    simp [libcurl, hurl, hserver]
  response server options url status body hurl hnone hserver := by
    simp [libcurl, hurl, hserver, hnone 1]

/-- The C++ REST SDK, as far as `getFile` uses it; every task is done when the call that starts it
returns. A response has its status, what is received of the body, and whether that is all. -/
def cpprest (canOpen : StdString → Bool) (server : StdString → Outcome) : Sdk where
  Task := Except Thrown
  Response := Nat × List UInt8 × Bool
  fileBufferOpen fname := do
    if canOpen (cStr fname) then
      modify (·.openFile (cStr fname))
      pure (.ok (some (cStr fname)))
    else pure (.error .sdk)
  request url :=
    pure (match server url with
      | .response status body => .ok (status, body, true)
      | .failure (some status) received => .ok (status, received, false)
      | .failure none _ => .error .sdk)
  statusCode := Prod.fst
  readToEnd response buffer := do
    modify fun w => buffer.elim w (w.write · response.2.1)
    pure (if response.2.2 then .ok response.2.1.length else .error .sdk)
  close buffer := do
    modify fun w => buffer.elim w w.closeFile
    pure (.ok ())
  andThen task continuation :=
    match task with
    | .ok a => tryCatch (continuation a) fun e => pure (.error e)
    | .error e => pure (.error e)
  get
    | .ok a => pure a
    | .error e => throw e

section

variable {canOpen : StdString → Bool} {server : StdString → Outcome}

theorem cpprest_endsWith {α : Type} {task result : Except Thrown α} :
    (cpprest canOpen server).EndsWith task result ↔ task = result := by
  constructor
  · intro h
    have hget := congrArg Prod.fst (h ⟨fun _ => none, [], [], none, none⟩)
    cases task <;> exact hget
  · rintro rfl w
    cases task <;> rfl

theorem cpprest_comesTo {α : Type} {call : Rest (Except Thrown α)} {task : Except Thrown α}
    {w w' : World} (h : exec call w = (.ok task, w')) :
    (cpprest canOpen server).ComesTo call w task w' :=
  .inl ⟨task, h, cpprest_endsWith.mpr rfl⟩

theorem cpprest_documented : (cpprest canOpen server).Documented canOpen server where
  andThen task antecedent continuation w result w' hends hcontinues := by
    obtain rfl := cpprest_endsWith.mp hends
    cases task with
    | error e =>
        obtain ⟨rfl, rfl⟩ := hcontinues
        exact ⟨_, rfl, cpprest_endsWith.mpr rfl⟩
    | ok a =>
        refine ⟨result, ?_, cpprest_endsWith.mpr rfl⟩
        change exec (tryCatch (continuation a) fun e => pure (.error e)) w = _
        obtain ⟨task, hcall, hresult⟩ | ⟨e, hcall, rfl⟩ := hcontinues
        · rw [exec_tryCatch, hcall, cpprest_endsWith.mp hresult]
        · rw [exec_tryCatch, hcall]
          rfl
  fileBufferOpen fname w hopen := cpprest_comesTo (by simp [cpprest, hopen])
  response url status body w hserver := by
    refine ⟨(status, body, true), cpprest_comesTo ?_, rfl, fun fname w => cpprest_comesTo ?_⟩
    · simp [cpprest, hserver]
    · simp [cpprest]
  failure url w hfailed := by
    obtain ⟨status, received, hserver⟩ := hfailed
    cases status with
    | none => exact .inl ⟨.sdk, cpprest_comesTo (by simp [cpprest, hserver])⟩
    | some status =>
        refine .inr ⟨(status, received, false), cpprest_comesTo (by simp [cpprest, hserver]),
          fun fname w => ⟨.sdk, w.write fname received, cpprest_comesTo (by simp [cpprest])⟩⟩
  close fname w := cpprest_comesTo (by simp [cpprest])

end

/-- Both services on one server. -/
def environment (server : StdString → Outcome) : Environment :=
  ⟨libcurl, cpprest (fun _ => true) server, fun _ => true, server⟩

theorem environment_documented (server : StdString → Outcome) :
    (environment server).sdk.Documented (environment server).canOpen (environment server).server :=
  @cpprest_documented (fun _ => true) server

def emptyWorld : World := ⟨fun _ => none, [], [], none, none⟩

/-- Where the file is there, both get it. -/
theorem agree_iff_found : Agree (environment fun _ => .response 200 (bytes "firmware"))
    (bytes "https://host/fw.bin") (bytes "fw.bin") emptyWorld :=
  (agree_iff libcurl_documented (environment_documented _) rfl).mpr (.inr ⟨⟨_, rfl⟩, _, rfl⟩)

/-- Where it is not, one of them takes the error page for the file. -/
theorem not_forall_agree : ¬ ∀ (server : StdString → Outcome) (url fname : StdString) (w : World),
    Agree (environment server) url fname w := by
  intro hall
  let env := environment fun _ => .response 404 (bytes "Not Found")
  have hagree : Agree env (bytes "https://host/fw.bin") (bytes "fw.bin") emptyWorld := hall _ _ _ _
  obtain ⟨hfailed, -⟩ | ⟨_, _, _, hreturns, -⟩ := @curl_getFile env (bytes "fw.bin")
    libcurl_documented rfl (bytes "https://host/fw.bin") emptyWorld
  · exact hfailed.not_response 404 _ rfl
  · obtain ⟨hthrows, -⟩ | ⟨-, -, ⟨body, hbody, -⟩, -⟩ := hagree
    · exact hthrows hreturns
    · cases hbody

end Shapeware.RestApi
