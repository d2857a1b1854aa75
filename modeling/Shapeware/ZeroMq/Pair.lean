import Shapeware.ZeroMq.Sockets

/-!
# A REQ and a REP service connected to each other

Both services run as they are; between them are the messages in flight. A request arrives unchanged
or is lost. A reply can only arrive at the socket object that sent the request, and is lost with it.
Nothing else is assumed: messages overtake each other, and polls report what they like.
-/

namespace Shapeware.ZeroMq

open Stepped

/-- A request or its reply in flight: the number of the request, counted from the first one sent,
and the REQ socket that sent it. -/
structure Letter where
  num : Nat
  socket : Nat
  msg : StdString
deriving DecidableEq

/-- What happens to requests and replies, in the order of both services together: a request is
sent, it reaches the place where REP calls its `OnMessage` handler, REP's `sendMessage` accepts a
message, and REQ's `OnMessage` handler is called. -/
inductive Milestone
  | requested (msg : StdString)
  | delivered (num : Nat) (msg : StdString) (called : Bool)
  | stored (msg : StdString)
  | handed (msg : StdString)
deriving DecidableEq

/-- The requests that have been sent; the first one has the number 0. -/
def requested (history : List Milestone) : List StdString :=
  history.filterMap fun
    | .requested msg => some msg
    | _ => none

def delivered (history : List Milestone) : List (Nat × StdString × Bool) :=
  history.filterMap fun
    | .delivered num msg called => some (num, msg, called)
    | _ => none

/-- `current` is the request that REP's socket has received last and not answered. -/
structure Pair (T U : Type) where
  req : Service ReqWorker T
  rep : Service RepWorker U
  requests : List Letter
  current : Option Letter
  replies : List Letter
  history : List Milestone

inductive PairAction (T U : Type)
  | req (a : Action T)
  | rep (a : Action U)
  | receiveRequest (l : Letter)
  | receiveReply (l : Letter)
  | loseRequest (l : Letter)
  | loseReply (l : Letter)
deriving DecidableEq

def PairAction.isRepWorker {T U : Type} : PairAction T U → Bool
  | .rep (.worker _) => true
  | _ => false

/-- `recv` blocks until there is a message. -/
def Action.receives {T : Type} : Action T → Bool
  | .worker (.received _) => true
  | _ => false

namespace Pair

variable {T U : Type}

def init : Pair T U :=
  { req := Service.init workerReq, rep := Service.init workerRep
    requests := [], current := none, replies := [], history := [] }

/-- The REQ side goes on to `req`. -/
def afterReq (s : Pair T U) (a : Action T) (req : Service ReqWorker T) : Pair T U :=
  match a, s.req.worker.pc with
  | .worker .ok, .send request =>
    { s with
      req
      requests := s.requests ++ [⟨(requested s.history).length, s.req.worker.socket, request⟩]
      history := s.history ++ [.requested request] }
  | .worker .ok, .onMessage reply =>
    { s with
      req
      history := if s.req.imp.onMessageFunc then s.history ++ [.handed reply] else s.history }
  | _, _ => { s with req }

/-- The REP side goes on to `rep`. A new socket knows nothing of earlier requests. -/
def afterRep (s : Pair T U) (a : Action U) (rep : Service RepWorker U) : Pair T U :=
  match a, s.rep.worker.pc with
  | .worker .ok, .create => { s with rep, current := none }
  | .worker .ok, .onMessage request =>
    { s with
      rep
      history := s.history ++
        (s.current.map fun c => .delivered c.num request s.rep.imp.onMessageFunc).toList }
  | .worker .ok, .send reply =>
    { s with
      rep, current := none
      replies := s.replies ++ (s.current.map fun c => { c with msg := reply }).toList }
  | .sendMessage _ msg, _ =>
    { s with
      rep
      history :=
        if s.rep.imp.requireSocketState = .open then s.history ++ [.stored msg] else s.history }
  | _, _ => { s with rep }

variable [DecidableEq T] [DecidableEq U]

def step (s : Pair T U) : PairAction T U → Option (Pair T U)
  | .req a => if a.receives then none else (s.req.step workerReq a).map (s.afterReq a)
  | .rep a => if a.receives then none else (s.rep.step workerRep a).map (s.afterRep a)
  | .receiveRequest l =>
    if l ∈ s.requests then
      (s.rep.step workerRep (.worker (.received (some l.msg)))).map fun rep =>
        { s with rep, requests := s.requests.erase l, current := some l }
    else none
  | .receiveReply l =>
    if l ∈ s.replies ∧ l.socket = s.req.worker.socket then
      (s.req.step workerReq (.worker (.received (some l.msg)))).map fun req =>
        { s with req, replies := s.replies.erase l }
    else none
  | .loseRequest l => some { s with requests := s.requests.erase l }
  | .loseReply l => some { s with replies := s.replies.erase l }

end Pair

/-! ### The workers, as the connection sees them -/

/-- `w` goes on to `w'` without sending a request or coming to the `OnMessage` handler. -/
structure ReqWorker.Onward (w w' : ReqWorker) : Prop where
  onMessage : ∀ reply, w'.pc = .onMessage reply → w.pc = .onMessage reply
  socket : (w'.socket = w.socket ∧ (w'.due = w.due ∨ w'.due = none)) ∨ w'.socket = w.socket + 1

theorem ReqWorker.Onward.same {w w' : ReqWorker} (h : w' = w ∨ w' = w.notified) :
    w.Onward w' := by
  obtain rfl | rfl := h
  · exact ⟨fun _ => id, .inl ⟨rfl, .inl rfl⟩⟩
  · obtain ⟨pc, socket, reset⟩ := w
    cases pc <;> refine ⟨fun reply h => ?_, .inl ⟨rfl, .inl rfl⟩⟩ <;>
      first | exact h | cases h

theorem ReqWorker.Onward.handled {w w' : ReqWorker} {reply : StdString}
    (hpc : w.pc = .onMessage reply) (hworker : w' = w.goto .checkClose) : w.Onward w' := by
  obtain ⟨pc, socket, reset⟩ := w
  obtain rfl : pc = .onMessage reply := hpc
  subst hworker
  refine ⟨by simp [goto], .inl ⟨rfl, ?_⟩⟩
  cases reset <;> simp [goto, due]

/-- All that the connection sees of a step of the REQ worker, other than receiving. -/
inductive ReqWorker.Seen (w : ReqWorker) : Outcome → Stepped ReqWorker → Prop
  | sends {request : StdString} {r : Stepped ReqWorker} (hpc : w.pc = .send request)
      (hworker : r.worker = w.goto .poll) : Seen w .ok r
  | hands {reply : StdString} {r : Stepped ReqWorker} (hpc : w.pc = .onMessage reply)
      (hworker : r.worker = w.goto .checkClose) : Seen w .ok r
  | onward {outcome : Outcome} {r : Stepped ReqWorker}
      (hsend : ∀ request, w.pc = .send request → outcome ≠ .ok)
      (hhand : ∀ reply, w.pc ≠ .onMessage reply) (honward : w.Onward r.worker) : Seen w outcome r

theorem ReqWorker.seen {imp : Imp} {w : ReqWorker} {outcome : Outcome} {r : Stepped ReqWorker}
    (h : w.step imp outcome = some r) (hout : ∀ msg, outcome ≠ .received msg) :
    w.Seen outcome r := by
  obtain ⟨pc, socket, reset⟩ := w
  cases pc with
  | loop | lock | checkRun =>
      obtain ⟨rfl, rfl⟩ := goes_cases h
      refine .onward (by simp) (by simp) ⟨?_, .inl ⟨rfl, .inr ?_⟩⟩ <;>
        cases imp.runThd <;> simp [goto, due]
  | waitOpen wait =>
      obtain ⟨wait', _, rfl, rfl⟩ | ⟨_, _, hdone⟩ := waits_cases h
      · exact .onward (by simp) (by simp) ⟨by simp [goto], .inl ⟨rfl, .inl rfl⟩⟩
      · obtain ⟨rfl, rfl⟩ := goes_cases hdone
        exact .onward (by simp) (by simp) ⟨by simp [goto], .inl ⟨rfl, .inl rfl⟩⟩
  | waitSend wait =>
      obtain ⟨wait', _, rfl, rfl⟩ | ⟨_, _, hdone⟩ := waits_cases h
      · exact .onward (by simp) (by simp) ⟨by simp [goto], .inl ⟨rfl, .inl rfl⟩⟩
      · split_ifs at hdone <;> obtain ⟨rfl, rfl⟩ := goes_cases hdone
        · exact .onward (by simp) (by simp) ⟨by simp [goto], .inl ⟨rfl, .inl rfl⟩⟩
        · refine .onward (by simp) (by simp) ⟨by simp [goto], .inl ⟨rfl, ?_⟩⟩
          cases reset <;> simp [goto, due]
  | create =>
      obtain ⟨rfl, rfl⟩ | ⟨rfl, rfl⟩ := operates_cases h
      · exact .onward (by simp) (by simp) ⟨by simp, .inr rfl⟩
      · exact .onward (by simp) (by simp) ⟨by simp [goto], .inl ⟨rfl, .inr rfl⟩⟩
  | setsockopt | connect | disconnect | close =>
      obtain ⟨rfl, rfl⟩ | ⟨rfl, rfl⟩ := operates_cases h
      · exact .onward (by simp) (by simp) ⟨by simp [goto], .inl ⟨rfl, .inl rfl⟩⟩
      · exact .onward (by simp) (by simp) ⟨by simp [goto], .inl ⟨rfl, .inr rfl⟩⟩
  | reportOpened | reportClosed =>
      obtain ⟨rfl, rfl⟩ := reports_cases h
      exact .onward (by simp) (by simp) ⟨by simp [goto], .inl ⟨rfl, .inl rfl⟩⟩
  | send request =>
      obtain ⟨rfl, rfl⟩ | ⟨rfl, rfl⟩ := operates_cases h
      · exact .sends rfl rfl
      · exact .onward (by simp) (by simp) ⟨by simp [goto], .inl ⟨rfl, .inr rfl⟩⟩
  | poll =>
      obtain ⟨input, rfl, rfl⟩ | ⟨rfl, rfl⟩ := polls_cases h
      · refine .onward (by simp) (by simp) ⟨?_, .inl ⟨rfl, ?_⟩⟩ <;>
          cases input <;> simp [goto, due]
      · exact .onward (by simp) (by simp) ⟨by simp [goto], .inl ⟨rfl, .inr rfl⟩⟩
  | recv =>
      obtain ⟨reply, rfl, rfl⟩ | ⟨rfl, rfl⟩ := receives_cases h
      · exact absurd rfl (hout reply)
      · exact .onward (by simp) (by simp) ⟨by simp [goto], .inl ⟨rfl, .inr rfl⟩⟩
  | onMessage reply =>
      obtain ⟨rfl, rfl⟩ := calls_cases h
      exact .hands rfl rfl
  | onReqTimeout =>
      obtain ⟨rfl, rfl⟩ := calls_cases h
      exact .onward (by simp) (by simp) ⟨by simp, .inl ⟨rfl, .inr rfl⟩⟩
  | checkClose =>
      obtain ⟨rfl, rfl⟩ := goes_cases h
      refine .onward (by simp) (by simp) ⟨?_, .inl ⟨rfl, ?_⟩⟩
      · simp only [goto]
        split_ifs <;> simp
      · cases reset with
        | true => exact .inr rfl
        | false =>
            by_cases hclose : (imp.requireSocketState = .close || !imp.runThd) = true
            · exact .inr (by simp [goto, due, hclose])
            · exact .inl (by simp [goto, due, hclose])
  | finished => cases h

theorem ReqWorker.step_received {imp : Imp} {w : ReqWorker} {msg : StdString}
    {r : Stepped ReqWorker} (h : w.step imp (.received (some msg)) = some r) :
    w.pc = .recv ∧ r.worker = w.goto (.onMessage msg) := by
  obtain ⟨pc, socket, reset⟩ := w
  cases pc with
  | recv =>
      obtain rfl := Option.some.inj h
      exact ⟨rfl, rfl⟩
  | waitOpen wait =>
      obtain ⟨_, _, hok, _⟩ | ⟨_, _, hdone⟩ := waits_cases h
      · cases hok
      · cases hdone
  | waitSend wait =>
      obtain ⟨_, _, hok, _⟩ | ⟨_, _, hdone⟩ := waits_cases h
      · cases hok
      · split_ifs at hdone <;> cases hdone
  | _ => cases h

/-- What the REP worker has to do with the request it has received. -/
inductive Stage
  | deliver (request : StdString)
  | clear
  | wait
  | reply (msg : StdString)

def RepWorker.stage (w : RepWorker) : Option Stage :=
  match w.pc with
  | .onMessage request => some (.deliver request)
  | .clearSend => some .clear
  | .waitReply _ => some .wait
  | .send reply => some (.reply reply)
  | _ => none

theorem RepWorker.stage_notified (w : RepWorker) : w.notified.stage = w.stage := by
  obtain ⟨pc, socket⟩ := w
  cases pc <;> rfl

theorem RepWorker.stage_of_not_holdsMux {w : RepWorker} (h : w.holdsMux = false) :
    w.stage = some .wait ∨ w.stage = none := by
  obtain ⟨pc, socket⟩ := w
  cases pc <;> first | exact .inr rfl | exact .inl rfl | cases h

/-- All that the connection sees of a step of the REP worker, other than receiving. -/
inductive RepWorker.Seen (imp : Imp) (w : RepWorker) : Outcome → Stepped RepWorker → Prop
  | delivers {request : StdString} {r : Stepped RepWorker} (hpc : w.pc = .onMessage request)
      (hstage : r.worker.stage = some .clear) : Seen imp w .ok r
  | clears {r : Stepped RepWorker} (hpc : w.pc = .clearSend) (himp : r.imp.sendMessage = false)
      (hstage : r.worker.stage = some .wait) : Seen imp w .ok r
  | waits {wait : Wait} {r : Stepped RepWorker} (hpc : w.pc = .waitReply wait) (himp : r.imp = imp)
      (hstage : r.worker.stage = some .wait) : Seen imp w .ok r
  | takes {wait : Wait} {r : Stepped RepWorker} (hpc : w.pc = .waitReply wait)
      (himp : imp.sendMessage = true) (hstage : r.worker.stage = some (.reply imp.messageToSend)) :
      Seen imp w .ok r
  | sends {reply : StdString} {r : Stepped RepWorker} (hpc : w.pc = .send reply)
      (hstage : r.worker.stage = none) : Seen imp w .ok r
  | onward {outcome : Outcome} {r : Stepped RepWorker}
      (hdeliver : ∀ request, w.pc ≠ .onMessage request)
      (hsend : ∀ reply, w.pc = .send reply → outcome ≠ .ok) (hstage : r.worker.stage = none) :
      Seen imp w outcome r

theorem RepWorker.seen {imp : Imp} {w : RepWorker} {outcome : Outcome} {r : Stepped RepWorker}
    (h : w.step imp outcome = some r) (hout : ∀ msg, outcome ≠ .received msg) :
    w.Seen imp outcome r := by
  obtain ⟨pc, socket⟩ := w
  cases pc with
  | loop | lock | checkRun | unlock | checkClose | relock =>
      obtain ⟨rfl, rfl⟩ := goes_cases h
      refine .onward (by simp) (by simp) ?_
      simp only [goto]
      first | rfl | split_ifs <;> rfl
  | waitOpen wait =>
      obtain ⟨wait', _, rfl, rfl⟩ | ⟨_, _, hdone⟩ := waits_cases h
      · exact .onward (by simp) (by simp) rfl
      · obtain ⟨rfl, rfl⟩ := goes_cases hdone
        exact .onward (by simp) (by simp) rfl
  | waitReply wait =>
      obtain ⟨wait', _, rfl, rfl⟩ | ⟨_, _, hdone⟩ := waits_cases h
      · exact .waits rfl rfl rfl
      · split_ifs at hdone with hsend <;> obtain ⟨rfl, rfl⟩ := goes_cases hdone
        · exact .takes rfl hsend rfl
        · exact .onward (by simp) (by simp) rfl
  | create | bind | unbind | close =>
      obtain ⟨rfl, rfl⟩ | ⟨rfl, rfl⟩ := operates_cases h <;>
        exact .onward (by simp) (by simp) rfl
  | reportOpened | reportClosed =>
      obtain ⟨rfl, rfl⟩ := reports_cases h
      exact .onward (by simp) (by simp) rfl
  | poll =>
      obtain ⟨input, rfl, rfl⟩ | ⟨rfl, rfl⟩ := polls_cases h <;>
        exact .onward (by simp) (by simp) rfl
  | recv =>
      obtain ⟨request, rfl, rfl⟩ | ⟨rfl, rfl⟩ := receives_cases h
      · exact absurd rfl (hout request)
      · exact .onward (by simp) (by simp) rfl
  | onMessage request =>
      obtain ⟨rfl, rfl⟩ := calls_cases h
      exact .delivers rfl rfl
  | clearSend =>
      obtain ⟨rfl, rfl⟩ := goes_cases h
      exact .clears rfl rfl rfl
  | send reply =>
      obtain ⟨rfl, rfl⟩ | ⟨rfl, rfl⟩ := operates_cases h
      · exact .sends rfl rfl
      · exact .onward (by simp) (by simp) rfl
  | finished => cases h

theorem RepWorker.step_received {imp : Imp} {w : RepWorker} {msg : StdString}
    {r : Stepped RepWorker} (h : w.step imp (.received (some msg)) = some r) :
    r.worker.stage = some (.deliver msg) := by
  obtain ⟨pc, socket⟩ := w
  cases pc with
  | recv =>
      obtain rfl := Option.some.inj h
      rfl
  | waitOpen wait =>
      obtain ⟨_, _, hok, _⟩ | ⟨_, _, hdone⟩ := waits_cases h
      · cases hok
      · cases hdone
  | waitReply wait =>
      obtain ⟨_, _, hok, _⟩ | ⟨_, _, hdone⟩ := waits_cases h
      · cases hok
      · split_ifs at hdone <;> cases hdone
  | _ => cases h

/-! ### All that a step can do -/

namespace Pair

variable {T U : Type}

/-- The steps of the two services are told apart by what they do with requests and replies. -/
inductive Steps (s : Pair T U) : PairAction T U → Pair T U → Prop
  | requests {req : Service ReqWorker T} {request : StdString}
      (hpc : s.req.worker.pc = .send request) (hworker : req.worker = s.req.worker.goto .poll) :
      Steps s (.req (.worker .ok))
        { s with
          req
          requests := s.requests ++ [⟨(requested s.history).length, s.req.worker.socket, request⟩]
          history := s.history ++ [.requested request] }
  | hands {req : Service ReqWorker T} {reply : StdString}
      (hpc : s.req.worker.pc = .onMessage reply)
      (hworker : req.worker = s.req.worker.goto .checkClose) :
      Steps s (.req (.worker .ok))
        { s with
          req
          history := if s.req.imp.onMessageFunc then s.history ++ [.handed reply] else s.history }
  | reqGoes {a : Action T} {req : Service ReqWorker T}
      (honward : s.req.worker.Onward req.worker) : Steps s (.req a) { s with req }
  | delivers {rep : Service RepWorker U} {request : StdString}
      (hpc : s.rep.worker.pc = .onMessage request) (hstage : rep.worker.stage = some .clear) :
      Steps s (.rep (.worker .ok))
        { s with
          rep
          history := s.history ++
            (s.current.map fun c => .delivered c.num request s.rep.imp.onMessageFunc).toList }
  | clears {a : Action U} {rep : Service RepWorker U} (hclear : s.rep.worker.stage = some .clear)
      (himp : rep.imp.sendMessage = false) (hstage : rep.worker.stage = some .wait) :
      Steps s (.rep a) { s with rep }
  | stores {t : U} {msg : StdString} {rep : Service RepWorker U}
      (hfree : s.rep.worker.stage = some .wait ∨ s.rep.worker.stage = none)
      (hmsg : rep.imp.messageToSend = msg) (hstage : rep.worker.stage = s.rep.worker.stage) :
      Steps s (.rep (.sendMessage t msg)) { s with rep, history := s.history ++ [.stored msg] }
  | takes {a : Action U} {rep : Service RepWorker U} (hwait : s.rep.worker.stage = some .wait)
      (himp : s.rep.imp.sendMessage = true)
      (hstage : rep.worker.stage = some (.reply s.rep.imp.messageToSend)) :
      Steps s (.rep a) { s with rep }
  | replies {rep : Service RepWorker U} {reply : StdString}
      (hpc : s.rep.worker.pc = .send reply) (hstage : rep.worker.stage = none) :
      Steps s (.rep (.worker .ok))
        { s with
          rep, current := none
          replies := s.replies ++ (s.current.map fun c => { c with msg := reply }).toList }
  | repGoes {a : Action U} {rep : Service RepWorker U}
      (hstage : rep.worker.stage = s.rep.worker.stage)
      (hsend : rep.imp.sendMessage = s.rep.imp.sendMessage)
      (hmsg : rep.imp.messageToSend = s.rep.imp.messageToSend) : Steps s (.rep a) { s with rep }
  | repDone {a : Action U} {rep : Service RepWorker U} {current : Option Letter}
      (hstage : rep.worker.stage = none) (hcurrent : current = s.current ∨ current = none) :
      Steps s (.rep a) { s with rep, current }
  | receivesRequest {l : Letter} {rep : Service RepWorker U} (hl : l ∈ s.requests)
      (hstage : rep.worker.stage = some (.deliver l.msg)) :
      Steps s (.receiveRequest l)
        { s with rep, requests := s.requests.erase l, current := some l }
  | receivesReply {l : Letter} {req : Service ReqWorker T} (hl : l ∈ s.replies)
      (hsocket : l.socket = s.req.worker.socket) (hpc : s.req.worker.pc = .recv)
      (hworker : req.worker = s.req.worker.goto (.onMessage l.msg)) :
      Steps s (.receiveReply l) { s with req, replies := s.replies.erase l }
  | losesRequest {l : Letter} :
      Steps s (.loseRequest l) { s with requests := s.requests.erase l }
  | losesReply {l : Letter} : Steps s (.loseReply l) { s with replies := s.replies.erase l }

variable {s s' : Pair T U}

theorem steps_req [DecidableEq T] {a : Action T} {req : Service ReqWorker T} (ha : a.receives = false)
    (h : s.req.step workerReq a = some req) : s.Steps (.req a) (s.afterReq a req) := by
  by_cases hworker : ∃ outcome, a = .worker outcome
  · obtain ⟨outcome, rfl⟩ := hworker
    have hout : ∀ msg, outcome ≠ .received msg := by
      rintro msg rfl
      cases ha
    cases Service.step_cases h with
    | @works _ r hwork =>
        cases ReqWorker.seen hwork hout with
        | sends hpc hworker =>
            simpa only [afterReq, hpc] using Steps.requests hpc hworker
        | hands hpc hworker => simpa only [afterReq, hpc] using Steps.hands hpc hworker
        | onward hsend hhand honward =>
            have hafter : s.afterReq (.worker outcome) (s.req.works r)
                = { s with req := s.req.works r } := by
              unfold afterReq
              split
              · exact absurd (Action.worker.inj ‹_›) (hsend _ ‹_›)
              · exact absurd ‹_› (hhand _)
              · rfl
            rw [hafter]
            exact .reqGoes honward
  · have hframe := (Service.step_cases h).frame fun outcome ha => hworker ⟨outcome, ha⟩
    have hafter : s.afterReq a req = { s with req } := by
      cases a with
      | worker outcome => exact absurd ⟨outcome, rfl⟩ hworker
      | _ => rfl
    rw [hafter]
    exact .reqGoes (.same hframe.worker)

theorem steps_rep [DecidableEq U] {a : Action U} {rep : Service RepWorker U} (ha : a.receives = false)
    (h : s.rep.step workerRep a = some rep) : s.Steps (.rep a) (s.afterRep a rep) := by
  cases Service.step_cases h with
  | opening | closing | notifies | wakesWorker =>
      exact .repGoes (RepWorker.stage_notified _) rfl rfl
  | accepts henter hstate =>
      have hfree : s.rep.worker.stage = some .wait ∨ s.rep.worker.stage = none :=
        RepWorker.stage_of_not_holdsMux henter.2
      simp only [afterRep, if_pos hstate]
      exact .stores hfree rfl (RepWorker.stage_notified _)
  | refuses hstate =>
      simp only [afterRep, if_neg (SocketState.ne_open.mpr hstate)]
      exact .repGoes rfl rfl rfl
  | @works outcome r hwork =>
      have hout : ∀ msg, outcome ≠ .received msg := by
        rintro msg rfl
        cases ha
      cases RepWorker.seen hwork hout with
      | delivers hpc hstage => simpa only [afterRep, hpc] using Steps.delivers hpc hstage
      | clears hpc himp hstage =>
          simpa only [afterRep, hpc] using Steps.clears (by rw [RepWorker.stage, hpc]) himp hstage
      | waits hpc himp hstage =>
          simpa only [afterRep, hpc] using
            Steps.repGoes (hstage.trans (by rw [RepWorker.stage, hpc]))
              (congrArg Imp.sendMessage himp) (congrArg Imp.messageToSend himp)
      | takes hpc himp hstage =>
          simpa only [afterRep, hpc] using
            Steps.takes (by rw [RepWorker.stage, hpc]) himp hstage
      | sends hpc hstage => simpa only [afterRep, hpc] using Steps.replies hpc hstage
      | onward hdeliver hsend hstage =>
          unfold afterRep
          split
          · exact .repDone hstage (.inr rfl)
          · exact absurd ‹_› (hdeliver _)
          · exact absurd (Action.worker.inj ‹_›) (hsend _ ‹_›)
          · cases ‹Action.worker _ = _›
          · exact .repDone hstage (.inl rfl)
  | _ => exact .repGoes rfl rfl rfl

theorem step_cases [DecidableEq T] [DecidableEq U] {a : PairAction T U} (h : s.step a = some s') : s.Steps a s' := by
  cases a with
  | req a =>
      rw [step] at h
      split_ifs at h with ha
      obtain ⟨req, hreq, rfl⟩ := Option.map_eq_some_iff.mp h
      exact steps_req (by simpa using ha) hreq
  | rep a =>
      rw [step] at h
      split_ifs at h with ha
      obtain ⟨rep, hrep, rfl⟩ := Option.map_eq_some_iff.mp h
      exact steps_rep (by simpa using ha) hrep
  | receiveRequest l =>
      rw [step] at h
      split_ifs at h with hl
      obtain ⟨rep, hrep, rfl⟩ := Option.map_eq_some_iff.mp h
      cases Service.step_cases hrep with
      | works hwork => exact .receivesRequest hl (RepWorker.step_received hwork)
  | receiveReply l =>
      rw [step] at h
      split_ifs at h with hl
      obtain ⟨req, hreq, rfl⟩ := Option.map_eq_some_iff.mp h
      cases Service.step_cases hreq with
      | works hwork =>
          obtain ⟨hpc, hworker⟩ := ReqWorker.step_received hwork
          exact .receivesReply hl.1 hl.2 hpc hworker
  | loseRequest l =>
      obtain rfl := Option.some.inj h
      exact .losesRequest
  | loseReply l =>
      obtain rfl := Option.some.inj h
      exact .losesReply

end Pair

end Shapeware.ZeroMq
