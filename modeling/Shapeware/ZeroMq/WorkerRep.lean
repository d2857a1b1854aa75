import Shapeware.ZeroMq.Service

/-!
# The REP worker

`workerRep` polls for a request with `m_mux` released, hands it to the application, and waits for
the application to leave the reply. What was left before the request came is forgotten.
-/

namespace Shapeware.ZeroMq

/-- Where `workerRep` is. -/
inductive RepPc
  | loop
  | lock
  | waitOpen (w : Wait)
  | checkRun
  | create
  | bind
  | reportOpened
  | unlock
  | poll
  | relock (input : Bool)
  | recv
  | onMessage (request : StdString)
  | clearSend
  | waitReply (w : Wait)
  | send (reply : StdString)
  | checkClose
  | unbind
  | close
  | reportClosed
  | finished
deriving DecidableEq

/-- The local state of `workerRep`: the socket is the last one created. -/
structure RepWorker where
  pc : RepPc
  socket : Nat := 0
deriving DecidableEq

namespace RepWorker

def holdsMux (w : RepWorker) : Bool :=
  match w.pc with
  | .loop | .lock | .poll | .relock _ | .finished => false
  | .waitOpen wait | .waitReply wait => wait.holdsMux
  | _ => true

def notified (w : RepWorker) : RepWorker :=
  match w.pc with
  | .waitOpen wait => { w with pc := .waitOpen wait.notified }
  | .waitReply wait => { w with pc := .waitReply wait.notified }
  | _ => w

theorem socket_notified (w : RepWorker) : w.notified.socket = w.socket := by
  obtain ⟨pc, socket⟩ := w
  cases pc <;> rfl

def goto (w : RepWorker) (pc : RepPc) : RepWorker := { w with pc }

open Stepped in
/-- One step of `workerRep`. A `zmq::error_t` is caught at the end of the loop body. -/
def step (s : Imp) (w : RepWorker) : Outcome → Option (Stepped RepWorker) :=
  match w.pc with
  | .loop => goes s (w.goto (if s.runThd then .lock else .finished))
  | .lock => goes s (w.goto (.waitOpen .test))
  | .waitOpen wait =>
    waits s wait (s.requireSocketState = .open || !s.runThd) (w.goto ∘ .waitOpen)
      (goes s (w.goto .checkRun))
  | .checkRun => goes s (w.goto (if s.runThd then .create else .finished))
  | .create =>
    operates s (w.socket + 1) .create (w.goto .loop) { w with pc := .bind, socket := w.socket + 1 }
  | .bind => operates s w.socket .bind (w.goto .loop) (w.goto .reportOpened)
  | .reportOpened => reports s true (w.goto .unlock)
  | .unlock => goes s (w.goto .poll)
  | .poll => polls s w.socket (w.goto .loop) (w.goto ∘ .relock)
  | .relock input => goes s (w.goto (if input then .recv else .checkClose))
  | .recv =>
    receives s w.socket (w.goto .loop) fun request => w.goto (request.elim .clearSend .onMessage)
  | .onMessage request => calls s s.onMessageFunc (.onMessage request) (w.goto .clearSend)
  | .clearSend => goes { s with sendMessage := false } (w.goto (.waitReply .test))
  | .waitReply wait =>
    waits s wait (s.sendMessage || s.requireSocketState = .close || !s.runThd)
      (w.goto ∘ .waitReply)
      (if s.sendMessage then goes { s with sendMessage := false } (w.goto (.send s.messageToSend))
      else goes s (w.goto .checkClose))
  | .send reply => operates s w.socket (.send reply) (w.goto .loop) (w.goto .checkClose)
  | .checkClose =>
    goes s (w.goto (if s.requireSocketState = .close || !s.runThd then .unbind else .unlock))
  | .unbind => operates s w.socket .unbind (w.goto .loop) (w.goto .close)
  | .close => operates s w.socket .close (w.goto .loop) (w.goto .reportClosed)
  | .reportClosed => reports s false (w.goto .loop)
  | .finished => fun _ => none

end RepWorker

def workerRep : Program RepWorker where
  start := { pc := .loop }
  finished w := w.pc = .finished
  holdsMux := RepWorker.holdsMux
  notified := RepWorker.notified
  step := RepWorker.step

end Shapeware.ZeroMq
