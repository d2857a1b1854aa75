import Shapeware.ZeroMq.Service

/-!
# The REQ worker

`workerReq` opens a socket when it is required, sends each message it finds and polls for the reply,
with `m_mux` held all along but for the two waits. After a reply timeout it closes the socket and
starts again. A ZeroMQ operation that throws also makes it start again, without closing anything.
-/

namespace Shapeware.ZeroMq

/-- Where `workerReq` is. -/
inductive ReqPc
  | loop
  | lock
  | waitOpen (w : Wait)
  | checkRun
  | create
  | setsockopt
  | connect
  | reportOpened
  | waitSend (w : Wait)
  | send (request : StdString)
  | poll
  | recv
  | onMessage (reply : StdString)
  | onReqTimeout
  | checkClose
  | disconnect
  | close
  | reportClosed
  | finished
deriving DecidableEq

/-- The local state of `workerReq`: the socket is the last one created. -/
structure ReqWorker where
  pc : ReqPc
  socket : Nat := 0
  resetSocket : Bool := false
deriving DecidableEq

namespace ReqWorker

def holdsMux (w : ReqWorker) : Bool :=
  match w.pc with
  | .loop | .lock | .finished => false
  | .waitOpen wait | .waitSend wait => wait.holdsMux
  | _ => true

def notified (w : ReqWorker) : ReqWorker :=
  match w.pc with
  | .waitOpen wait => { w with pc := .waitOpen wait.notified }
  | .waitSend wait => { w with pc := .waitSend wait.notified }
  | _ => w

theorem socket_notified (w : ReqWorker) : w.notified.socket = w.socket := by
  obtain ⟨pc, socket, reset⟩ := w
  cases pc <;> rfl

def goto (w : ReqWorker) (pc : ReqPc) : ReqWorker := { w with pc }

open Stepped in
/-- One step of `workerReq`. A `zmq::error_t` is caught at the end of the loop body. -/
def step (s : Imp) (w : ReqWorker) : Outcome → Option (Stepped ReqWorker) :=
  match w.pc with
  | .loop => goes s (w.goto (if s.runThd then .lock else .finished))
  | .lock => goes s (w.goto (.waitOpen .test))
  | .waitOpen wait =>
    waits s wait (s.requireSocketState = .open || !s.runThd) (w.goto ∘ .waitOpen)
      (goes s (w.goto .checkRun))
  | .checkRun => goes s (w.goto (if s.runThd then .create else .finished))
  | .create =>
    operates s (w.socket + 1) .create (w.goto .loop)
      { w with pc := .setsockopt, socket := w.socket + 1 }
  | .setsockopt => operates s w.socket .setsockopt (w.goto .loop) (w.goto .connect)
  | .connect => operates s w.socket .connect (w.goto .loop) (w.goto .reportOpened)
  | .reportOpened => reports s true { w with pc := .waitSend .test, resetSocket := false }
  | .waitSend wait =>
    waits s wait (s.sendMessage || s.requireSocketState = .close || !s.runThd) (w.goto ∘ .waitSend)
      (if s.sendMessage then goes { s with sendMessage := false } (w.goto (.send s.messageToSend))
      else goes s (w.goto .checkClose))
  | .send request => operates s w.socket (.send request) (w.goto .loop) (w.goto .poll)
  | .poll =>
    polls s w.socket (w.goto .loop) fun input => w.goto (if input then .recv else .onReqTimeout)
  | .recv =>
    receives s w.socket (w.goto .loop) fun reply => w.goto (reply.elim .checkClose .onMessage)
  | .onMessage reply => calls s s.onMessageFunc (.onMessage reply) (w.goto .checkClose)
  | .onReqTimeout =>
    calls s s.onReqTimeoutFunc .onReqTimeout { w with pc := .checkClose, resetSocket := true }
  | .checkClose =>
    goes s (w.goto (if w.resetSocket || s.requireSocketState = .close || !s.runThd then .disconnect
      else .waitSend .test))
  | .disconnect => operates s w.socket .disconnect (w.goto .loop) (w.goto .close)
  | .close => operates s w.socket .close (w.goto .loop) (w.goto .reportClosed)
  | .reportClosed => reports s false (w.goto .loop)
  | .finished => fun _ => none

end ReqWorker

def workerReq : Program ReqWorker where
  start := { pc := .loop }
  finished w := w.pc = .finished
  holdsMux := ReqWorker.holdsMux
  notified := ReqWorker.notified
  step := ReqWorker.step

end Shapeware.ZeroMq
