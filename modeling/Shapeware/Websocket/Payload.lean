import Shapeware.Websocket.Recipients
import Shapeware.WebsocketClient.Client

/-!
# What becomes of a message on its way

A frame carries the bytes of a message, any number of any value. The client takes its payload as it
is; the service takes it through a pointer to its first byte, and loses what follows the first zero.
-/

namespace Shapeware.Websocket

/-- The two overloads of `sendMessage`. -/
inductive Overload
  | vector
  | string
deriving DecidableEq

/-- The payload of the frame that the client sends. -/
def clientFrame : Overload → List UInt8 → StdString
  | .vector, msg => WebsocketClient.Imp.sendMessage msg
  | .string, msg => WebsocketClient.Imp.sendMessageStr msg

/-- The string that the service sends; `std::string((char*)msg.data(), msg.size())` for a vector. -/
def serviceMsg : Overload → List UInt8 → StdString
  | .vector, msg => msg
  | .string, msg => msg

theorem msgPayload_eq_iff (payload : List UInt8) : msgPayload payload = payload ↔ 0 ∉ payload := by
  rw [msgPayload, List.takeWhile_eq_self_iff]
  simp only [decide_eq_true_eq]
  exact ⟨fun h hzero => h 0 hzero rfl, fun h byte hbyte heq => h (heq ▸ hbyte)⟩

namespace Service

variable {T : Type} [DecidableEq T]

/-- A message of a client is told to both handlers of the service, byte for byte. -/
def ArrivesAtService (F : PointerFormat) (T : Type) [DecidableEq T] (msg : List UInt8) : Prop :=
  ∀ (overload : Overload) (s s' : Service T) (c : Connection),
    Runs.Reachable (step F) (fun s a => s.FromWebsocketpp a ∧ KeepsServing a) started s →
    c ∈ openConnections s.trace →
    s.step F (.message c (clientFrame overload msg)) = some s' →
      s'.told c = s.told c ++
        [.messageStr msg (F.print c.address), .message msg (F.print c.address)]

/-- The payloads of the frames that are sent to a connection. -/
def framesTo (hdl : Nat) (trace : List Event) : List StdString :=
  trace.filterMap fun
    | .sent hdl' msg => if hdl' = hdl then some msg else none
    | _ => none

/-- A message of the service to one connection, or to all, puts one frame on its way to an open
connection that is meant, which the client there tells to both of its handlers, byte for byte. -/
def ArrivesAtClient (F : PointerFormat) (T : Type) [DecidableEq T] (msg : List UInt8) : Prop :=
  ∀ (overload : Overload) (s s' : Service T) (c : Connection) (connId : StdString),
    Runs.Reachable (step F) (fun s a => s.FromWebsocketpp a ∧ KeepsServing a) started s →
    c ∈ openConnections s.trace → connId = F.print c.address ∨ connId = [] →
    s.step F (.sendMessage (serviceMsg overload msg) connId) = some s' →
    ∃ payload, framesTo c.handle s'.trace = framesTo c.handle s.trace ++ [payload] ∧
      ∀ client : WebsocketClient.Imp, client.registered .message = true →
        client.registered .messageStr = true →
          client.onMessage payload = [.messageStr msg, .message msg]

theorem exists_openConnection (F : PointerFormat) : ∃ (s : Service T) (c : Connection),
    Runs.Reachable (step F) (fun s a => s.FromWebsocketpp a ∧ KeepsServing a) started s ∧
      s.server = .run ∧ c ∈ openConnections s.trace := by
  refine ⟨_, ⟨0, 0⟩, .tail .server (.tail .server (.tail (.open ⟨0, 0⟩) .refl ⟨?_, ?_⟩ rfl)
    ⟨trivial, ?_⟩ rfl) ⟨trivial, ?_⟩ rfl, rfl, ?_⟩
  · simp [FromWebsocketpp, started, openConnections, openedConnections]
  · simp [KeepsServing]
  · simp [KeepsServing]
  · simp [KeepsServing]
  · change (⟨0, 0⟩ : Connection) ∈ openConnections [.open ⟨0, 0⟩, .called ⟨0, 0⟩ (.open (F.print 0))]
    simp [openConnections, openedConnections, closedConnections]

theorem told_message {F : PointerFormat} {s s' : Service T} {c : Connection} {payload : List UInt8}
    (h : s.Consistent F) (hc : c ∈ openConnections s.trace)
    (hstep : s.step F (.message c payload) = some s') :
    s'.told c = s.told c ++ [.messageStr (msgPayload payload) (F.print c.address),
      .message (msgPayload payload) (F.print c.address)] := by
  cases step_cases hstep with
  | message hserver =>
      rw [told_handles hserver rfl, if_pos rfl]
      simp [Imp.onMessage, h.getConnId_eq hc]

theorem arrivesAtService_iff (F : PointerFormat) (msg : List UInt8) :
    ArrivesAtService F T msg ↔ 0 ∉ msg := by
  have hframe (overload : Overload) : clientFrame overload msg = msg := by cases overload <;> rfl
  rw [← msgPayload_eq_iff]
  constructor
  · intro harrives
    obtain ⟨s, c, hreach, hserver, hc⟩ := exists_openConnection (T := T) F
    have hstep : s.step F (.message c (clientFrame .vector msg)) = some (s.handles
        (.message c (clientFrame .vector msg)) c
        (s.imp, s.imp.onMessage c.handle (msgPayload (clientFrame .vector msg)))) := by
      rw [step, if_pos hserver]
    have htold := harrives .vector s _ c hreach hc hstep
    rw [told_message (consistent_of_reachable hreach) hc hstep, hframe] at htold
    simpa using htold
  · intro hpayload overload s s' c hreach hc hstep
    rw [told_message (consistent_of_reachable hreach) hc hstep, hframe, hpayload]

theorem framesTo_map (hdl : Nat) (msg : StdString) (hdls : List Nat) :
    framesTo hdl (hdls.map (.sent · msg)) = List.replicate (hdls.count hdl) msg := by
  induction hdls with
  | nil => rfl
  | cons hdl' hdls ih =>
      rw [framesTo] at ih ⊢
      by_cases heq : hdl' = hdl <;> simp [ih, heq, List.replicate_succ]

omit [DecidableEq T] in
theorem Consistent.count_sendTo {F : PointerFormat} {s : Service T} {c : Connection}
    {connId : StdString} (h : s.Consistent F) (hc : c ∈ openConnections s.trace)
    (hconnId : connId = F.print c.address ∨ connId = []) :
    (s.imp.sendTo connId).count c.handle = 1 := by
  obtain rfl | rfl := hconnId
  · rw [h.sendTo_one hc, List.count_singleton_self]
  · rw [h.sendTo_all.count_eq]
    exact List.count_eq_one_of_mem h.nodup_handles (List.mem_map_of_mem hc)

theorem arrivesAtClient (F : PointerFormat) (msg : List UInt8) : ArrivesAtClient F T msg := by
  intro overload s s' c connId hreach hc hconnId hstep
  have hmsg : serviceMsg overload msg = msg := by cases overload <;> rfl
  rw [hmsg] at hstep
  cases hstep
  refine ⟨msg, ?_, fun client hmessage hmessageStr => ?_⟩
  · have hsent : framesTo c.handle (s.sends msg connId).trace = framesTo c.handle s.trace ++
        framesTo c.handle ((s.imp.sendTo connId).map (.sent · msg)) := List.filterMap_append
    rw [hsent, framesTo_map, (consistent_of_reachable hreach).count_sendTo hc hconnId]
    rfl
  · simp [WebsocketClient.Imp.onMessage, hmessage, hmessageStr]

/-- **Messages arrive unchanged** in both directions exactly if they hold no zero. -/
theorem arrives_iff (F : PointerFormat) (msg : List UInt8) :
    ArrivesAtService F T msg ∧ ArrivesAtClient F T msg ↔ 0 ∉ msg := by
  rw [arrivesAtService_iff, and_iff_left (arrivesAtClient F msg)]

theorem not_arrivesAtService_zero : ¬ ArrivesAtService hexFormat Unit [97, 0, 98] :=
  mt (arrivesAtService_iff hexFormat [97, 0, 98]).mp (by decide)

end Service

end Shapeware.Websocket
