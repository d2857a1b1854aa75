import Shapeware.Mqtt.Locks
import Shapeware.WebsocketClient.Locks
import Shapeware.ZeroMq.Locks

/-!
# Handlers that call back

Three services call handlers of the application with a mutex locked, and each time it is a mutex that
some of their own methods lock. `WebsocketCppService`, which unlocks its mutex first, is not one of
them.
-/

namespace Shapeware

/-- **A handler always runs under a mutex of its service**, and waits for ever when it calls a method
that locks it. -/
theorem handlersDeadlock {T H : Type} [DecidableEq T] (imp : Mqtt.Imp H)
    (registered : WebsocketClient.Handler → Bool) :
    (Mqtt.Locked.component (T := T) imp).HandlersDeadlock Mqtt.Handler.under ∧
    (ZeroMq.Service.component (T := T) ZeroMq.workerReq ZeroMq.ReqWorker.running).HandlersDeadlock
      (fun _ => .mux) ∧
    (ZeroMq.Service.component (T := T) ZeroMq.workerRep ZeroMq.RepWorker.running).HandlersDeadlock
      (fun _ => .mux) ∧
    (WebsocketClient.Client.component (T := T) registered).HandlersDeadlock
      (fun _ => .connectedMux) :=
  ⟨(Mqtt.Locked.callsUnder imp).deadlocksUnder, ZeroMq.callsUnder_req.deadlocksUnder,
    ZeroMq.callsUnder_rep.deadlocksUnder,
    (WebsocketClient.Client.callsUnder registered).deadlocksUnder⟩

/-- A delivery handler runs with the mutex locked that `publish` locks. -/
theorem not_forall_freeHandlers : ¬ ∀ s,
    (Mqtt.Locked.component (T := Unit) (H := Unit) { client := true }).Reaches s →
      (Mqtt.Locked.component (T := Unit) (H := Unit) { client := true }).FreeHandlers s := by
  intro hall
  obtain ⟨s, hs, hrunning⟩ := Mqtt.Locked.exists_running .onDelivery
  have hnone := ((Mqtt.Locked.callsUnder _).freeHandlers_iff hs).mp (hall s hs) ()
  exact absurd (hrunning.symm.trans hnone) (by simp)

end Shapeware
