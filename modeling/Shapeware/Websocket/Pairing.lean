import Shapeware.Websocket.Recipients

/-!
# What a stop leaves unsaid

`stop` closes the connections of a copy of the map and then clears the map. The server thread handles
the close of a connection before the clearing or after it; after it the connection is not found any
more, and the application is never told that its client is gone.
-/

namespace Shapeware.Websocket.Service

variable {T : Type} {F : PointerFormat} {s s' : Service T} {a : Action T} {c : Connection}

/-- Whoever was announced by the open handler has been announced by the close handler, once and
under the same `connId`. -/
def Paired (s : Service T) : Prop :=
  ∀ c connId, .called c (.open connId) ∈ s.trace →
    (callsFor c s.trace).filter (fun call => call.handler = .close) = [.close connId]

theorem Tracked.paired (h : s.Tracked F) (hended : s.server = .ended)
    (hclosed : openConnections s.trace = []) : s.Paired := by
  intro c connId hcalled
  obtain ⟨hc, rfl⟩ := h.opened_of_called hcalled
  have hcalls : callsFor c s.trace =
      (occurrences c s.trace).flatMap (Occurrence.calls (F.print c.address)) := by
    simpa [hended, ServerPc.pending] using h.calls c
  have hgone : .closed ∈ occurrences c s.trace := by
    rw [← closed_iff]
    by_contra hopen
    have hmem := (mem_openConnections _ _).mpr ⟨hc, hopen⟩
    simp [hclosed] at hmem
  have hmessages (payloads : List (List UInt8)) :
      ((payloads.map Occurrence.received).flatMap (Occurrence.calls (F.print c.address))).filter
        (fun call => call.handler = .close) = [] := by
    induction payloads with
    | nil => rfl
    | cons payload payloads ih => simpa [Occurrence.calls, Call.handler] using ih
  obtain hnil | ⟨payloads, hopen | hlife⟩ := h.lifetimes c
  · simp [hnil] at hgone
  · simp [hopen] at hgone
  · rw [hcalls, hlife, List.flatMap_cons, List.flatMap_append, List.filter_append,
      List.filter_append, hmessages]
    simp [Occurrence.calls, Call.handler]

/-- The connection was announced, or will be, and its close will not be found. -/
structure Forgotten (s : Service T) (c : Connection) : Prop where
  registered : ∀ handler, s.imp.registered handler = true
  opened : c ∈ openedConnections s.trace
  unknown : s.imp.connectionsStrMap[c.handle]? = none
  announced : ∃ connId, .open connId ∈ s.told c
  unsaid : ∀ connId, .close connId ∉ s.told c

namespace Forgotten

theorem not_paired (h : s.Forgotten c) (hended : s.server = .ended) : ¬ s.Paired := by
  intro hpaired
  have htold : s.told c = callsFor c s.trace := by simp [told, hended, ServerPc.pending]
  obtain ⟨connId, hopen⟩ := h.announced
  have hclose := hpaired c connId (mem_callsFor.mp (htold ▸ hopen))
  have hmem : .close connId ∈ (callsFor c s.trace).filter (fun call => call.handler = .close) := by
    simp [hclose]
  exact h.unsaid connId (htold ▸ (List.mem_filter.mp hmem).1)

/-- A step that tells the application nothing of the connection but perhaps of its messages. -/
theorem tells (h : s.Forgotten c) (more : List Call)
    (hregistered : ∀ handler, s'.imp.registered handler = true)
    (hopened : c ∈ openedConnections s'.trace)
    (hunknown : s'.imp.connectionsStrMap[c.handle]? = none)
    (htold : s'.told c = s.told c ++ more) (hmore : ∀ connId, .close connId ∉ more) :
    s'.Forgotten c := by
  refine ⟨hregistered, hopened, hunknown, ?_, fun connId hclose => ?_⟩
  · obtain ⟨connId, hopen⟩ := h.announced
    exact ⟨connId, htold ▸ List.mem_append_left _ hopen⟩
  · rw [htold, List.mem_append] at hclose
    exact hclose.elim (h.unsaid connId) (hmore connId)

theorem handles (h : s.Forgotten c) (hserver : s.server = .run) {e : Event} {c' : Connection}
    {r : Imp × List Call} (hcall : e.callFor c = none) (hregistered : r.1.registered = s.imp.registered)
    (hopened : c ∈ openedConnections (s.trace ++ [e]))
    (hunknown : r.1.connectionsStrMap[c.handle]? = none)
    (hcalls : c' = c → ∀ connId, .close connId ∉ r.2) : (s.handles e c' r).Forgotten c := by
  refine h.tells _ (fun handler => ?_) hopened hunknown (told_handles hserver hcall c' r) ?_
  · rw [handles_imp, hregistered]
    exact h.registered handler
  · intro connId hclose
    split_ifs at hclose with hc
    · exact hcalls hc connId hclose
    · cases hclose

theorem step [DecidableEq T] (h : s.Forgotten c) (hthread : s.HasThread)
    (hfrom : s.FromWebsocketpp a) (hhandlers : KeepsHandlers a) (hstep : s.step F a = some s') :
    s'.Forgotten c := by
  have htold := told_step h.registered hthread hstep
  have hregistered := registered_of_step h.registered hhandlers hstep
  have hquiet (hopened : openedConnections s'.trace = openedConnections s.trace)
      (hunknown : s'.imp.connectionsStrMap[c.handle]? = none)
      (hnothing : ∀ c payload, a ≠ .open c ∧ a ≠ .message c payload ∧ a ≠ .close c) :
      s'.Forgotten c :=
    h.tells [] hregistered (hopened ▸ h.opened) hunknown (by simp [htold hnothing c]) (by simp)
  cases step_cases hstep with
  | @«open» c' hserver =>
      have hother : c.handle ≠ c'.handle := fun heq =>
        hfrom.1 (heq ▸ List.mem_map_of_mem h.opened)
      refine h.handles hserver rfl rfl ?_ ?_ (fun heq => absurd (heq ▸ rfl) hother)
      · have hopened := h.opened
        simp only [openedConnections] at hopened ⊢
        simp [hopened]
      · rw [Imp.onOpen, Std.ExtTreeMap.getElem?_insertIfNew, if_neg, h.unknown]
        exact fun hsame => hother (Std.LawfulEqOrd.compare_eq_iff_eq.mp hsame.1).symm
  | @message c' payload hserver =>
      refine h.handles hserver rfl rfl ?_ h.unknown fun _ connId => ?_
      · simpa [openedConnections] using h.opened
      · rw [Imp.onMessage]
        cases s.imp.getConnId c'.handle <;> simp
  | @close c' hserver =>
      refine h.handles hserver rfl rfl ?_ ?_ fun heq connId => ?_
      · simpa [openedConnections] using h.opened
      · rw [Imp.onClose, stdMap_getElem?_erase, h.unknown, ite_self]
      · subst heq
        simp [Imp.onClose, Imp.getConnId, h.unknown]
  | calls => exact hquiet (by simp [openedConnections]) h.unknown (by simp)
  | sends =>
      exact hquiet (openedConnections_of_quiet (by simp [Event.isQuiet])) h.unknown (by simp)
  | clears => exact hquiet rfl Std.ExtTreeMap.getElem?_empty (by simp)
  | spins | stopsAlready => exact h
  | skips | returns | runReturns | runThrows | runs | ends | registers | starts | startsAgain
  | stops | stopsListening | copies | closes | closedAll | joins | joinsNothing =>
      exact hquiet rfl h.unknown (by simp)

/-- What is in the map when it is cleared was announced, and will not be found. -/
theorem of_clear [DecidableEq T] (h : s.Tracked F) (hjoin : s.HasThread) (hstep : s.step F a = some s')
    (hclears : ¬ s.ClearsNothing a) : ∃ c, s'.Forgotten c := by
  simp only [ClearsNothing, not_forall] at hclears
  obtain ⟨t, rfl, hthread, hmap⟩ := hclears
  obtain ⟨hdl, connId, hentry⟩ : ∃ hdl connId, s.imp.connectionsStrMap[hdl]? = some connId := by
    by_contra hnone
    refine hmap (Std.ExtTreeMap.ext_getElem? fun hdl => ?_)
    rw [Std.ExtTreeMap.getElem?_empty]
    exact Option.eq_none_iff_forall_ne_some.mpr fun connId heq => hnone ⟨hdl, connId, heq⟩
  obtain ⟨c, hc, -, -⟩ := (h.entries _ _).mp hentry
  obtain ⟨hopened, hopen⟩ := (mem_openConnections _ _).mp hc
  have htold : s'.told c = (occurrences c s.trace).flatMap (Occurrence.calls (F.print c.address)) := by
    rw [told_step h.registered hjoin hstep (by simp)]
    exact h.calls c
  have hcleared : s'.imp.connectionsStrMap = ∅ ∧ s'.imp.registered = s.imp.registered ∧
      s'.trace = s.trace := by
    simp only [Service.step, resumes, hthread, Option.some.injEq] at hstep
    exact hstep ▸ ⟨rfl, rfl, rfl⟩
  refine ⟨c, fun handler => hcleared.2.1 ▸ h.registered handler, hcleared.2.2 ▸ hopened, ?_,
    ⟨F.print c.address, ?_⟩, fun connId' hclose => hopen ?_⟩
  · rw [hcleared.1]
    exact Std.ExtTreeMap.getElem?_empty
  · rw [htold]
    exact List.mem_flatMap.mpr ⟨.opened, (opened_iff _ _).mp hopened, List.mem_singleton_self _⟩
  · rw [htold] at hclose
    obtain ⟨o, ho, hcall⟩ := List.mem_flatMap.mp hclose
    cases o with
    | closed => exact (closed_iff _ _).mpr ho
    | opened | received => simp [Occurrence.calls] at hcall

end Forgotten

theorem HasThread.created : HasThread (created : Service T) := fun _ => rfl

/-- **Pairing.** When the server thread has ended and all connections are closed, whoever was
announced has been announced as closed, unless `stop` has cleared a map that was not empty. -/
theorem paired_iff_clearsNothing [DecidableEq T]
    (h : Runs.Reachable (step F)
      (fun s a => s.FromWebsocketpp a ∧ s.InSequence a ∧ KeepsHandlers a) (created : Service T) s)
    (hended : s.server = .ended) (hclosed : openConnections s.trace = []) :
    s.Paired ↔ Runs.Reachable (step F)
      (fun s a => (s.FromWebsocketpp a ∧ s.InSequence a ∧ KeepsHandlers a) ∧ s.ClearsNothing a)
      (created : Service T) s := by
  have htracked {s : Service T} (h : Runs.Reachable (step F)
      (fun s a => (s.FromWebsocketpp a ∧ s.InSequence a ∧ KeepsHandlers a) ∧ s.ClearsNothing a)
      (Service.created : Service T) s) : s.HasThread ∧ s.Tracked F := by
    refine h.invariant (fun s => s.HasThread ∧ s.Tracked F) ⟨.created, .created⟩ ?_
    rintro s a s' ⟨hthread, hinv⟩ ⟨⟨hfrom, -, hhandlers⟩, hclears⟩ hstep
    exact ⟨hthread.step hstep, hinv.step hthread hfrom hhandlers hclears hstep⟩
  refine ⟨fun hpaired => ?_, fun hclears => (htracked hclears).2.paired hended hclosed⟩
  refine (Runs.reachable_or_broken (fun s : Service T => s.HasThread ∧ ∃ c, s.Forgotten c) h
    (fun s a s' hbefore hstep hnot => ?_) fun s a s' hbroken hallowed hstep => ?_).resolve_right ?_
  · obtain ⟨hthread, hinv⟩ := htracked hbefore
    exact ⟨hthread.step hstep, Forgotten.of_clear hinv hthread hstep hnot⟩
  · obtain ⟨hthread, c, hforgotten⟩ := hbroken
    exact ⟨hthread.step hstep, c, hforgotten.step hthread hallowed.1 hallowed.2.2 hstep⟩
  · rintro ⟨-, c, hforgotten⟩
    exact hforgotten.not_paired hended hpaired

/-- One client is connected when the service is stopped; its close comes after the clearing. -/
theorem not_forall_paired : ¬ ∀ s : Service Unit, Runs.Reachable (step hexFormat)
    (fun s a => s.FromWebsocketpp a ∧ s.InSequence a ∧ KeepsHandlers a) created s →
    s.server = .ended → openConnections s.trace = [] → s.Paired := by
  intro hall
  refine Runs.not_forall_reachable (P := fun s : Service Unit =>
    s.server = .ended → openConnections s.trace = [] → s.Paired)
    [.start () true, .serverLoops, .open ⟨5, 300⟩, .server, .server, .stop (), .resume (),
      .resume (), .resume (), .resume (), .resume (), .close ⟨5, 300⟩, .serverReturns,
      .serverLoops] ⟨_, Option.get_mem (by decide +kernel), fun h => ?_⟩ hall
  have hpaired := h (by decide +kernel) (by decide +kernel) ⟨5, 300⟩ (hexFormat.print 300)
    (by decide +kernel)
  exact absurd hpaired (by decide +kernel)

/-- Here `stop` closes the connection, and its close comes before the clearing. -/
theorem paired_iff_clearsNothing_closed_in_time : ∃ s : Service Unit,
    s.trace = [.open ⟨5, 300⟩, .called ⟨5, 300⟩ (.open (hexFormat.print 300)), .close ⟨5, 300⟩,
      .called ⟨5, 300⟩ (.close (hexFormat.print 300))] ∧ s.Paired := by
  obtain ⟨s, hs, htrace, hended, hclosed⟩ : ∃ s : Service Unit, Runs.Reachable (step hexFormat)
      (fun s a => (s.FromWebsocketpp a ∧ s.InSequence a ∧ KeepsHandlers a) ∧ s.ClearsNothing a)
      created s ∧
      s.trace = [.open ⟨5, 300⟩, .called ⟨5, 300⟩ (.open (hexFormat.print 300)),
        .close ⟨5, 300⟩, .called ⟨5, 300⟩ (.close (hexFormat.print 300))] ∧
      s.server = .ended ∧ openConnections s.trace = [] :=
    Runs.exists_reachable [.start () true, .serverLoops, .open ⟨5, 300⟩, .server, .server, .stop (),
      .resume (), .resume (), .resume (), .resume (), .close ⟨5, 300⟩, .server, .server,
      .serverReturns, .serverLoops, .resume (), .resume ()] (by decide +kernel)
  exact ⟨s, htrace, (paired_iff_clearsNothing (hs.mono fun _ _ h => h.1) hended hclosed).mpr hs⟩

end Shapeware.Websocket.Service
