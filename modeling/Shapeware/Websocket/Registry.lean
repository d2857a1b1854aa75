import Shapeware.Websocket.Service

/-!
# The registry of the connections

While the service runs, `m_connectionsStrMap` is the set of the open connections, each under the
print of its address. So a message finds the connection it is meant for, and what the application is
told of a connection begins with its opening and ends with its close.
-/

namespace Shapeware.Websocket

/-- An event of one connection. -/
inductive Occurrence
  | opened
  | received (payload : List UInt8)
  | closed
deriving DecidableEq

def Event.occurrence (c : Connection) : Event → Option Occurrence
  | .open c' => if c' = c then some .opened else none
  | .message c' payload => if c' = c then some (.received payload) else none
  | .close c' => if c' = c then some .closed else none
  | _ => none

def Event.callFor (c : Connection) : Event → Option Call
  | .called c' call => if c' = c then some call else none
  | _ => none

/-- What happened to a connection. -/
def occurrences (c : Connection) (trace : List Event) : List Occurrence :=
  trace.filterMap (Event.occurrence c)

/-- What the application was told of a connection. -/
def callsFor (c : Connection) (trace : List Event) : List Call :=
  trace.filterMap (Event.callFor c)

/-- What the application is to be told of a connection. -/
def Occurrence.calls (connId : StdString) : Occurrence → List Call
  | .opened => [.open connId]
  | .received payload => [.messageStr (msgPayload payload) connId,
      .message (msgPayload payload) connId]
  | .closed => [.close connId]

/-- The calls that the server thread has still to make. -/
def ServerPc.pending (c : Connection) : ServerPc → List Call
  | .calling c' call rest => if c' = c then call :: rest else []
  | .inside c' _ rest => if c' = c then rest else []
  | .loop | .run | .ended => []

/-- A connection is opened, then receives messages, and is closed at most once. -/
def Lifetime (l : List Occurrence) : Prop :=
  l = [] ∨ ∃ payloads : List (List UInt8), l = .opened :: payloads.map .received ∨
    l = .opened :: (payloads.map .received ++ [.closed])

section Traces

variable (c : Connection) (trace : List Event) (e : Event)

@[simp] theorem occurrences_append :
    occurrences c (trace ++ [e]) = occurrences c trace ++ (e.occurrence c).toList := by
  cases h : e.occurrence c <;> simp [occurrences, List.filterMap_append, h]

@[simp] theorem callsFor_append :
    callsFor c (trace ++ [e]) = callsFor c trace ++ (e.callFor c).toList := by
  cases h : e.callFor c <;> simp [callsFor, List.filterMap_append, h]

theorem mem_openConnections : c ∈ openConnections trace ↔
    c ∈ openedConnections trace ∧ c ∉ closedConnections trace := by
  simp [openConnections]

theorem opened_iff : c ∈ openedConnections trace ↔ .opened ∈ occurrences c trace := by
  simp only [openedConnections, occurrences, List.mem_filterMap]
  refine exists_congr fun e => and_congr_right fun _ => ?_
  cases e <;> simp [Event.occurrence]

theorem closed_iff : c ∈ closedConnections trace ↔ .closed ∈ occurrences c trace := by
  simp only [closedConnections, occurrences, List.mem_filterMap]
  refine exists_congr fun e => and_congr_right fun _ => ?_
  cases e <;> simp [Event.occurrence]

end Traces

@[simp] theorem pending_goOn (c : Connection) (calls : List Call) :
    (ServerPc.goOn c calls).pending c = calls := by
  cases calls <;> simp [ServerPc.goOn, ServerPc.pending]

theorem pending_goOn_of_ne {c c' : Connection} (h : c' ≠ c) (calls : List Call) :
    (ServerPc.goOn c' calls).pending c = [] := by
  cases calls <;> simp [ServerPc.goOn, ServerPc.pending, h]

namespace Lifetime

variable {l : List Occurrence}

theorem opened_of_closed (h : Lifetime l) (hclosed : .closed ∈ l) : .opened ∈ l := by
  obtain rfl | ⟨payloads, rfl | rfl⟩ := h
  · cases hclosed
  · simp
  · simp

theorem isOpen (h : Lifetime l) (hopened : .opened ∈ l) (hclosed : .closed ∉ l) :
    ∃ payloads : List (List UInt8), l = .opened :: payloads.map .received := by
  obtain rfl | ⟨payloads, rfl | rfl⟩ := h
  · cases hopened
  · exact ⟨payloads, rfl⟩
  · simp at hclosed

theorem receives (h : Lifetime l) (hopened : .opened ∈ l) (hclosed : .closed ∉ l)
    (payload : List UInt8) : Lifetime (l ++ [.received payload]) := by
  obtain ⟨payloads, rfl⟩ := h.isOpen hopened hclosed
  exact .inr ⟨payloads ++ [payload], .inl (by simp)⟩

theorem closes (h : Lifetime l) (hopened : .opened ∈ l) (hclosed : .closed ∉ l) :
    Lifetime (l ++ [.closed]) := by
  obtain ⟨payloads, rfl⟩ := h.isOpen hopened hclosed
  exact .inr ⟨payloads, .inr rfl⟩

theorem opens (h : Lifetime l) (hopened : .opened ∉ l) : Lifetime (l ++ [.opened]) := by
  obtain rfl | ⟨payloads, rfl | rfl⟩ := h
  · exact .inr ⟨[], .inl rfl⟩
  · simp at hopened
  · simp at hopened

end Lifetime

/-- The connection that the server thread is busy with, and the calls from the current one on. -/
def ServerPc.current : ServerPc → Option (Connection × List Call)
  | .calling c call rest | .inside c call rest => some (c, call :: rest)
  | .loop | .run | .ended => none

theorem current_goOn {c c' : Connection} {calls calls' : List Call}
    (h : (ServerPc.goOn c calls).current = some (c', calls')) : c' = c ∧ calls' = calls := by
  cases calls with
  | nil => cases h
  | cons call rest =>
      cases h
      exact ⟨rfl, rfl⟩

theorem openConnections_open {c : Connection} {trace : List Event}
    (h : c ∉ closedConnections trace) :
    openConnections (trace ++ [.open c]) = openConnections trace ++ [c] := by
  simp only [openConnections, openedConnections, closedConnections] at h ⊢
  simpa [List.filter_append] using h

theorem openConnections_close (c : Connection) (trace : List Event) :
    openConnections (trace ++ [.close c]) = (openConnections trace).filter fun c' => c' ≠ c := by
  have hopened : openedConnections (trace ++ [.close c]) = openedConnections trace := by
    simp [openedConnections]
  have hclosed : closedConnections (trace ++ [.close c]) = closedConnections trace ++ [c] := by
    simp [closedConnections]
  rw [openConnections, hopened, hclosed, openConnections, List.filter_filter]
  refine List.filter_congr fun c' _ => ?_
  simp [and_comm, not_or]

/-- Calls and sendings change neither the connections nor what happened to them. -/
def Event.isQuiet : Event → Bool
  | .called .. | .sent .. => true
  | _ => false

section Quiet

variable {trace more : List Event}

theorem filterMap_of_quiet {β : Type} {f : Event → Option β}
    (hf : ∀ e : Event, e.isQuiet = true → f e = none) (h : ∀ e ∈ more, e.isQuiet = true) :
    (trace ++ more).filterMap f = trace.filterMap f := by
  have hnone : more.filterMap f = [] :=
    List.filterMap_eq_nil_iff.mpr fun e he => hf e (h e he)
  rw [List.filterMap_append, hnone, List.append_nil]

theorem openedConnections_of_quiet (h : ∀ e ∈ more, e.isQuiet = true) :
    openedConnections (trace ++ more) = openedConnections trace :=
  filterMap_of_quiet (by intro e he; cases e <;> first | rfl | cases he) h

theorem closedConnections_of_quiet (h : ∀ e ∈ more, e.isQuiet = true) :
    closedConnections (trace ++ more) = closedConnections trace :=
  filterMap_of_quiet (by intro e he; cases e <;> first | rfl | cases he) h

theorem openConnections_of_quiet (h : ∀ e ∈ more, e.isQuiet = true) :
    openConnections (trace ++ more) = openConnections trace := by
  rw [openConnections, openedConnections_of_quiet h, closedConnections_of_quiet h, openConnections]

theorem occurrences_of_quiet (c : Connection) (h : ∀ e ∈ more, e.isQuiet = true) :
    occurrences c (trace ++ more) = occurrences c trace :=
  filterMap_of_quiet (by intro e he; cases e <;> first | rfl | cases he) h

end Quiet

namespace Service

variable {T : Type} {F : PointerFormat} {s s' : Service T} {a : Action T} {c : Connection}

/-- The map is what it should be, and so is what the application was told. -/
structure Tracked (F : PointerFormat) (s : Service T) : Prop where
  registered : ∀ handler, s.imp.registered handler = true
  handles : ((openedConnections s.trace).map Connection.handle).Nodup
  addresses : ((openConnections s.trace).map Connection.address).Nodup
  entries : ∀ hdl connId, s.imp.connectionsStrMap[hdl]? = some connId ↔
    ∃ c ∈ openConnections s.trace, c.handle = hdl ∧ F.print c.address = connId
  lifetimes : ∀ c, Lifetime (occurrences c s.trace)
  calls : ∀ c, callsFor c s.trace ++ s.server.pending c =
    (occurrences c s.trace).flatMap (Occurrence.calls (F.print c.address))
  replies : ∀ c calls connId, s.server.current = some (c, calls) → .open connId ∈ calls →
    c ∈ openConnections s.trace ∧ F.print c.address = connId

/-- A server thread that was not started, or was joined, makes no calls. -/
def HasThread (s : Service T) : Prop := s.joinable = false → s.server = .ended

theorem HasThread.step [DecidableEq T] (h : s.HasThread) (hstep : s.step F a = some s') :
    s'.HasThread := by
  have hjoinable (hserver : s.server ≠ .ended) : s.joinable ≠ false := mt h hserver
  cases step_cases hstep with
  | «open» hserver | message hserver | close hserver | calls hserver | skips hserver
  | returns hserver | runReturns hserver | runThrows hserver | runs hserver | ends hserver =>
      exact fun hnot => absurd hnot (hjoinable (by simp [hserver]))
  | starts => exact fun hnot => absurd hnot (by simp)
  | joins _ hended => exact fun _ => hended
  | spins | sends | registers | startsAgain | stops | stopsAlready | stopsListening | copies
  | closes | closedAll | clears | joinsNothing => exact h

theorem registered_of_step [DecidableEq T] (h : ∀ handler, s.imp.registered handler = true)
    (hhandlers : KeepsHandlers a) (hstep : s.step F a = some s') (handler : Handler) :
    s'.imp.registered handler = true := by
  cases step_cases hstep with
  | @registers handler' registered =>
      have htrue : registered = true := by
        by_contra hfalse
        exact hhandlers handler' (by rw [eq_false_of_ne_true hfalse])
      by_cases heq : handler = handler'
      · simp [heq, htrue]
      · simpa [heq] using h handler
  | «open» | message | close | calls | skips | returns | runReturns | runThrows | runs | spins
  | ends | sends | startsAgain | starts | stops | stopsAlready | stopsListening | copies | closes
  | closedAll | clears | joins | joinsNothing => exact h handler

/-- What the application was told of a connection, and is about to be told. -/
def told (s : Service T) (c : Connection) : List Call :=
  callsFor c s.trace ++ s.server.pending c

theorem told_handles (hserver : s.server = .run) {e : Event} (hcall : e.callFor c = none)
    (c' : Connection) (r : Imp × List Call) :
    (s.handles e c' r).told c = s.told c ++ if c' = c then r.2 else [] := by
  have hbefore : ServerPc.run.pending c = [] := rfl
  rw [told, told, handles_trace, handles_server, callsFor_append, hcall, hserver, hbefore]
  by_cases hc : c' = c
  · subst hc
    simp
  · simp [hc, pending_goOn_of_ne hc]

theorem pending_of_current {pc : ServerPc} (hpc : pc.current = none) (c : Connection) :
    pc.pending c = [] := by
  cases pc <;> simp_all [ServerPc.current, ServerPc.pending]

theorem told_of_current (htrace : s'.trace = s.trace) (hbefore : s.server.current = none)
    (hafter : s'.server.current = none) (c : Connection) : s'.told c = s.told c := by
  rw [told, told, htrace, pending_of_current hbefore, pending_of_current hafter]

/-- While nothing new happens, what is still to be told gets told. -/
theorem told_step [DecidableEq T] (hregistered : ∀ handler, s.imp.registered handler = true)
    (hthread : s.HasThread) (hstep : s.step F a = some s')
    (hnothing : ∀ c payload, a ≠ .open c ∧ a ≠ .message c payload ∧ a ≠ .close c)
    (c : Connection) : s'.told c = s.told c := by
  cases step_cases hstep with
  | @«open» c' => exact absurd rfl (hnothing c' []).1
  | @message c' payload => exact absurd rfl (hnothing c' payload).2.1
  | @close c' => exact absurd rfl (hnothing c' []).2.2
  | @calls c' call rest hserver =>
      change callsFor c (s.trace ++ _) ++ _ = _
      rw [callsFor_append, told, hserver]
      by_cases hc : c' = c <;> simp [hc, Event.callFor, ServerPc.pending]
  | skips hserver hcall => exact absurd ((hregistered _).symm.trans hcall) (by simp)
  | @returns c' call rest hserver =>
      change callsFor c s.trace ++ _ = _
      rw [told, hserver]
      by_cases hc : c' = c
      · subst hc
        rw [pending_goOn]
        simp [ServerPc.pending]
      · rw [pending_goOn_of_ne hc]
        simp [ServerPc.pending, hc]
  | runReturns hserver | runThrows hserver | runs hserver | ends hserver =>
      exact told_of_current (by rfl) (by rw [hserver]; rfl) (by rfl) c
  | starts _ hjoinable =>
      exact told_of_current (by rfl) (by rw [hthread hjoinable]; rfl) (by rfl) c
  | sends => simp [told, sends, callsFor, Event.callFor]
  | spins | registers | startsAgain | stops | stopsAlready | stopsListening | copies | closes
  | closedAll | clears | joins | joinsNothing => rfl

namespace Tracked

theorem of_nothing (hregistered : ∀ handler, s.imp.registered handler = true)
    (hmap : s.imp.connectionsStrMap = ∅) (htrace : s.trace = []) (hcurrent : s.server.current = none) :
    s.Tracked F where
  registered := hregistered
  handles := by simp [htrace, openedConnections]
  addresses := by simp [htrace, openConnections, openedConnections]
  entries := by simp [hmap, htrace, openConnections, openedConnections]
  lifetimes c := .inl (by simp [htrace, occurrences])
  calls c := by
    rw [pending_of_current hcurrent]
    simp [htrace, callsFor, occurrences]
  replies := by simp [hcurrent]

theorem started : Tracked F (started : Service T) :=
  of_nothing (fun _ => rfl) rfl rfl rfl

theorem created : Tracked F (created : Service T) :=
  of_nothing (fun _ => rfl) rfl rfl rfl

theorem eq_of_handle (h : s.Tracked F) {c' : Connection} (hc : c ∈ openConnections s.trace)
    (hc' : c' ∈ openConnections s.trace) (heq : c.handle = c'.handle) : c = c' :=
  List.inj_on_of_nodup_map h.handles ((mem_openConnections _ _).mp hc).1
    ((mem_openConnections _ _).mp hc').1 heq

theorem nodup_handles (h : s.Tracked F) :
    ((openConnections s.trace).map Connection.handle).Nodup :=
  h.handles.sublist (List.filter_sublist.map _)

theorem eq_of_address (h : s.Tracked F) {c' : Connection} (hc : c ∈ openConnections s.trace)
    (hc' : c' ∈ openConnections s.trace) (heq : c.address = c'.address) : c = c' :=
  List.inj_on_of_nodup_map h.addresses hc hc' heq

theorem getConnId_eq (h : s.Tracked F) (hc : c ∈ openConnections s.trace) :
    s.imp.getConnId c.handle = some (F.print c.address) :=
  (h.entries _ _).mpr ⟨c, hc, rfl, rfl⟩

theorem current_handles {e : Event} {r : Imp × List Call} {c' : Connection}
    {calls : List Call} (h : (s.handles e c r).server.current = some (c', calls)) :
    c' = c ∧ calls = r.2 := by
  rw [handles_server] at h
  exact current_goOn h

/-- The server thread handles an event of a connection, with the calls that this event asks for. -/
theorem handles_calls (h : s.Tracked F) (hserver : s.server = .run) {e : Event} {o : Occurrence}
    {r : Imp × List Call} (hoccurrence : ∀ c', e.occurrence c' = if c = c' then some o else none)
    (hcall : ∀ c', e.callFor c' = none) (hcalls : r.2 = o.calls (F.print c.address))
    (c' : Connection) :
    callsFor c' (s.handles e c r).trace ++ (s.handles e c r).server.pending c' =
      (occurrences c' (s.handles e c r).trace).flatMap (Occurrence.calls (F.print c'.address)) := by
  rw [← told, told_handles hserver (hcall c'), handles_trace, occurrences_append, hoccurrence, told,
    h.calls c']
  by_cases hc : c = c'
  · subst hc
    simp [hcalls]
  · simp [hc]

theorem handles_lifetimes (h : s.Tracked F) {e : Event} {o : Occurrence} {r : Imp × List Call}
    (hoccurrence : ∀ c', e.occurrence c' = if c = c' then some o else none)
    (hnext : Lifetime (occurrences c s.trace ++ [o])) (c' : Connection) :
    Lifetime (occurrences c' (s.handles e c r).trace) := by
  rw [handles_trace, occurrences_append, hoccurrence]
  by_cases hc : c = c'
  · subst hc
    simpa using hnext
  · simpa [hc] using h.lifetimes c'

/-- The entry of a new connection does not replace that of another one. -/
theorem entries_insert (h : s.Tracked F)
    (hhandle : c.handle ∉ (openedConnections s.trace).map Connection.handle) (hdl : Nat)
    (connId : StdString) :
    (s.imp.connectionsStrMap.insertIfNew c.handle (F.print c.address))[hdl]? = some connId ↔
      ∃ c' ∈ openConnections s.trace ++ [c], c'.handle = hdl ∧ F.print c'.address = connId := by
  have hother : ∀ c' ∈ openConnections s.trace, c'.handle ≠ c.handle := fun c' hc' heq =>
    hhandle (heq ▸ List.mem_map_of_mem ((mem_openConnections _ _).mp hc').1)
  have habsent : s.imp.connectionsStrMap[c.handle]? = none := by
    by_contra hsome
    obtain ⟨connId', hconnId⟩ := Option.ne_none_iff_exists'.mp hsome
    obtain ⟨c', hc', heq, _⟩ := (h.entries _ _).mp hconnId
    exact hother c' hc' heq
  rw [stdMap_getElem?_insertIfNew _ _ _ _ habsent]
  simp only [List.mem_append, List.mem_singleton]
  by_cases hhdl : hdl = c.handle
  · subst hhdl
    simp only [↓reduceIte, Option.some.injEq]
    constructor
    · rintro rfl
      exact ⟨c, .inr rfl, rfl, rfl⟩
    · rintro ⟨c', hc' | rfl, heq, hprint⟩
      · exact absurd heq (hother c' hc')
      · exact hprint
  · rw [if_neg hhdl, h.entries]
    constructor
    · rintro ⟨c', hc', hrest⟩
      exact ⟨c', .inl hc', hrest⟩
    · rintro ⟨c', hc' | rfl, heq, hprint⟩
      · exact ⟨c', hc', heq, hprint⟩
      · exact absurd heq.symm hhdl

theorem opens (h : s.Tracked F) (hserver : s.server = .run)
    (hhandle : c.handle ∉ (openedConnections s.trace).map Connection.handle)
    (haddress : c.address ∉ (openConnections s.trace).map Connection.address) :
    (s.handles (.open c) c (s.imp.onOpen c.handle (F.print c.address))).Tracked F := by
  have hnew : c ∉ openedConnections s.trace := fun hc => hhandle (List.mem_map_of_mem hc)
  have hnotOpened : .opened ∉ occurrences c s.trace := mt (opened_iff c s.trace).mpr hnew
  have hnotClosed : c ∉ closedConnections s.trace := fun hc =>
    hnotOpened ((h.lifetimes c).opened_of_closed ((closed_iff c s.trace).mp hc))
  have hopen := openConnections_open hnotClosed
  refine ⟨h.registered, ?_, ?_, fun hdl connId => ?_,
    h.handles_lifetimes (fun _ => rfl) ((h.lifetimes c).opens hnotOpened),
    h.handles_calls hserver (fun _ => rfl) (fun _ => rfl) rfl,
    fun c' calls connId hcurrent hmem => ?_⟩
  · have hopened : openedConnections (s.trace ++ [.open c]) = openedConnections s.trace ++ [c] := by
      simp [openedConnections]
    rw [handles_trace, hopened, List.map_append]
    exact h.handles.append (by simp) (by simpa using hhandle)
  · rw [handles_trace, hopen, List.map_append]
    exact h.addresses.append (by simp) (by simpa using haddress)
  · rw [handles_trace, hopen]
    exact h.entries_insert hhandle hdl connId
  · obtain ⟨rfl, rfl⟩ := current_handles hcurrent
    obtain rfl : connId = F.print c'.address := by simpa [Imp.onOpen] using hmem
    simp [hopen]

theorem receives (h : s.Tracked F) (hserver : s.server = .run)
    (hc : c ∈ openConnections s.trace) (payload : List UInt8) :
    (s.handles (.message c payload) c
      (s.imp, s.imp.onMessage c.handle (msgPayload payload))).Tracked F := by
  obtain ⟨hopened, hclosed⟩ := (mem_openConnections _ _).mp hc
  have hcalls : s.imp.onMessage c.handle (msgPayload payload) =
      Occurrence.calls (F.print c.address) (.received payload) := by
    simp [Imp.onMessage, h.getConnId_eq hc, Occurrence.calls]
  have hopenedSame : openedConnections (s.trace ++ [.message c payload]) =
      openedConnections s.trace := by simp [openedConnections]
  have hopenSame : openConnections (s.trace ++ [.message c payload]) = openConnections s.trace := by
    simp [openConnections, openedConnections, closedConnections]
  refine ⟨h.registered, ?_, ?_, fun hdl connId => ?_,
    h.handles_lifetimes (fun _ => rfl) ((h.lifetimes c).receives ((opened_iff _ _).mp hopened)
      (mt (closed_iff _ _).mpr hclosed) payload),
    h.handles_calls hserver (fun _ => rfl) (fun _ => rfl) hcalls,
    fun c' calls connId hcurrent hmem => ?_⟩
  · exact hopenedSame ▸ h.handles
  · exact hopenSame ▸ h.addresses
  · exact hopenSame ▸ h.entries hdl connId
  · obtain ⟨rfl, rfl⟩ := current_handles hcurrent
    simp [hcalls, Occurrence.calls] at hmem

theorem closes (h : s.Tracked F) (hserver : s.server = .run)
    (hc : c ∈ openConnections s.trace) :
    (s.handles (.close c) c (s.imp.onClose c.handle)).Tracked F := by
  obtain ⟨hopened, hclosed⟩ := (mem_openConnections _ _).mp hc
  have hcalls : (s.imp.onClose c.handle).2 = Occurrence.calls (F.print c.address) .closed := by
    simp [Imp.onClose, h.getConnId_eq hc, Occurrence.calls]
  have hopenedSame : openedConnections (s.trace ++ [.close c]) = openedConnections s.trace := by
    simp [openedConnections]
  have hopen := openConnections_close c s.trace
  refine ⟨h.registered, ?_, ?_, fun hdl connId => ?_,
    h.handles_lifetimes (fun _ => rfl) ((h.lifetimes c).closes ((opened_iff _ _).mp hopened)
      (mt (closed_iff _ _).mpr hclosed)),
    h.handles_calls hserver (fun _ => rfl) (fun _ => rfl) hcalls,
    fun c' calls connId hcurrent hmem => ?_⟩
  · exact hopenedSame ▸ h.handles
  · rw [handles_trace, hopen]
    exact h.addresses.sublist (List.filter_sublist.map _)
  · rw [handles_trace, hopen, handles_imp, Imp.onClose, stdMap_getElem?_erase]
    by_cases hhdl : hdl = c.handle
    · subst hhdl
      simp only [↓reduceIte, reduceCtorEq, false_iff, not_exists, not_and, List.mem_filter]
      intro c' hc' heq
      have hsame := h.eq_of_handle hc'.1 hc heq
      simp [hsame] at hc'
    · rw [if_neg hhdl, h.entries]
      refine exists_congr fun c' => and_congr_left fun hc' => ?_
      have hne : c' ≠ c := fun heq => hhdl (heq ▸ hc'.1.symm)
      simp [hne]
  · obtain ⟨rfl, rfl⟩ := current_handles hcurrent
    simp [hcalls, Occurrence.calls] at hmem

theorem quiet (h : s.Tracked F) (more : List Event)
    (hmap : s'.imp.connectionsStrMap = s.imp.connectionsStrMap)
    (hregistered : ∀ handler, s'.imp.registered handler = true) (htrace : s'.trace = s.trace ++ more)
    (hmore : ∀ e ∈ more, e.isQuiet = true) (htold : ∀ c, s'.told c = s.told c)
    (hcurrent : ∀ c calls, s'.server.current = some (c, calls) →
      ∃ before, s.server.current = some (c, before ++ calls)) : s'.Tracked F := by
  have hopened : openedConnections s'.trace = openedConnections s.trace := by
    rw [htrace, openedConnections_of_quiet hmore]
  have hopen : openConnections s'.trace = openConnections s.trace := by
    rw [htrace, openConnections_of_quiet hmore]
  have hoccurrences (c : Connection) : occurrences c s'.trace = occurrences c s.trace := by
    rw [htrace, occurrences_of_quiet c hmore]
  refine ⟨hregistered, hopened ▸ h.handles, hopen ▸ h.addresses, ?_, ?_, ?_, ?_⟩
  · rw [hmap, hopen]
    exact h.entries
  · exact fun c => hoccurrences c ▸ h.lifetimes c
  · exact fun c => (htold c).trans (hoccurrences c ▸ h.calls c)
  · intro c calls connId hnow hmem
    obtain ⟨before, hbefore⟩ := hcurrent c calls hnow
    rw [hopen]
    exact h.replies c _ connId hbefore (List.mem_append_right _ hmem)

theorem step [DecidableEq T] (h : s.Tracked F) (hthread : s.HasThread) (hfrom : s.FromWebsocketpp a)
    (hhandlers : KeepsHandlers a) (hclears : s.ClearsNothing a) (hstep : s.step F a = some s') :
    s'.Tracked F := by
  have htold := told_step h.registered hthread hstep
  have hregistered := registered_of_step h.registered hhandlers hstep
  -- the server thread keeps its place, or has no calls to make before and after the step
  have hsame (htrace : s'.trace = s.trace)
      (hmap : s'.imp.connectionsStrMap = s.imp.connectionsStrMap)
      (hserver : s'.server = s.server ∨ s'.server.current = none)
      (hnothing : ∀ c payload, a ≠ .open c ∧ a ≠ .message c payload ∧ a ≠ .close c) :
      s'.Tracked F := by
    refine h.quiet [] hmap hregistered (by simp [htrace]) (by simp) (htold hnothing)
      fun c' calls hcurrent => ?_
    obtain heq | hnone := hserver
    · exact ⟨[], heq ▸ hcurrent⟩
    · exact absurd (hnone.symm.trans hcurrent) (by simp)
  cases step_cases hstep with
  | «open» hserver => exact h.opens hserver hfrom.1 hfrom.2
  | message hserver => exact h.receives hserver hfrom _
  | close hserver => exact h.closes hserver hfrom
  | @calls c call rest hserver hcall =>
      refine h.quiet [.called c call] rfl hregistered rfl (by simp [Event.isQuiet])
        (htold (by simp)) ?_
      rw [hserver]
      exact fun c' calls hcurrent => ⟨[], hcurrent⟩
  | skips hserver hcall => exact absurd ((h.registered _).symm.trans hcall) (by simp)
  | @returns c call rest hserver =>
      refine h.quiet [] rfl hregistered (by simp) (by simp) (htold (by simp)) ?_
      intro c' calls hcurrent
      obtain ⟨rfl, rfl⟩ := current_goOn hcurrent
      exact ⟨[call], by rw [hserver]; rfl⟩
  | runReturns | runThrows | runs | ends | starts =>
      exact hsame rfl rfl (.inr rfl) (by simp)
  | @sends msg connId =>
      exact h.quiet ((s.imp.sendTo connId).map (.sent · msg)) rfl hregistered rfl
        (by simp [Event.isQuiet]) (htold (by simp)) fun c' calls hcurrent => ⟨[], hcurrent⟩
  | spins | stopsAlready => exact h
  | registers | startsAgain | stops | stopsListening | copies | closes | closedAll | joins
  | joinsNothing => exact hsame rfl rfl (.inl rfl) (by simp)
  | clears hthread => exact hsame rfl (hclears _ rfl hthread).symm (.inl rfl) (by simp)

end Tracked

/-- The service runs, and nobody is stopping it. -/
structure Consistent (F : PointerFormat) (s : Service T) : Prop extends s.Tracked F where
  runs : s.imp.runThd = true
  idle : ∀ t, s.threads t = .idle
  thread : s.HasThread

namespace Consistent

theorem started : Consistent F (started : Service T) :=
  { Tracked.started with
    runs := rfl
    idle := fun _ => rfl
    thread := fun hnot => absurd hnot (by simp [Service.started]) }

theorem step [DecidableEq T] (h : s.Consistent F) (hfrom : s.FromWebsocketpp a)
    (hserves : KeepsServing a) (hstep : s.step F a = some s') : s'.Consistent F := by
  have hclears : s.ClearsNothing a := by
    rintro t rfl hthread
    exact absurd ((h.idle t).symm.trans hthread) (by simp)
  have hsame : s'.imp.runThd = s.imp.runThd ∧ s'.threads = s.threads := by
    cases step_cases hstep with
    | stops => exact absurd rfl (hserves.1 _)
    | starts hrun => exact absurd (h.runs.symm.trans hrun) (by simp)
    | stopsListening hthread | copies hthread | closes hthread | closedAll hthread
    | clears hthread | joins hthread | joinsNothing hthread =>
        exact absurd ((h.idle _).symm.trans hthread) (by simp)
    | «open» | message | close | calls | skips | returns | runReturns | runThrows | runs | spins
    | ends | sends | registers | startsAgain | stopsAlready => exact ⟨rfl, rfl⟩
  exact { h.toTracked.step h.thread hfrom hserves.2 hclears hstep with
    runs := hsame.1.trans h.runs
    idle := fun t => hsame.2 ▸ h.idle t
    thread := h.thread.step hstep }

/-! ### Where a message goes -/

theorem mem_toList_iff (h : s.Consistent F) (it : Nat × StdString) :
    it ∈ s.imp.connectionsStrMap.toList ↔
      ∃ c ∈ openConnections s.trace, c.handle = it.1 ∧ F.print c.address = it.2 := by
  rw [← h.entries]
  exact Std.ExtTreeMap.mem_toList_iff_getElem?_eq_some

theorem sendTo_all (h : s.Consistent F) :
    (s.imp.sendTo []).Perm ((openConnections s.trace).map Connection.handle) := by
  have hkeys : (s.imp.connectionsStrMap.toList.map Prod.fst).Nodup := by
    rw [List.Nodup, List.pairwise_map]
    refine Std.ExtTreeMap.distinct_keys_toList.imp fun hne heq => hne ?_
    exact Std.LawfulEqOrd.compare_eq_iff_eq.mpr heq
  rw [Imp.sendTo, if_pos h.runs, if_pos List.isEmpty_nil,
    List.perm_ext_iff_of_nodup hkeys h.nodup_handles]
  intro hdl
  simp only [List.mem_map]
  constructor
  · rintro ⟨it, hit, rfl⟩
    obtain ⟨c, hc, hhandle, _⟩ := (h.mem_toList_iff it).mp hit
    exact ⟨c, hc, hhandle⟩
  · rintro ⟨c, hc, rfl⟩
    exact ⟨(c.handle, F.print c.address), (h.mem_toList_iff _).mpr ⟨c, hc, rfl, rfl⟩, rfl⟩

theorem sendTo_one (h : s.Consistent F) (hc : c ∈ openConnections s.trace) :
    s.imp.sendTo (F.print c.address) = [c.handle] := by
  have hentry : (c.handle, F.print c.address) ∈ s.imp.connectionsStrMap.toList :=
    (h.mem_toList_iff _).mpr ⟨c, hc, rfl, rfl⟩
  rw [Imp.sendTo, if_pos h.runs, if_neg (by simpa using F.ne_nil c.address)]
  cases hfound : s.imp.connectionsStrMap.toList.find? fun it => it.2 = F.print c.address with
  | none => exact absurd (List.find?_eq_none.mp hfound _ hentry) (by simp)
  | some it =>
      obtain ⟨c', hc', hhandle, hprint⟩ := (h.mem_toList_iff it).mp (List.mem_of_find?_eq_some hfound)
      have hconnId : it.2 = F.print c.address := by simpa using List.find?_some hfound
      obtain rfl := h.eq_of_address hc' hc (F.injective (hprint.trans hconnId))
      simp [hhandle]

theorem sendTo_none (h : s.Consistent F) {connId : StdString} (hconnId : connId ≠ [])
    (hnone : ∀ c ∈ openConnections s.trace, F.print c.address ≠ connId) :
    s.imp.sendTo connId = [] := by
  rw [Imp.sendTo, if_pos h.runs, if_neg (by simpa using hconnId)]
  cases hfound : s.imp.connectionsStrMap.toList.find? fun it => it.2 = connId with
  | none => rfl
  | some it =>
      obtain ⟨c, hc, _, hprint⟩ := (h.mem_toList_iff it).mp (List.mem_of_find?_eq_some hfound)
      have hsame : it.2 = connId := by simpa using List.find?_some hfound
      exact absurd (hprint.trans hsame) (hnone c hc)

end Consistent

/-- What `m_connectionsStrMap` is for. -/
structure Registry [DecidableEq T] (F : PointerFormat) (s : Service T) : Prop where
  /-- The map holds the open connections. -/
  entries : ∀ (hdl : Nat) (connId : StdString), s.imp.connectionsStrMap[hdl]? = some connId ↔
    ∃ c ∈ openConnections s.trace, c.handle = hdl ∧ F.print c.address = connId
  distinct : ∀ (hdl hdl' : Nat) (connId : StdString), s.imp.connectionsStrMap[hdl]? = some connId →
    s.imp.connectionsStrMap[hdl']? = some connId → hdl = hdl'
  /-- A message goes to all, to the one that is meant, or to nobody. -/
  sends : ∀ msg connId s', s.step F (.sendMessage msg connId) = some s' →
    ∃ hdls : List Nat, s'.trace = s.trace ++ hdls.map (.sent · msg) ∧
      (connId = [] → hdls.Perm ((openConnections s.trace).map Connection.handle)) ∧
      (connId ≠ [] →
        (∀ c ∈ openConnections s.trace, F.print c.address = connId → hdls = [c.handle]) ∧
        ((∀ c ∈ openConnections s.trace, F.print c.address ≠ connId) → hdls = []))
  /-- Up to the calls that the server thread is about to make, the application was told all that
  happened to a connection, in this order and under one `connId`. -/
  told : ∀ c, callsFor c s.trace ++ s.server.pending c =
    (occurrences c s.trace).flatMap (Occurrence.calls (F.print c.address)) ∧
      Lifetime (occurrences c s.trace)
  /-- A reply from within the open handler reaches the connection. -/
  replies : ∀ c connId rest, s.server = .inside c (.open connId) rest →
    ∀ msg s', s.step F (.sendMessage msg connId) = some s' →
      s'.trace = s.trace ++ [.sent c.handle msg]

theorem Consistent.registry [DecidableEq T] (h : s.Consistent F) : s.Registry F where
  entries := h.entries
  distinct hdl hdl' connId hentry hentry' := by
    obtain ⟨c, hc, rfl, hprint⟩ := (h.entries _ _).mp hentry
    obtain ⟨c', hc', rfl, hprint'⟩ := (h.entries _ _).mp hentry'
    rw [h.eq_of_address hc hc' (F.injective (hprint.trans hprint'.symm))]
  sends msg connId s' hstep := by
    cases hstep
    refine ⟨s.imp.sendTo connId, rfl, ?_, fun hconnId => ⟨?_, h.sendTo_none hconnId⟩⟩
    · rintro rfl
      exact h.sendTo_all
    · rintro c hc rfl
      exact h.sendTo_one hc
  told c := ⟨h.calls c, h.lifetimes c⟩
  replies c connId rest hserver msg s' hstep := by
    obtain ⟨hc, rfl⟩ := h.replies c (.open connId :: rest) connId (by rw [hserver]; rfl) (by simp)
    cases hstep
    rw [sends, h.sendTo_one hc]
    rfl

theorem consistent_of_reachable [DecidableEq T]
    (h : Runs.Reachable (step F) (fun s a => s.FromWebsocketpp a ∧ KeepsServing a)
      (started : Service T) s) : s.Consistent F :=
  h.invariant _ .started fun _ _ _ hinv hallowed hstep => hinv.step hallowed.1 hallowed.2 hstep

/-- **The registry.** Whatever clients come and go, the map holds the connections that are open. -/
theorem registry_of_reachable [DecidableEq T]
    (h : Runs.Reachable (step F) (fun s a => s.FromWebsocketpp a ∧ KeepsServing a)
      (started : Service T) s) : s.Registry F :=
  (consistent_of_reachable h).registry

/-- One client is answered from within its open handler and leaves, another one stays. -/
theorem registry_of_reachable_two_clients : ∃ s : Service Unit,
    s.trace.filter (fun e => e matches .sent .. | .close _) =
      [.sent 5 [1], .sent 2 [2], .sent 5 [2], .close ⟨5, 300⟩, .sent 2 [3]] ∧
      s.Registry hexFormat := by
  have hrun : ∃ s : Service Unit, Runs.Reachable (step hexFormat)
      (fun s a => s.FromWebsocketpp a ∧ KeepsServing a) started s ∧
      s.trace.filter (fun e => e matches .sent .. | .close _) =
        [.sent 5 [1], .sent 2 [2], .sent 5 [2], .close ⟨5, 300⟩, .sent 2 [3]] :=
    Runs.exists_reachable [.open ⟨5, 300⟩, .server, .sendMessage [1] (hexFormat.print 300), .server,
      .open ⟨2, 301⟩, .server, .server, .sendMessage [2] [], .close ⟨5, 300⟩,
      .sendMessage [3] (hexFormat.print 300), .server, .server,
      .sendMessage [3] (hexFormat.print 301)] (by decide +kernel)
  obtain ⟨s, hs, htrace⟩ := hrun
  exact ⟨s, htrace, registry_of_reachable hs⟩

end Service

end Shapeware.Websocket
