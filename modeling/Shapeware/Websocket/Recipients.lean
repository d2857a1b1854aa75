import Shapeware.Websocket.Registry

/-!
# What a connId stands for

A `connId` is the print of an address, and an address is free again once its connection is closed.
As long as no address is used twice a `connId` names one connection for ever. The first time that an
address is used again, whoever still holds the old `connId` writes to the new client.
-/

namespace Shapeware.Websocket.Service

variable {T : Type} {F : PointerFormat} {s s' : Service T}

theorem mem_callsFor {c : Connection} {call : Call} {trace : List Event} :
    call ∈ callsFor c trace ↔ .called c call ∈ trace := by
  simp only [callsFor, List.mem_filterMap]
  constructor
  · rintro ⟨e, he, heq⟩
    cases e with
    | called c' call' =>
        obtain ⟨rfl, rfl⟩ : c' = c ∧ call' = call := by simpa [Event.callFor] using heq
        exact he
    | «open» | message | close | sent => simp [Event.callFor] at heq
  · exact fun he => ⟨_, he, by simp [Event.callFor]⟩

theorem Tracked.opened_of_called (h : s.Tracked F) {c : Connection} {connId : StdString}
    (hcalled : .called c (.open connId) ∈ s.trace) :
    c ∈ openedConnections s.trace ∧ connId = F.print c.address := by
  have hmem : .open connId ∈ (occurrences c s.trace).flatMap
      (Occurrence.calls (F.print c.address)) := by
    rw [← h.calls c]
    exact List.mem_append_left _ (mem_callsFor.mpr hcalled)
  obtain ⟨o, ho, hcall⟩ := List.mem_flatMap.mp hmem
  cases o with
  | opened => exact ⟨(opened_iff _ _).mpr ho, by simpa [Occurrence.calls] using hcall⟩
  | received | closed => simp [Occurrence.calls] at hcall

/-- Between two events everything that was opened has been announced. -/
theorem Tracked.called_of_opened (h : s.Tracked F) (hserver : s.server = .run) {c : Connection}
    (hc : c ∈ openedConnections s.trace) :
    .called c (.open (F.print c.address)) ∈ s.trace := by
  have hcalls : callsFor c s.trace =
      (occurrences c s.trace).flatMap (Occurrence.calls (F.print c.address)) := by
    simpa [hserver, ServerPc.pending] using h.calls c
  rw [← mem_callsFor, hcalls]
  exact List.mem_flatMap.mpr ⟨.opened, (opened_iff _ _).mp hc, List.mem_singleton_self _⟩

variable [DecidableEq T]

/-- A message to a `connId` goes to the connection that it was announced for or, if this one is
closed, to nobody. -/
def NamesOne (F : PointerFormat) (s : Service T) : Prop :=
  ∀ c connId, .called c (.open connId) ∈ s.trace → ∀ msg s',
    s.step F (.sendMessage msg connId) = some s' →
      s'.trace = s.trace ++ if c ∈ openConnections s.trace then [.sent c.handle msg] else []

theorem Consistent.namesOne (h : s.Consistent F)
    (hdistinct : ((openedConnections s.trace).map Connection.address).Nodup) : s.NamesOne F := by
  intro c connId hcalled msg s' hstep
  obtain ⟨hc, rfl⟩ := h.opened_of_called hcalled
  cases hstep
  by_cases hopen : c ∈ openConnections s.trace
  · rw [if_pos hopen, sends, h.sendTo_one hopen]
    rfl
  · have hnone : s.imp.sendTo (F.print c.address) = [] := by
      refine h.sendTo_none (F.ne_nil _) fun c' hc' heq => hopen ?_
      have hopened := ((mem_openConnections _ _).mp hc').1
      have hsame : c' = c := List.inj_on_of_nodup_map hdistinct hopened hc (F.injective heq)
      exact hsame ▸ hc'
    rw [if_neg hopen, sends, hnone]
    rfl

theorem openedConnections_step {a : Action T} (hstep : s.step F a = some s') :
    openedConnections s'.trace = openedConnections s.trace ∨
      ∃ c, a = .open c ∧ openedConnections s'.trace = openedConnections s.trace ++ [c] := by
  cases step_cases hstep with
  | @«open» c => exact .inr ⟨c, rfl, by simp [openedConnections]⟩
  | message | close | calls => exact .inl (by simp [openedConnections])
  | @sends msg connId =>
      exact .inl (openedConnections_of_quiet (by simp [Event.isQuiet]))
  | skips | returns | runReturns | runThrows | runs | spins | ends | registers | startsAgain
  | starts | stops | stopsAlready | stopsListening | copies | closes | closedAll | clears | joins
  | joinsNothing => exact .inl rfl

/-- A connection that gets the address of a closed one also gets its messages. -/
theorem Consistent.not_namesOne_of_reused (h : s.Consistent F) {c : Connection}
    (hfrom : s.FromWebsocketpp (.open c))
    (hreused : c.address ∈ (openedConnections s.trace).map Connection.address)
    (hstep : s.step F (.open c) = some s') : ¬ s'.NamesOne F := by
  have hafter : s'.Consistent F :=
    h.step hfrom ⟨by simp, by simp⟩ hstep
  cases step_cases hstep with
  | «open» hserver =>
      obtain ⟨c', hc', haddress⟩ := List.mem_map.mp hreused
      have hne : c' ≠ c := fun heq => hfrom.1 (List.mem_map_of_mem (heq ▸ hc'))
      have hcalled := h.called_of_opened hserver hc'
      have hnew : c ∉ openedConnections s.trace := fun hc => hfrom.1 (List.mem_map_of_mem hc)
      have hnotClosed : c ∉ closedConnections s.trace := fun hc =>
        hnew ((opened_iff _ _).mpr
          ((h.lifetimes c).opened_of_closed ((closed_iff c s.trace).mp hc)))
      have hopen := openConnections_open hnotClosed
      have hsent := hafter.sendTo_one (c := c) (by simp [hopen])
      have hclosed : c' ∉ openConnections (s.trace ++ [.open c]) := by
        rw [hopen]
        simp only [List.mem_append, List.mem_singleton, not_or]
        exact ⟨fun hc => hfrom.2 (haddress ▸ List.mem_map_of_mem hc), hne⟩
      intro hall
      have htrace := hall c' _ (by simpa using hcalled) [] _ rfl
      rw [handles_trace, if_neg hclosed, sends, haddress, hsent] at htrace
      simp at htrace

/-- **One connection for ever.** -/
theorem keeps_namesOne_iff :
    Runs.Keeps (step F) (fun s a => s.FromWebsocketpp a ∧ KeepsServing a) (NamesOne F)
        (started : Service T) s ↔
      Runs.Reachable (step F)
        (fun s a => (s.FromWebsocketpp a ∧ KeepsServing a) ∧ s.NewAddress a) started s := by
  refine Runs.keeps_iff (fun s h => ?_) fun s a s' h hallowed hstep hreused => ?_
  · have hconsistent : s.Consistent F := consistent_of_reachable (h.mono fun _ _ h => h.1)
    refine hconsistent.namesOne ?_
    refine h.invariant
      (fun s : Service T => ((openedConnections s.trace).map Connection.address).Nodup) .nil
      fun s a s' hinv hallowed hstep => ?_
    obtain hsame | ⟨c, rfl, hopened⟩ := openedConnections_step hstep
    · exact hsame ▸ hinv
    · rw [hopened, List.map_append]
      exact hinv.append (by simp) (by simpa using hallowed.2 c rfl)
  · have hconsistent : s.Consistent F := consistent_of_reachable (h.mono fun _ _ h => h.1)
    simp only [NewAddress, not_forall, not_not] at hreused
    obtain ⟨c, rfl, hreused⟩ := hreused
    exact hconsistent.not_namesOne_of_reused hallowed.1 hreused hstep

/-- The client at `300` leaves, the next one gets its address, and its messages. -/
theorem not_forall_namesOne : ¬ ∀ s : Service Unit, Runs.Reachable (step hexFormat)
    (fun s a => s.FromWebsocketpp a ∧ KeepsServing a) started s → s.NamesOne hexFormat := by
  refine Runs.not_forall_reachable [.open ⟨5, 300⟩, .server, .server, .close ⟨5, 300⟩, .server,
    .server, .open ⟨6, 300⟩] ⟨_, Option.get_mem (by decide +kernel), fun hall => ?_⟩
  have hsent := hall ⟨5, 300⟩ (hexFormat.print 300) (by decide +kernel) [1] _ rfl
  exact absurd hsent (by decide +kernel)

end Shapeware.Websocket.Service
