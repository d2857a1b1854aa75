import Shapeware.AwsFleetProv.Subscriptions

/-!
# Handlers and the local variables they use

`onConnect` sets a local variable of `worker`, and the handlers of `makeProvisioning` set its
promises. `MqttService` calls a handler for as long as it has it: `onConnect` for every reconnect,
`onMessage` until the topic is unsubscribed, and `onSubscribe` and `onSend` once, when the library
answers.
-/

namespace Shapeware.AwsFleetProv

namespace WorkerPc

def inMakeProvisioning : WorkerPc → Bool
  | .provisioning _ | .cancelling _ | .cancelErases .. => true
  | _ => false

end WorkerPc

/-- The operation of `makeProvisioning` after which the library can set the promise. -/
def Promise.asks : Promise → Option Op
  | .subscribed t => some (.storeHandler t)
  | .sent r => some (.publish r)
  | .responded _ => none

namespace Imp

/-- The call of `worker` by the run has returned or thrown. -/
def workerIsOver (s : Imp) (run : Nat) : Bool := run ≠ s.run || s.worker.hasEnded

def makeProvisioningIsOver (s : Imp) (run : Nat) : Bool :=
  run ≠ s.run || !s.worker.inMakeProvisioning

/-- The action calls a handler that uses local variables of a call that is over. -/
def dangles (s : Imp) : Action → Bool
  | .connected => s.onConnectHandler.any s.workerIsOver
  | .subscribed t _ => (s.subscribing t).any s.makeProvisioningIsOver
  | .sent r _ => (s.sending r).any s.makeProvisioningIsOver
  | .message t => (s.handlers t).any s.makeProvisioningIsOver
  | _ => false

/-- The library answers requests of the client that it has, and connects it after `connect`. -/
def fromClient (s : Imp) : Action → Bool
  | .connected => s.onConnectHandler = s.client
  | .subscribed t _ => s.subscribing t = s.client
  | .sent r _ => s.sending r = s.client
  | _ => true

/-- `MqttService` has no handler of `makeProvisioning`. -/
def isQuit (s : Imp) : Bool :=
  cancelProvisioning.all fun t => s.subscribing t ≠ some s.run && s.handlers t ≠ some s.run

/-- `MqttService` cannot call `onConnect`. -/
def isUnhooked (s : Imp) : Bool := s.client ≠ some s.run || s.onConnectHandler ≠ some s.run

/-- `makeProvisioning` and `worker` leave nothing behind when they throw. -/
def tidy (s : Imp) : Action → Bool
  | .worker outcome =>
    match s.worker with
    | .cancelling rest => rest ≠ [] && outcome = .ok || s.isQuit
    | .caught => s.onError || s.isUnhooked
    | .inOnError => s.isUnhooked
    | _ => true
  | _ => true

/-- The run whose request the library has not answered. -/
def asked (s : Imp) : Promise → Option Nat
  | .subscribed t => s.subscribing t
  | .sent r => s.sending r
  | .responded _ => none

end Imp

/-! ### Requests that are not answered -/

/-- Which requests are not answered at each point of `worker`. -/
def Pending (pending : Promise → Prop) (promises : Promise → Option Bool) : WorkerPc → Prop
  | .provisioning rest => ∀ p, ∀ op ∈ p.asks,
      (pending p → op ∉ rest ∧ .get p ∈ rest) ∧ (promises p ≠ none → op ∉ rest ∧ ¬ pending p)
  | .cancelling _ | .cancelErases .. => ∀ r, ¬ pending (.sent r)
  | .lockWork | .testCertFile | .testKeyFile | .createClient | .setConnected | .setCallbacks
  | .connect | .wait _ => ∀ p, ∀ op ∈ p.asks, ¬ pending p ∧ promises p = none
  | _ => ∀ p, ∀ op ∈ p.asks, ¬ pending p

section Suffixes

open History

variable {p : Promise} {op : Op} {rest : List Op}

theorem get_of_asks (hop : op ∈ p.asks) (h : op :: rest <:+ makeProvisioning) :
    op ∉ rest ∧ .get p ∈ rest := by
  refine of_suffix (P := fun op rest => op ∈ p.asks → op ∉ rest ∧ .get p ∈ rest) ?_ h hop
  cases p with
  | subscribed t => cases t <;> decide
  | sent r | responded r => cases r <;> decide

/-- `makeProvisioning` waits as soon as it has published. -/
theorem get_of_published {r : Request} (h : op :: rest <:+ makeProvisioning)
    (hpublish : .publish r ∉ op :: rest) (hget : .get (.sent r) ∈ op :: rest) :
    op = .get (.sent r) :=
  of_suffix (P := fun op rest => .publish r ∉ op :: rest → .get (.sent r) ∈ op :: rest →
    op = .get (.sent r)) (by cases r <;> decide) h hpublish hget

end Suffixes

namespace Pending

variable {pending pending' : Promise → Prop} {promises promises' : Promise → Option Bool}
  {pc : WorkerPc} {p : Promise} {op : Op} {rest : List Op}

theorem inMakeProvisioning (h : Pending pending promises pc) (hop : op ∈ p.asks) (hp : pending p) :
    pc.inMakeProvisioning = true := by
  cases pc with
  | provisioning rest | cancelling rest | cancelErases t rest => rfl
  | lockWork | testCertFile | testKeyFile | createClient | setConnected | setCallbacks | connect
  | wait w => exact absurd hp (h p op hop).1
  | _ => exact absurd hp (h p op hop)

/-- An answer, to a request that was not answered. -/
theorem answer (h : Pending pending promises pc) (hpending : ∀ p, pending' p → pending p)
    (hpromises : ∀ p, ∀ op ∈ p.asks, promises' p ≠ none →
      promises p ≠ none ∨ pending p ∧ ¬ pending' p) : Pending pending' promises' pc := by
  cases pc with
  | provisioning rest =>
      intro p op hop
      obtain ⟨hasked, hset⟩ := h p op hop
      refine ⟨fun hp => hasked (hpending p hp), fun hp => ?_⟩
      obtain hp | ⟨hp, hnot⟩ := hpromises p op hop hp
      · exact (hset hp).imp id fun hnot hp => hnot (hpending p hp)
      · exact ⟨(hasked hp).1, hnot⟩
  | cancelling rest | cancelErases t rest => exact fun r hp => h r (hpending _ hp)
  | lockWork | testCertFile | testKeyFile | createClient | setConnected | setCallbacks | connect
  | wait w =>
      intro p op hop
      obtain ⟨hnot, hnone⟩ := h p op hop
      refine ⟨fun hp => hnot (hpending p hp), by_contra fun hp => ?_⟩
      obtain hp | ⟨hp, -⟩ := hpromises p op hop hp
      · exact hp hnone
      · exact hnot hp
  | _ => exact fun p op hop hp => h p op hop (hpending p hp)

theorem next (h : Pending pending promises (.provisioning (op :: rest)))
    (hget : ∀ p, op = .get p → promises p ≠ none) :
    Pending pending promises (.provisioning rest) := by
  intro p op' hop'
  obtain ⟨hasked, hset⟩ := h p op' hop'
  refine ⟨fun hp => ?_, fun hp => ?_⟩
  · obtain ⟨hnot, hmem⟩ := hasked hp
    refine ⟨fun hrest => hnot (List.mem_cons_of_mem _ hrest), ?_⟩
    obtain heq | hrest := List.mem_cons.mp hmem
    · exact absurd hp (hset (hget p heq.symm)).2
    · exact hrest
  · exact (hset hp).imp (fun hnot hrest => hnot (List.mem_cons_of_mem _ hrest)) id

theorem ask (h : Pending pending promises (.provisioning (op :: rest)))
    (hsuffix : op :: rest <:+ makeProvisioning) (hop : op ∈ p.asks)
    (hpending : ∀ p', pending' p' → p' = p ∨ pending p') :
    Pending pending' promises (.provisioning rest) := by
  intro p' op' hop'
  obtain ⟨hasked, hset⟩ := h p' op' hop'
  by_cases hp' : p' = p
  · subst hp'
    obtain rfl := Option.mem_unique hop' hop
    exact ⟨fun _ => get_of_asks hop hsuffix, fun hp => absurd List.mem_cons_self (hset hp).1⟩
  · refine ⟨fun hp => ?_, fun hp => ?_⟩
    · obtain ⟨hnot, hmem⟩ := hasked ((hpending p' hp).resolve_left hp')
      refine ⟨fun hrest => hnot (List.mem_cons_of_mem _ hrest), ?_⟩
      refine (List.mem_cons.mp hmem).resolve_left ?_
      rintro rfl
      cases p <;> simp [Promise.asks] at hop
    · refine (hset hp).imp (fun hnot hrest => hnot (List.mem_cons_of_mem _ hrest)) ?_
      exact fun hnot hp => hnot ((hpending p' hp).resolve_left hp')

end Pending

namespace Imp

variable {s s' : Imp} {a : Action} {outcome : Outcome} {t : Topic} {r : Request}
  {run run' : Option Nat}

theorem mem_cancelProvisioning (t : Topic) : t ∈ cancelProvisioning := by
  cases t <;> decide

theorem isQuit_iff : s.isQuit = true ↔
    ∀ t, s.subscribing t ≠ some s.run ∧ s.handlers t ≠ some s.run := by
  simp [isQuit, mem_cancelProvisioning]

def IsPending (s : Imp) (p : Promise) : Prop := s.asked p = some s.run

theorem Goes.pending {pending : Promise → Prop} {pc pc' : WorkerPc} (hgoes : s.Goes pc pc')
    (h : Pending pending s.promises pc) : Pending pending s.promises pc' := by
  cases hgoes with
  | isConnected => exact fun p op hop => ⟨fun hp => absurd hp (h p op hop).1,
      fun hp => absurd (h p op hop).2 hp⟩
  | timesOut => exact fun p op hop => (h p op hop).1
  | @passes op rest hop =>
      refine h.next fun p hget => ?_
      subst hget
      exact hop
  | isProvisioned => exact fun p op hop hp => List.not_mem_nil ((h p op hop).1 hp).2
  | _ => exact h

/-- An exception leaves no request behind that was sent. -/
theorem ThrowsTo.pending {pending : Promise → Prop} {promises : Promise → Option Bool}
    {pc pc' : WorkerPc} (hthrows : s.ThrowsTo pc pc') (h : Pending pending promises pc)
    (hquit : ∀ rest, pc = .cancelling rest → ∀ t, ¬ pending (.subscribed t))
    (hsuffix : ∀ rest, pc = .provisioning rest → rest <:+ makeProvisioning) :
    Pending pending promises pc' := by
  cases hthrows with
  | @provisioning op rest hop =>
      intro r hp
      obtain ⟨hpublish, hget⟩ := (h (.sent r) (.publish r) rfl).1 hp
      obtain rfl := get_of_published (hsuffix _ rfl) hpublish hget
      exact hop
  | @cancelling rest =>
      intro p op hop hp
      cases p with
      | subscribed t => exact hquit rest rfl t hp
      | sent r => exact h r hp
      | responded r => cases hop
  | inHandler | inOnError => exact h
  | _ => exact fun p op hop => (h p op hop).1

/-! ### Runs that leave nothing behind -/

/-- All that `MqttService` knows belongs to the call that runs. -/
structure Kept (s : Imp) : Prop where
  asked : ∀ p q, s.asked p = some q → q = s.run
  pending : Pending s.IsPending s.promises s.worker
  handlers : ∀ t q, s.handlers t = some q → q = s.run ∧ s.worker.inMakeProvisioning = true
  onConnect : ∀ q, s.onConnectHandler = some q → s.client = some q →
    q = s.run ∧ s.worker.hasEnded = false

namespace Kept

theorem start (hpc : s.worker = .returned) (hasked : ∀ p, s.asked p = none)
    (hhandlers : ∀ t, s.handlers t = none) (hclient : s.client = none) : s.Kept where
  asked := fun p q hq => by simp [hasked] at hq
  pending := by
    rw [hpc]
    intro p op hop hp
    simp [IsPending, hasked] at hp
  handlers := fun t q hq => by simp [hhandlers] at hq
  onConnect := fun q _ hq => by simp [hclient] at hq

theorem moves (h : s.Kept) (hrun : s'.run = s.run) (hasked : s'.asked = s.asked)
    (hpending : Pending s.IsPending s'.promises s'.worker)
    (hhandlers : ∀ t q, s'.handlers t = some q → s.handlers t = some q ∧
      (s.worker.inMakeProvisioning = true → s'.worker.inMakeProvisioning = true))
    (honConnect : ∀ q, s'.onConnectHandler = some q → s'.client = some q →
      s.onConnectHandler = some q ∧ s.client = some q)
    (hended : s'.worker.hasEnded = true → s.worker.hasEnded = true ∨ s.isUnhooked = true) :
    s'.Kept where
  asked := by
    rw [hasked, hrun]
    exact h.asked
  pending := by
    have hsame : s'.IsPending = s.IsPending := by
      funext p
      rw [IsPending, IsPending, hasked, hrun]
    rwa [hsame]
  handlers := fun t q hq => by
    obtain ⟨hold, hin⟩ := hhandlers t q hq
    exact hrun ▸ (h.handlers t q hold).imp id hin
  onConnect := fun q hq hclient => by
    obtain ⟨hq, hclient⟩ := honConnect q hq hclient
    obtain ⟨rfl, hrunning⟩ := h.onConnect q hq hclient
    refine ⟨hrun.symm, eq_false_of_ne_true fun hover => ?_⟩
    obtain hbefore | hunhooked := hended hover
    · exact absurd (hrunning.symm.trans hbefore) (by simp)
    · simp [isUnhooked, hclient, hq] at hunhooked

end Kept

theorem Kept.asks {p : Promise} {op : Op} {rest : List Op} (h : s.Kept) (howned : s.Owned)
    (hpc : s.worker = .provisioning (op :: rest)) (hop : op ∈ p.asks) (hrun : s'.run = s.run)
    (hasked : s'.asked = Function.update s.asked p (some s.run)) (hpromises : s'.promises = s.promises)
    (hpc' : s'.worker = .provisioning rest)
    (hhandlers : ∀ t q, s'.handlers t = some q → s.handlers t = some q ∨ q = s.run)
    (hclient : s'.client = s.client) (honConnect : s'.onConnectHandler = s.onConnectHandler) :
    s'.Kept where
  asked := fun p' q hq => by
    rw [hasked] at hq
    rw [hrun]
    by_cases hp : p' = p
    · subst hp
      rw [Function.update_self] at hq
      exact (Option.some.inj hq).symm
    · rw [Function.update_of_ne hp] at hq
      exact h.asked p' q hq
  pending := by
    have hpending := h.pending
    have hsubscribed := howned.subscribed
    rw [hpc] at hpending hsubscribed
    rw [hpc', hpromises]
    refine hpending.ask hsubscribed.1 hop fun p' hp' => or_iff_not_imp_left.mpr fun hne => ?_
    rwa [IsPending, hasked, hrun, Function.update_of_ne hne] at hp'
  handlers := fun t q hq => by
    rw [hpc', hrun]
    refine ⟨?_, rfl⟩
    obtain hold | rfl := hhandlers t q hq
    · exact (h.handlers t q hold).1
    · rfl
  onConnect := fun q hq hq' => by
    rw [honConnect] at hq
    rw [hclient] at hq'
    rw [hrun, hpc']
    exact ⟨(h.onConnect q hq hq').1, rfl⟩

theorem asked_of_subscribing (hsubscribing : s'.subscribing = Function.update s.subscribing t run')
    (hsending : s'.sending = s.sending) :
    s'.asked = Function.update s.asked (.subscribed t) run' := by
  funext p
  cases p with
  | subscribed t' => by_cases ht : t' = t <;> simp [asked, hsubscribing, ht]
  | sent r => simp [asked, hsending]
  | responded r => simp [asked]

theorem asked_of_sending (hsending : s'.sending = Function.update s.sending r run')
    (hsubscribing : s'.subscribing = s.subscribing) :
    s'.asked = Function.update s.asked (.sent r) run' := by
  funext p
  cases p with
  | sent r' => by_cases hr : r' = r <;> simp [asked, hsending, hr]
  | subscribed t => simp [asked, hsubscribing]
  | responded r => simp [asked]

theorem handler_of_erased {handlers : Topic → Option Nat} {t' : Topic} {q : Nat}
    (h : Function.update handlers t none t' = some q) : handlers t' = some q := by
  by_cases ht : t' = t
  · simp [ht] at h
  · rwa [Function.update_of_ne ht] at h

/-- `makeProvisioning` throws only when it has quit. -/
theorem isQuit_of_throws {rest : List Topic} (hpc : s.worker = .cancelling rest)
    (hworks : s.works outcome = some (s.throws .caught)) (htidy : s.tidy (.worker outcome) = true) :
    s.isQuit = true := by
  cases rest with
  | nil => simpa [tidy, hpc] using htidy
  | cons t rest =>
      cases outcome with
      | ok => simp [works, hpc, orThrows, goto, throws, log] at hworks
      | threw => simpa [tidy, hpc] using htidy

theorem Kept.no_handler (h : s.Kept) (hnot : s.worker.inMakeProvisioning = false) (t : Topic)
    (q : Nat) : s.handlers t ≠ some q := by
  intro hq
  have hin := (h.handlers t q hq).2
  rw [hnot] at hin
  cases hin

theorem Kept.works (h : s.Kept) (howned : s.Owned) (htidy : s.tidy (.worker outcome) = true)
    (hworks : s.works outcome = some s') : s'.Kept := by
  have hpending := h.pending
  have hsubscribed := howned.subscribed
  cases work_cases hworks with
  | goes hpc hgoes =>
      rw [hpc] at hpending hsubscribed
      refine h.moves rfl rfl (hgoes.pending hpending) (fun t q hq => ⟨hq, fun hin => ?_⟩)
        (fun q hq hclient => ⟨hq, hclient⟩) fun hover => .inr ?_
      · rw [hpc] at hin
        cases hgoes with
        | isProvisioned => exact absurd (hq.symm.trans (hsubscribed.2.1 t List.not_mem_nil)) nofun
        | passes | cancels => rfl
        | _ => cases hin
      · cases hgoes with
        | ignores hignored => simpa [tidy, hpc, hignored] using htidy
        | onErrorReturns => simpa [tidy, hpc] using htidy
        | _ => cases hover
  | @throws pc pc' hpc hthrows =>
      rw [hpc] at hpending hsubscribed
      have hquit (rest : List Topic) (hcancelling : pc = .cancelling rest) :
          ∀ t, s.subscribing t ≠ some s.run ∧ s.handlers t ≠ some s.run := by
        subst hcancelling
        cases hthrows
        exact isQuit_iff.mp (isQuit_of_throws hpc hworks htidy)
      refine h.moves rfl rfl
        (hthrows.pending hpending (fun rest hrest t => (hquit rest hrest t).1) fun rest hrest => ?_)
        (fun t q hq => ⟨hq, fun hin => ?_⟩) (fun q hq hclient => ⟨hq, hclient⟩) fun hover => .inr ?_
      · subst hrest
        exact hsubscribed.1
      · rw [hpc] at hin
        cases hthrows with
        | provisioning => rfl
        | cancelling =>
            obtain ⟨rfl, -⟩ := h.handlers t q hq
            exact absurd hq (hquit _ rfl t).2
        | _ => cases hin
      · cases hthrows with
        | inOnError => simpa [tidy, hpc] using htidy
        | _ => cases hover
  | creates hpc =>
      rw [hpc] at hpending
      refine ⟨h.asked, hpending, fun t q hq => ?_, fun q _ hclient => ⟨?_, rfl⟩⟩
      · exact absurd hq (h.no_handler (by rw [hpc]; rfl) t q)
      · exact (Option.some.inj hclient).symm
  | connects hpc =>
      rw [hpc] at hpending
      refine ⟨h.asked, hpending, fun t q hq => ?_, fun q hq _ => ⟨(Option.some.inj hq).symm, rfl⟩⟩
      exact absurd hq (h.no_handler (by rw [hpc]; rfl) t q)
  | cannotConnect hpc =>
      rw [hpc] at hpending
      refine ⟨h.asked, fun p op hop => (hpending p op hop).1, fun t q hq => ?_,
        fun q hq _ => ⟨(Option.some.inj hq).symm, rfl⟩⟩
      exact absurd hq (h.no_handler (by rw [hpc]; rfl) t q)
  | @storesHandler t rest hpc hcallback =>
      refine h.asks howned hpc (p := .subscribed t) rfl rfl (asked_of_subscribing rfl rfl) rfl rfl
        (fun t' q hq => ?_) rfl rfl
      by_cases ht : t' = t
      · subst ht
        exact .inr (by simpa using hq.symm)
      · exact .inl ((Function.update_of_ne ht _ s.handlers).symm.trans hq)
  | readsToken hpc | readsCertificateId hpc =>
      rw [hpc] at hpending
      exact h.moves rfl rfl (hpending.next nofun) (fun t q hq => ⟨hq, fun _ => rfl⟩)
        (fun q hq hclient => ⟨hq, hclient⟩) nofun
  | @publishes r rest sending hpc hsending =>
      obtain rfl | rfl := hsending
      · rw [hpc] at hpending
        exact h.moves rfl rfl (hpending.next nofun) (fun t q hq => ⟨hq, fun _ => rfl⟩)
          (fun q hq hclient => ⟨hq, hclient⟩) nofun
      · exact h.asks howned hpc (p := .sent r) rfl rfl (asked_of_sending rfl rfl) rfl rfl
          (fun t' q hq => .inl hq) rfl rfl
  | @erasesHandler t rest hpc =>
      rw [hpc] at hpending
      refine h.moves rfl rfl (hpending.next nofun) (fun t' q hq => ⟨?_, fun _ => rfl⟩)
        (fun q hq hclient => ⟨hq, hclient⟩) nofun
      exact handler_of_erased hq
  | @cancelErases t rest hpc =>
      rw [hpc] at hpending
      refine h.moves rfl rfl hpending (fun t' q hq => ⟨?_, fun _ => rfl⟩)
        (fun q hq hclient => ⟨hq, hclient⟩) nofun
      exact handler_of_erased hq
  | callsOnProvisioned hpc | callsOnError hpc | callsNobody hpc | catches hpc =>
      rw [hpc] at hpending
      refine h.moves rfl rfl hpending (fun t q hq => ⟨hq, fun hin => ?_⟩)
        (fun q hq hclient => ⟨hq, hclient⟩) nofun
      rw [hpc] at hin
      cases hin
  | destroys hpc =>
      rw [hpc] at hpending
      refine ⟨h.asked, hpending, fun t q hq => ?_, nofun⟩
      exact absurd hq (h.no_handler (by rw [hpc]; rfl) t q)

theorem Kept.answers {p : Promise} {q : Nat} {value : Bool} {s₁ : Imp} (h : s.Kept)
    (hp : s.asked p = some q) (hs₁ : s₁.asked = Function.update s.asked p none)
    (hrun : s₁.run = s.run) (hpromises : s₁.promises = s.promises) (hpc : s₁.worker = s.worker)
    (hhandlers : s₁.handlers = s.handlers) (hclient : s₁.client = s.client)
    (honConnect : s₁.onConnectHandler = s.onConnectHandler) : (s₁.answers q p value).Kept := by
  obtain rfl := h.asked p q hp
  have hasked (p' : Promise) (q : Nat) (hp' : s₁.asked p' = some q) :
      p' ≠ p ∧ s.asked p' = some q := by
    rw [hs₁] at hp'
    by_cases hne : p' = p
    · simp [hne] at hp'
    · exact ⟨hne, (Function.update_of_ne hne none s.asked).symm.trans hp'⟩
  rw [Imp.answers, if_pos hrun.symm]
  refine ⟨fun p' q hq => ?_, ?_, ?_, ?_⟩
  · exact (h.asked p' q (hasked p' q hq).2).trans hrun.symm
  · change Pending (fun p' => s₁.asked p' = some s₁.run) _ s₁.worker
    rw [hpc, hrun]
    refine h.pending.answer (fun p' hp' => (hasked p' _ hp').2) fun p' op hop hp' => ?_
    by_cases hne : p' = p
    · subst hne
      exact .inr ⟨hp, fun hp' => (hasked _ _ hp').1 rfl⟩
    · refine .inl ?_
      simp only [setValue, hpromises] at hp'
      split_ifs at hp'
      · rwa [Function.update_of_ne hne] at hp'
      · exact hp'
  · change ∀ t q, s₁.handlers t = some q → q = s₁.run ∧ s₁.worker.inMakeProvisioning = true
    rw [hhandlers, hrun, hpc]
    exact h.handlers
  · change ∀ q, s₁.onConnectHandler = some q → s₁.client = some q → q = s₁.run ∧ _
    rw [honConnect, hclient, hrun]
    exact fun q hq hclient => (h.onConnect q hq hclient).imp id fun hended => hpc ▸ hended

theorem Kept.quiet (h : s.Kept) (hrun : s'.run = s.run) (hasked : s'.asked = s.asked)
    (hpromises : ∀ p, ∀ op ∈ p.asks, s'.promises p = s.promises p) (hpc : s'.worker = s.worker)
    (hhandlers : s'.handlers = s.handlers) (hclient : s'.client = s.client)
    (honConnect : ∀ q, s'.onConnectHandler = some q → s.onConnectHandler = some q) : s'.Kept := by
  refine h.moves hrun hasked ?_ (fun t q hq => ⟨hhandlers ▸ hq, by rw [hpc]; exact id⟩)
    (fun q hq hq' => ⟨honConnect q hq, hclient ▸ hq'⟩) fun hover => .inl (hpc ▸ hover)
  rw [hpc]
  refine h.pending.answer (fun p => id) fun p op hop hp => .inl ?_
  rwa [← hpromises p op hop]

theorem Kept.handles {source : Source} {op : MessageOp} (h : s.Kept) :
    (s.handles source op).Kept := by
  cases op with
  | setValue r accepted =>
      unfold Imp.handles Imp.answers
      split_ifs
      · refine h.quiet rfl rfl (fun p op hop => ?_) rfl rfl rfl fun q => id
        have hne : p ≠ .responded r := by
          rintro rfl
          cases hop
        simp only [setValue]
        split_ifs
        · exact Function.update_of_ne hne _ _
        · rfl
      · exact h
  | _ => exact h.quiet rfl rfl (fun p op hop => rfl) rfl rfl rfl fun q => id

theorem Kept.wakes {w : TimedWait} (h : s.Kept) : (s.wakes w).Kept := by
  unfold Imp.wakes
  split
  case h_1 hpc =>
    have hpending := h.pending
    rw [hpc] at hpending
    refine h.moves rfl rfl hpending (fun t q hq => ⟨hq, fun hin => ?_⟩)
      (fun q hq hclient => ⟨hq, hclient⟩) nofun
    rw [hpc] at hin
    cases hin
  case h_2 => exact h

/-- Where `worker` has ended, nothing is left. -/
theorem Kept.asked_eq_none (h : s.Kept) (hended : s.worker.inMakeProvisioning = false)
    (p : Promise) : s.asked p = none := by
  cases hq : s.asked p with
  | none => rfl
  | some q =>
      obtain rfl := h.asked p q hq
      have hin (op : Op) (hop : op ∈ p.asks) : False := by
        have hin := h.pending.inMakeProvisioning hop hq
        simp [hended] at hin
      cases p with
      | subscribed t => exact (hin _ rfl).elim
      | sent r => exact (hin _ rfl).elim
      | responded r => cases hq

theorem Kept.step (h : s.Kept) (howned : s.Owned) (htidy : s.tidy a = true)
    (hstep : s.step a = some s') : s'.Kept := by
  cases step_cases hstep with
  | works => exact h.works howned htidy hstep
  | wakes hpc =>
      have hwakes : ∀ w, (s.wakes w).Kept := fun w => h.wakes
      simpa [Imp.wakes, hpc] using hwakes _
  | stays => exact h
  | startsWorker hended =>
      have hin : s.worker.inMakeProvisioning = false := by
        cases hpc : s.worker <;> simp_all [WorkerPc.hasEnded, WorkerPc.inMakeProvisioning]
      refine ⟨fun p q hq => ?_, fun p op hop => ⟨fun hp => ?_, rfl⟩, fun t q hq => ?_,
        fun q hq hclient => ?_⟩
      · exact absurd ((h.asked_eq_none hin p).symm.trans hq) nofun
      · exact absurd ((h.asked_eq_none hin p).symm.trans hp) nofun
      · exact absurd ((h.handlers t q hq).2.symm.trans hin) nofun
      · exact absurd ((h.onConnect q hq hclient).2.symm.trans hended) nofun
  | answersSubscribe hcall hrun =>
      exact h.answers (p := .subscribed _) hrun (asked_of_subscribing rfl rfl) rfl rfl rfl rfl rfl rfl
  | answersSend hcall hrun =>
      exact h.answers (p := .sent _) hrun (asked_of_sending rfl rfl) rfl rfl rfl rfl rfl rfl
  | setsConnected =>
      have hwakes : (s.wakes .relock).Kept := h.wakes
      exact hwakes.quiet rfl rfl (fun p op hop => rfl) rfl rfl rfl fun q => id
  | @handles source op =>
      have hhandled : (s.handles source op).Kept := h.handles
      exact hhandled.quiet rfl rfl (fun p op hop => rfl) rfl rfl rfl fun q => id
  | stops =>
      exact .start rfl (fun p => by cases p <;> rfl) (fun _ => rfl) rfl
  | deactivates => exact h.quiet rfl rfl (fun p op hop => rfl) rfl rfl rfl nofun
  | _ => exact h.quiet rfl rfl (fun p op hop => rfl) rfl rfl rfl fun q => id

theorem kept_of_reachable
    (h : Runs.Reachable step (fun s a => s.fromClient a = true ∧ s.tidy a = true) init s) : s.Kept := by
  refine h.invariant_of_reachable Kept (.start rfl (fun p => by cases p <;> rfl) (fun _ => rfl) rfl)
    fun s a t hreach hs hallowed hstep => hs.step ?_ hallowed.2 hstep
  exact owned_of_reachable (hreach.mono fun _ _ _ => trivial)

/-- `MqttService` calls the handlers of the calls that run. -/
theorem Kept.not_dangles (h : s.Kept) (hclient : s.fromClient a = true) : s.dangles a = false := by
  cases a with
  | connected =>
      cases hq : s.onConnectHandler with
      | none => simp [dangles, hq]
      | some q =>
          have hclient : s.onConnectHandler = s.client := by simpa [fromClient] using hclient
          obtain ⟨rfl, hrunning⟩ := h.onConnect q hq (hclient ▸ hq)
          simp [dangles, hq, workerIsOver, hrunning]
  | subscribed t result =>
      cases hq : s.subscribing t with
      | none => simp [dangles, hq]
      | some q =>
          obtain rfl := h.asked (.subscribed t) q hq
          have hin := h.pending.inMakeProvisioning (p := .subscribed t) rfl hq
          simp [dangles, hq, makeProvisioningIsOver, hin]
  | sent r result =>
      cases hq : s.sending r with
      | none => simp [dangles, hq]
      | some q =>
          obtain rfl := h.asked (.sent r) q hq
          have hin := h.pending.inMakeProvisioning (p := .sent r) rfl hq
          simp [dangles, hq, makeProvisioningIsOver, hin]
  | message t =>
      cases hq : s.handlers t with
      | none => simp [dangles, hq]
      | some q =>
          obtain ⟨rfl, hin⟩ := h.handlers t q hq
          simp [dangles, hq, makeProvisioningIsOver, hin]
  | _ => rfl

/-! ### What the condition leaves out -/

/-- The library can call a handler whose call is over. -/
def Dangling (s : Imp) : Prop :=
  ∃ a s', s.fromClient a = true ∧ s.step a = some s' ∧ s.dangles a = true

/-- What the library and `worker` have to do with each other is the same. -/
structure Unmoved (s s' : Imp) : Prop where
  run : s'.run = s.run
  worker : s'.worker = s.worker
  client : s'.client = s.client
  subscribing : s'.subscribing = s.subscribing
  handlers : s'.handlers = s.handlers
  onConnect : s'.onConnectHandler = s.onConnectHandler

theorem Unmoved.trans {s'' : Imp} (h : s.Unmoved s') (h' : s'.Unmoved s'') : s.Unmoved s'' where
  run := h'.run.trans h.run
  worker := h'.worker.trans h.worker
  client := h'.client.trans h.client
  subscribing := h'.subscribing.trans h.subscribing
  handlers := h'.handlers.trans h.handlers
  onConnect := h'.onConnect.trans h.onConnect

theorem unmoved_handles {source : Source} {op : MessageOp} {callback : Callback} :
    s.Unmoved { s.handles source op with callback } := by
  cases op with
  | setValue r accepted =>
      unfold Imp.handles Imp.answers
      split_ifs <;> exact ⟨rfl, rfl, rfl, rfl, rfl, rfl⟩
  | _ => exact ⟨rfl, rfl, rfl, rfl, rfl, rfl⟩

theorem leads_to_idle_of_message {source : Source} {rest : List MessageOp}
    (hcallback : s.callback = .onMessage source rest) :
    Runs.Leads step (fun s a => s.fromClient a = true) s
      fun s' => s.Unmoved s' ∧ s'.callback = .idle := by
  induction rest generalizing s with
  | nil =>
      refine .head (a := .callback .ok) (t := { s with callback := .idle }) rfl
        (by simp [step, callsBack, hcallback]) ?_
      exact Runs.leads_of_mem ⟨⟨rfl, rfl, rfl, rfl, rfl, rfl⟩, rfl⟩
  | cons op rest ih =>
      obtain ⟨u, hreach, hunmoved, hidle⟩ :=
        ih (s := { s.handles source op with callback := .onMessage source rest }) rfl
      have hstep : s.step (.callback .ok) =
          some { s.handles source op with callback := .onMessage source rest } := by
        simp only [step, callsBack, hcallback]
      exact .head rfl hstep ⟨u, hreach, unmoved_handles.trans hunmoved, hidle⟩

/-- The library thread comes back from the handler it is in. -/
theorem leads_to_idle (hmutex : s.worker.holdsWorkMtx = false) (hpc : s.worker ≠ .wait .blocked) :
    Runs.Leads step (fun s a => s.fromClient a = true) s
      fun s' => s.Unmoved s' ∧ s'.callback = .idle := by
  cases hcallback : s.callback with
  | idle => exact Runs.leads_of_mem ⟨⟨rfl, rfl, rfl, rfl, rfl, rfl⟩, hcallback⟩
  | onMessage source rest => exact leads_to_idle_of_message hcallback
  | onConnect run =>
      have hwakes : s.wakes .relock = s := by
        unfold Imp.wakes
        split
        case h_1 hblocked => exact absurd hblocked hpc
        case h_2 => rfl
      refine .head (a := .callback .ok)
        (t := { (if run = s.run then { s with connected := true } else s) with callback := .idle })
        rfl (by simp [step, callsBack, hcallback, hmutex, hwakes]) ?_
      refine Runs.leads_of_mem ⟨?_, rfl⟩
      split_ifs <;> exact ⟨rfl, rfl, rfl, rfl, rfl, rfl⟩

theorem leads_to_dangling (hmutex : s.worker.holdsWorkMtx = false)
    (hpc : s.worker ≠ .wait .blocked) (hin : s.worker.inMakeProvisioning = false)
    (hclient : s.client = some s.run)
    (h : (∃ t, s.subscribing t = some s.run ∨ s.handlers t = some s.run) ∨
      s.worker.hasEnded = true ∧ s.onConnectHandler = some s.run) :
    Runs.Leads step (fun s a => s.fromClient a = true) s Dangling := by
  obtain ⟨u, hreach, hsame, hidle⟩ := leads_to_idle hmutex hpc
  refine ⟨u, hreach, ?_⟩
  have hrun := hsame.run
  have hcall : u.CanCall := ⟨by simp [hsame.client, hclient], hidle⟩
  have hover : u.makeProvisioningIsOver s.run = true := by
    simp [makeProvisioningIsOver, hsame.worker, hin]
  obtain ⟨t, hsubscribing | hhandler⟩ | ⟨hended, hconnect⟩ := h
  · rw [← hsame.subscribing] at hsubscribing
    refine ⟨.subscribed t true, _, ?_, by simp [step, hcall, hsubscribing]; rfl, ?_⟩
    · simp [fromClient, hsubscribing, hsame.client, hclient]
    · simp [dangles, hsubscribing, hover]
  · rw [← hsame.handlers] at hhandler
    refine ⟨.message t, _, rfl, by simp [step, hcall, hhandler]; rfl, ?_⟩
    simp [dangles, hhandler, hover]
  · rw [← hsame.onConnect] at hconnect
    refine ⟨.connected, _, ?_, by simp [step, hcall, hconnect]; rfl, ?_⟩
    · simp [fromClient, hconnect, hsame.client, hclient]
    · simp [dangles, hconnect, workerIsOver, hsame.worker, hended]

/-- Where a step that the condition leaves out leads, a handler can be called too late. -/
theorem leads_of_not_tidy (howned : s.Owned) (hstep : s.step a = some s') (htidy : s.tidy a = false) :
    Runs.Leads step (fun s a => s.fromClient a = true) s' Dangling := by
  have hhooked (h : s.isUnhooked = false) :
      s.client = some s.run ∧ s.onConnectHandler = some s.run := by
    simpa [isUnhooked] using h
  cases a with
  | worker outcome =>
      change s.works outcome = some s' at hstep
      cases hpc : s.worker with
      | cancelling rest =>
          have hclient : s.client = some s.run := howned.client (by rw [hpc]; rfl)
          obtain ⟨hnot, hquit⟩ : ¬ (rest ≠ [] ∧ outcome = .ok) ∧ s.isQuit = false := by
            simpa [tidy, hpc] using htidy
          have hleft : ∃ t, s.subscribing t = some s.run ∨ s.handlers t = some s.run := by
            by_contra hnone
            push Not at hnone
            simp [isQuit_iff.mpr hnone] at hquit
          have hthrows : s.throws .caught = s' := by
            cases rest with
            | nil => simpa [works, hpc] using hstep
            | cons t rest =>
                cases outcome with
                | ok => simp at hnot
                | threw => simpa [works, hpc, orThrows] using hstep
          subst hthrows
          exact leads_to_dangling rfl (by simp [throws, goto]) rfl hclient (.inl hleft)
      | caught =>
          obtain ⟨hignored, hunhooked⟩ : s.onError = false ∧ s.isUnhooked = false := by
            simpa [tidy, hpc] using htidy
          obtain ⟨hclient, hconnect⟩ := hhooked hunhooked
          obtain rfl : s.goto .returned = s' := by simpa [works, hpc, hignored] using hstep
          exact leads_to_dangling rfl (by simp [goto]) rfl hclient (.inr ⟨rfl, hconnect⟩)
      | inOnError =>
          obtain ⟨hclient, hconnect⟩ := hhooked (by simpa [tidy, hpc] using htidy)
          cases outcome with
          | ok =>
              obtain rfl : s.goto .returned = s' := by simpa [works, hpc, orThrows] using hstep
              exact leads_to_dangling rfl (by simp [goto]) rfl hclient (.inr ⟨rfl, hconnect⟩)
          | threw =>
              obtain rfl : s.throws .escaped = s' := by simpa [works, hpc, orThrows] using hstep
              exact leads_to_dangling rfl (by simp [throws, goto]) rfl hclient (.inr ⟨rfl, hconnect⟩)
      | _ => simp [tidy, hpc] at htidy
  | _ => cases htidy

/-- In a run that leaves nothing behind no handler is called too late; and every step that the
condition leaves out leads to a state from which one can be. -/
theorem handlers_in_time_while_tidy
    (h : Runs.Reachable step (fun s a => s.fromClient a = true ∧ s.tidy a = true) init s) :
    (∀ a, s.fromClient a = true → s.dangles a = false) ∧
      ∀ a s', s.step a = some s' → s.tidy a = false →
        Runs.Leads step (fun s a => s.fromClient a = true) s' Dangling :=
  ⟨fun _ => (kept_of_reachable h).not_dangles, fun _ _ hstep htidy =>
    leads_of_not_tidy (owned_of_reachable (h.mono fun _ _ _ => trivial)) hstep htidy⟩

theorem handlers_in_time_while_tidy_success :
    ∃ s : Imp, s.worker = .returned ∧ s.isProvisioned = true ∧
      ∀ a, s.fromClient a = true → s.dangles a = false := by
  have hrun : ∃ s, Runs.Reachable step (fun s a => s.fromClient a = true ∧ s.tidy a = true) init s ∧
      s.worker = .returned ∧ s.isProvisioned = true :=
    Runs.exists_reachable
      (List.flatten [Action.connects, Action.createsKeys, Action.asksToRegister,
        Action.isRegistered, Action.works 2])
      (by decide +kernel)
  obtain ⟨s, hreach, hended, hprovisioned⟩ := hrun
  exact ⟨s, hended, hprovisioned, (handlers_in_time_while_tidy hreach).1⟩

/-- The second `subscribe` throws, and then the first subscription is answered. -/
theorem answer_comes_too_late :
    ¬ ∀ s, Runs.Reachable step (fun s a => s.fromClient a = true) init s →
      ∀ a s', s.fromClient a = true → s.step a = some s' → s.dangles a = false := by
  intro hall
  have hrun : ∃ s, Runs.Reachable step (fun s a => s.fromClient a = true) init s ∧
      s.fromClient (.subscribed .keysAccepted true) = true ∧
      s.dangles (.subscribed .keysAccepted true) = true ∧
      (s.step (.subscribed .keysAccepted true)).isSome = true :=
    Runs.exists_reachable
      (List.flatten [Action.connects, Action.works 2, [.worker .threw], Action.works 2,
        [.worker .threw], Action.works 1])
      (by decide +kernel)
  obtain ⟨s, hreach, hclient, hdangles, henabled⟩ := hrun
  obtain ⟨s', hstep⟩ := Option.isSome_iff_exists.mp henabled
  have hnot := hall s hreach _ s' hclient hstep
  simp [hdangles] at hnot

end Imp

end Shapeware.AwsFleetProv
