import Shapeware.AwsFleetProv.Steps
import Shapeware.Library.History

/-!
# Whether provisioning can be tried again

`create` throws as long as there is a client. The paths of `worker` that throw nothing end with
`destroy`; an exception goes past it.
-/

namespace Shapeware.AwsFleetProv

open History

variable {trace : List Event} {e : Event}

/-- Nothing was thrown after the client was created. -/
def Clean (trace : List Event) : Prop :=
  Always (fun before e => e = .threw → .created ∉ before) trace

@[simp] theorem clean_append (he : e ≠ .threw) : Clean (trace ++ [e]) ↔ Clean trace := by
  simp [Clean, always_append_singleton, he]

@[simp] theorem clean_append_threw :
    Clean (trace ++ [.threw]) ↔ Clean trace ∧ .created ∉ trace := by
  simp [Clean, always_append_singleton]

/-- Whether the client was created, whether nothing was thrown since, and whether the client is
there, at each point of `worker`. -/
def Release (created clean holds : Prop) : WorkerPc → Prop
  | .lockWork | .testCertFile | .testKeyFile | .createClient => ¬ created ∧ clean ∧ ¬ holds
  | .cancelling _ | .cancelErases .. => created ∧ ¬ clean ∧ holds
  | .caught | .inOnError => ¬ created ∧ clean ∧ ¬ holds ∨ created ∧ ¬ clean ∧ holds
  | .returned | .escaped => ¬ holds ↔ clean
  | _ => created ∧ clean ∧ holds

namespace Imp

variable {s s' : Imp} {a : Action} {pc pc' : WorkerPc}

structure Released (s : Imp) : Prop where
  older : ∀ q, s.client = some q → q ≤ s.run
  release : Release (.created ∈ s.trace) (Clean s.trace) (s.client = some s.run) s.worker

theorem Goes.release {created clean holds : Prop} (hgoes : s.Goes pc pc')
    (h : Release created clean holds pc) : Release created clean holds pc' := by
  cases hgoes with
  | ignores hhandler | onErrorReturns =>
      obtain ⟨-, hclean, hholds⟩ | ⟨-, hclean, hholds⟩ := h
      · exact iff_of_true hholds hclean
      · exact iff_of_false (not_not.mpr hholds) hclean
  | _ => exact h

theorem ThrowsTo.release {holds : Prop} (hthrows : s.ThrowsTo pc pc')
    (h : Release (.created ∈ trace) (Clean trace) holds pc) :
    Release (.created ∈ trace ++ [.threw]) (Clean (trace ++ [.threw])) holds pc' := by
  cases hthrows <;> simp [Release] at h ⊢ <;> tauto

namespace Released

theorem init : Imp.init.Released where
  older := by simp [Imp.init]
  release := by simp [Imp.init, Release, Clean, always_nil]

theorem quiet (h : s.Released) (hrun : s'.run = s.run) (hclient : s'.client = s.client)
    (htrace : s'.trace = s.trace ∨ ∃ e, s'.trace = s.trace ++ [e] ∧ e ≠ .threw ∧ e ≠ .created)
    (hrelease : ∀ created clean holds, Release created clean holds s.worker →
      Release created clean holds s'.worker) : s'.Released where
  older := by
    rw [hrun, hclient]
    exact h.older
  release := by
    rw [hrun, hclient]
    obtain htrace | ⟨e, htrace, hthrew, hcreated⟩ := htrace
    · rw [htrace]
      exact hrelease _ _ _ h.release
    · rw [htrace, clean_append hthrew]
      simpa [Ne.symm hcreated] using hrelease _ _ _ h.release

theorem answers {run : Nat} {p : Promise} {value : Bool} (h : s.Released) :
    (s.answers run p value).Released := by
  unfold Imp.answers
  split_ifs
  · exact h.quiet rfl rfl (.inr ⟨_, rfl, by simp, by simp⟩) fun _ _ _ => id
  · exact h

theorem works (h : s.Released) (hworks : s.Works s') : s'.Released := by
  have hrelease := h.release
  cases hworks with
  | goes hpc hgoes => exact h.quiet rfl rfl (.inl rfl) fun _ _ _ => hgoes.release ∘ (hpc ▸ id)
  | throws hpc hthrows =>
      rw [hpc] at hrelease
      exact ⟨h.older, hthrows.release hrelease⟩
  | creates hpc hclient =>
      rw [hpc] at hrelease
      refine ⟨?_, ?_⟩
      · rintro q hq
        exact (Option.some.inj hq).ge
      · exact ⟨List.mem_append_right _ (List.mem_singleton_self _),
          (clean_append (by simp)).mpr hrelease.2.1, rfl⟩
  | cannotConnect hpc =>
      rw [hpc] at hrelease
      refine ⟨h.older, .inr ⟨List.mem_append_left _ hrelease.1, ?_, hrelease.2.2⟩⟩
      exact fun hclean => (clean_append_threw.mp hclean).2 hrelease.1
  | connects hpc | storesHandler hpc | readsToken hpc | readsCertificateId hpc | erasesHandler hpc
  | cancelErases hpc | callsNobody hpc =>
      exact h.quiet rfl rfl (.inl rfl) fun _ _ _ => by rw [hpc]; exact id
  | publishes hpc | callsOnProvisioned hpc | callsOnError hpc | catches hpc =>
      exact h.quiet rfl rfl (.inr ⟨_, rfl, by simp, by simp⟩) fun _ _ _ => by rw [hpc]; exact id
  | destroys hpc =>
      rw [hpc] at hrelease
      exact ⟨nofun, iff_of_true nofun hrelease.2.1⟩

theorem handles {source : Source} {op : MessageOp} (h : s.Released) :
    (s.handles source op).Released := by
  cases op with
  | setValue r accepted => exact h.answers
  | _ => exact h.quiet rfl rfl (.inl rfl) fun _ _ _ => id

theorem step (h : s.Released) (hsteps : s.Steps a s') : s'.Released := by
  cases hsteps with
  | works hworks => exact h.works hworks
  | wakes hpc => exact h.quiet rfl rfl (.inl rfl) fun _ _ _ => by rw [hpc]; exact id
  | stays => exact h
  | registers | callsOnConnect | callsOnMessage | onConnectReturns | onMessageReturns
  | onMessageThrows | activates | deactivates =>
      exact h.quiet rfl rfl (.inl rfl) fun _ _ _ => id
  | startsWorker =>
      refine ⟨fun q hq => (h.older q hq).trans (Nat.le_succ _), by simp [startsWorker],
        always_nil, fun hclient => ?_⟩
      exact absurd (h.older _ hclient) (Nat.not_succ_le_self _)
  | stops => exact ⟨nofun, iff_of_true nofun always_nil⟩
  | answersSubscribe | answersSend =>
      exact answers (h.quiet rfl rfl (.inl rfl) fun _ _ _ => id)
  | setsConnected =>
      unfold Imp.wakes
      split
      case h_1 hpc => exact h.quiet rfl rfl (.inl rfl) fun _ _ _ => by rw [hpc]; exact id
      case h_2 => exact h.quiet rfl rfl (.inl rfl) fun _ _ _ => id
  | @handles source op =>
      have hhandled : (s.handles source op).Released := h.handles
      exact hhandled.quiet rfl rfl (.inl rfl) fun _ _ _ => id

end Released

theorem released_of_reachable (h : Runs.Reachable step (fun _ _ => True) init s) : s.Released :=
  h.invariant Released .init fun _ _ _ hs _ hstep => hs.step (step_cases hstep)

/-- When `worker` has ended, the client that it created is destroyed exactly if nothing was thrown
after `create`. -/
theorem client_destroyed_iff_clean (h : Runs.Reachable step (fun _ _ => True) init s)
    (hended : s.worker.hasEnded = true) : s.client ≠ some s.run ↔ Clean s.trace := by
  have hrelease := (released_of_reachable h).release
  cases hpc : s.worker with
  | returned | escaped => rwa [hpc] at hrelease
  | _ => simp [hpc, WorkerPc.hasEnded] at hended

theorem client_destroyed_iff_clean_success :
    ∃ s : Imp, s.client = none ∧ s.run = 1 ∧ (s.client ≠ some s.run ↔ Clean s.trace) := by
  have hrun : ∃ s, Runs.Reachable step (fun _ _ => True) init s ∧
      s.worker.hasEnded = true ∧ s.client = none ∧ s.run = 1 :=
    Runs.exists_reachable
      (List.flatten [[.launchProvisioning true true], Action.connects, Action.createsKeys,
        Action.asksToRegister, Action.isRegistered, Action.works 3])
      (by decide +kernel)
  obtain ⟨s, hreach, hended, hclient, hnumber⟩ := hrun
  exact ⟨s, hclient, hnumber, client_destroyed_iff_clean hreach hended⟩

/-- A refused subscription is thrown past `destroy`, and `worker` returns with its client. -/
theorem refused_subscription_leaks_client :
    ¬ ∀ s, Runs.Reachable step (fun _ _ => True) init s →
      s.worker.hasEnded = true → s.client ≠ some s.run := by
  refine Runs.not_forall_reachable
    (List.flatten [[.launchProvisioning true true], Action.connects, Action.works 4,
      [.subscribed .keysAccepted false], Action.works 13]) ?_
  decide +kernel

end Imp

end Shapeware.AwsFleetProv
