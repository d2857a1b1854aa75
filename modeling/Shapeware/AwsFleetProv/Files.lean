import Shapeware.AwsFleetProv.Order
import Shapeware.AwsFleetProv.Subscriptions

/-!
# The official files

`activate` takes the four files for the result of a provisioning as soon as they exist, although a
run writes them before it knows that it is going to succeed, and a message that is not handled to its
end leaves them empty.
-/

namespace Shapeware.AwsFleetProv

open History

/-- The files that are written before an accepted response. -/
def filesOf : Request → List OfficialFile
  | .keys => [.certificates, .certificatePem, .privatePem]
  | .register => [.provision]

theorem mem_filesOf (f : OfficialFile) : ∃ r, f ∈ filesOf r := by
  cases f with
  | provision => exact ⟨.register, by decide⟩
  | _ => exact ⟨.keys, by decide⟩

theorem open_before_close {t : Topic} {f : OfficialFile} (h : .close f ∈ onMessage t) :
    .open f ∈ (onMessage t).takeWhile (· ≠ .close f) := by
  revert h
  cases t <;> cases f <;> decide

theorem open_before_setValue {t : Topic} {r : Request} {f : OfficialFile}
    (h : .setValue r true ∈ onMessage t) (hf : f ∈ filesOf r) :
    .open f ∈ (onMessage t).takeWhile (· ≠ .setValue r true) := by
  revert h hf
  cases t <;> cases r <;> cases f <;> decide

theorem open_once {t : Topic} {f : OfficialFile} {rest : List MessageOp}
    (h : .open f :: rest <:+ onMessage t) : .open f ∉ rest :=
  of_suffix (P := fun op rest => op = .open f → .open f ∉ rest)
    (by cases t <;> cases f <;> decide) h rfl

theorem opened_before_close {t : Topic} {f : OfficialFile} {rest : List MessageOp}
    (h : .close f :: rest <:+ onMessage t) : .open f ∈ onMessage t ∧ .open f ∉ rest :=
  of_suffix (P := fun op rest => op = .close f → .open f ∈ onMessage t ∧ .open f ∉ rest)
    (by cases t <;> cases f <;> decide) h rfl

theorem close_after_open {t : Topic} {f : OfficialFile} {rest : List MessageOp}
    (h : .open f :: rest <:+ onMessage t) : .close f ∈ rest :=
  of_suffix (P := fun op rest => op = .open f → .close f ∈ rest)
    (by cases t <;> cases f <;> decide) h rfl

theorem close_once {t : Topic} {f : OfficialFile} {rest : List MessageOp}
    (h : .close f :: rest <:+ onMessage t) : .close f ∉ rest :=
  of_suffix (P := fun op rest => op = .close f → .close f ∉ rest)
    (by cases t <;> cases f <;> decide) h rfl

namespace WorkerPc

/-- `m_onProvisioned` can have been called. -/
def hasReported : WorkerPc → Bool
  | .inHandler _ | .disconnect | .destroy => true
  | .caught | .inOnError | .returned | .escaped => true
  | _ => false

end WorkerPc

namespace Imp

variable {s s' : Imp} {a : Action} {pc pc' : WorkerPc} {run : Nat} {f : OfficialFile}

/-- A message of the run was the last to open the file. -/
def OpenedBy (s : Imp) (run : Nat) (f : OfficialFile) : Prop :=
  ∃ file, s.files f = some file ∧ file.source.run = run

/-- A message of the run was the last to open the file, and it has written it. -/
def WrittenBy (s : Imp) (run : Nat) (f : OfficialFile) : Prop :=
  ∃ source : Source, s.files f = some ⟨source, true⟩ ∧ source.run = run

/-! ### A run that has succeeded is over -/

theorem Goes.hasReported (hgoes : s.Goes pc pc') (h : pc.hasReported = true) :
    pc'.hasReported = true := by
  cases hgoes <;> first | rfl | cases h

theorem ThrowsTo.hasReported (hthrows : s.ThrowsTo pc pc') (h : pc.hasReported = true) :
    pc'.hasReported = true := by
  cases hthrows <;> first | rfl | cases h

/-- The run has called `m_onProvisioned`, and no message of it can come any more. -/
structure Over (s : Imp) (run : Nat) : Prop where
  past : run < s.run ∨ run = s.run ∧ s.worker.hasReported = true
  handlers : ∀ t, s.handlers t ≠ some run
  message : ∀ source rest, s.callback = .onMessage source rest → source.run ≠ run

namespace Over

theorem moves (h : s.Over run) (hrun : s'.run = s.run) (hhandlers : s'.handlers = s.handlers)
    (hcallback : s'.callback = s.callback ∨ s'.callback.inMessage = false)
    (hpc : s.worker.hasReported = true → s'.worker.hasReported = true) : s'.Over run where
  past := by
    rw [hrun]
    exact h.past.imp id (And.imp_right hpc)
  handlers := by
    rw [hhandlers]
    exact h.handlers
  message := fun source rest hmessage =>
    h.message source rest (onMessage_of_moves hcallback hmessage)

theorem update {t : Topic} {run' : Option Nat} (h : s.Over run) (hrun : s'.run = s.run)
    (hhandlers : s'.handlers = Function.update s.handlers t run') (hnot : run' ≠ some run)
    (hcallback : s'.callback = s.callback)
    (hpc : s.worker.hasReported = true → s'.worker.hasReported = true) : s'.Over run where
  past := by
    rw [hrun]
    exact h.past.imp id (And.imp_right hpc)
  handlers := by
    rw [hhandlers]
    intro t'
    by_cases ht : t' = t
    · subst ht
      rwa [Function.update_self]
    · rw [Function.update_of_ne ht]
      exact h.handlers t'
  message := by
    rw [hcallback]
    exact h.message

theorem works (h : s.Over run) (hworks : s.Works s') : s'.Over run := by
  cases hworks with
  | goes hpc hgoes =>
      subst hpc
      exact h.moves rfl rfl (.inl rfl) hgoes.hasReported
  | throws hpc hthrows =>
      subst hpc
      exact h.moves rfl rfl (.inl rfl) hthrows.hasReported
  | storesHandler hpc =>
      refine h.update rfl rfl ?_ rfl (by simp [hpc, WorkerPc.hasReported])
      obtain hlt | ⟨-, hreported⟩ := h.past
      · simpa using hlt.ne'
      · simp [hpc, WorkerPc.hasReported] at hreported
  | erasesHandler hpc | cancelErases hpc =>
      exact h.update rfl rfl nofun rfl (by simp [hpc, WorkerPc.hasReported])
  | callsOnProvisioned | callsOnError | callsNobody | destroys | catches | cannotConnect =>
      exact h.moves rfl rfl (.inl rfl) fun _ => rfl
  | creates hpc | connects hpc | readsToken hpc | readsCertificateId hpc | publishes hpc =>
      exact h.moves rfl rfl (.inl rfl) (by simp [hpc, WorkerPc.hasReported])

theorem step (h : s.Over run) (hsteps : s.Steps a s') : s'.Over run := by
  cases hsteps with
  | works hworks => exact h.works hworks
  | wakes hpc => exact h.moves rfl rfl (.inl rfl) (by simp [hpc, WorkerPc.hasReported])
  | stays => exact h
  | registers | activates | deactivates => exact h.moves rfl rfl (.inl rfl) id
  | startsWorker =>
      refine ⟨.inl ?_, h.handlers, h.message⟩
      obtain hlt | ⟨rfl, -⟩ := h.past
      · exact Nat.lt_succ_of_lt hlt
      · exact Nat.lt_succ_self _
  | stops => exact ⟨h.past.imp id (And.imp_right fun _ => rfl), nofun, nofun⟩
  | callsOnConnect | onConnectReturns | onMessageReturns | onMessageThrows =>
      exact h.moves rfl rfl (.inr rfl) id
  | answersSubscribe | answersSend =>
      exact h.moves (by simp) (by simp) (.inl (by simp)) (by simp)
  | @callsOnMessage t run' hcall hhandler =>
      refine ⟨h.past, h.handlers, fun source rest hcallback => ?_⟩
      cases hcallback
      rintro rfl
      exact h.handlers t hhandler
  | setsConnected =>
      unfold Imp.wakes
      split
      case h_1 hpc => exact h.moves rfl rfl (.inr rfl) (by simp [hpc, WorkerPc.hasReported])
      case h_2 => exact h.moves rfl rfl (.inr rfl) id
  | handles hcallback =>
      refine ⟨by simpa using h.past, by simpa using h.handlers, fun source rest hcallback' => ?_⟩
      cases hcallback'
      exact h.message _ _ hcallback

end Over

/-- A run succeeds when it has no handler and no message left. -/
theorem Works.succeeds (howned : s.Owned) (hworks : s.Works s') :
    s'.provisionedRuns = s.provisionedRuns ∨
      s.worker = .report true ∧ s'.provisionedRuns = s.run :: s.provisionedRuns ∧
        s'.Over s.run := by
  cases hworks with
  | callsOnProvisioned hpc =>
      have hsubscribed := howned.subscribed
      rw [hpc] at hsubscribed
      obtain ⟨hhandlers, hmessage⟩ := hsubscribed
      refine .inr ⟨hpc, rfl, .inr ⟨rfl, rfl⟩, fun t hhandler => ?_, fun source rest hcallback => ?_⟩
      · exact absurd ((hhandlers t).symm.trans hhandler) (by simp)
      · change s.callback = _ at hcallback
        rw [hcallback] at hmessage
        cases hmessage
  | _ => exact .inl rfl

theorem Steps.succeeds (howned : s.Owned) (hsteps : s.Steps a s') :
    s'.provisionedRuns = s.provisionedRuns ∨
      s.worker = .report true ∧ s'.provisionedRuns = s.run :: s.provisionedRuns ∧
        s'.Over s.run := by
  cases hsteps with
  | works hworks => exact hworks.succeeds howned
  | setsConnected =>
      unfold Imp.wakes
      split <;> exact .inl rfl
  | answersSubscribe | answersSend =>
      unfold Imp.answers
      split_ifs <;> exact .inl rfl
  | @handles source op =>
      cases op with
      | setValue r accepted =>
          unfold Imp.handles Imp.answers
          split_ifs <;> exact .inl rfl
      | _ => exact .inl rfl
  | _ => exact .inl rfl

theorem over_of_reachable (h : Runs.Reachable step (fun _ _ => True) init s) :
    ∀ run ∈ s.provisionedRuns, s.Over run := by
  refine h.invariant_of_reachable (fun s => ∀ run ∈ s.provisionedRuns, s.Over run) (by simp [init])
    fun s a t hreach hover _ hstep run hrun => ?_
  have hsteps := step_cases hstep
  obtain hsame | ⟨-, hnew, hnewOver⟩ := hsteps.succeeds (owned_of_reachable hreach)
  · exact (hover run (hsame ▸ hrun)).step hsteps
  · rw [hnew] at hrun
    obtain rfl | hold := List.mem_cons.mp hrun
    · exact hnewOver
    · exact (hover run hold).step hsteps

/-! ### The files -/

structure Stored (s : Imp) : Prop where
  responded : ∀ r, s.promises (.responded r) = some true → ∀ f ∈ filesOf r, s.OpenedBy s.run f
  current : ∀ r, s.promises (.responded r) ≠ none → s.client = none ∨ s.client = some s.run
  all : ∀ run ∈ s.provisionedRuns, s.lastOpened = some run → ∀ f, s.OpenedBy run f
  last : ∀ run, s.lastOpened = some run → ∃ f, s.OpenedBy run f
  nothing : s.lastOpened = none → ∀ f, s.files f = none

namespace Stored

theorem init : Imp.init.Stored where
  responded := nofun
  current := fun _ h => absurd rfl h
  all := nofun
  last := nofun
  nothing := fun _ _ => rfl

theorem quiet (h : s.Stored) (hrun : s'.run = s.run)
    (hpromises : ∀ r, s'.promises (.responded r) = s.promises (.responded r))
    (hclient : s'.client = s.client ∨ s'.client = none ∨ s'.client = some s'.run)
    (hfiles : s'.files = s.files) (hlast : s'.lastOpened = s.lastOpened)
    (hruns : s'.provisionedRuns = s.provisionedRuns) : s'.Stored where
  responded := by
    simpa only [hpromises, OpenedBy, hrun, hfiles] using h.responded
  current := by
    intro r hr
    obtain hclient | hclient := hclient
    · rw [hclient, hrun]
      exact h.current r (hpromises r ▸ hr)
    · exact hclient
  all := by
    simpa only [hruns, hlast, OpenedBy, hfiles] using h.all
  last := by
    simpa only [hlast, OpenedBy, hfiles] using h.last
  nothing := by
    simpa only [hlast, hfiles] using h.nothing

theorem writes {source : Source} {written : Bool} (h : s.Stored) (hclient : s.client = some source.run)
    (hnot : source.run ∉ s.provisionedRuns) (hrun : s'.run = s.run)
    (hpromises : s'.promises = s.promises) (hclient' : s'.client = s.client)
    (hfiles : s'.files = Function.update s.files f (some ⟨source, written⟩))
    (hlast : s'.lastOpened = some source.run) (hruns : s'.provisionedRuns = s.provisionedRuns) :
    s'.Stored := by
  have hself : s'.OpenedBy source.run f := by
    rw [OpenedBy, hfiles]
    exact ⟨_, Function.update_self .., rfl⟩
  refine ⟨fun r hr f' hf' => ?_, ?_, fun run hmem hlast' => ?_, fun run hlast' => ?_,
    fun hnone => ?_⟩
  · rw [hpromises] at hr
    rw [hrun]
    by_cases hf : f' = f
    · subst hf
      obtain hnone | hsome := h.current r (by simp [hr])
      · exact absurd (hclient.symm.trans hnone) (by simp)
      · have hcurrent : source.run = s.run := Option.some.inj (hclient.symm.trans hsome)
        exact hcurrent ▸ hself
    · obtain ⟨file, hfile, hfrom⟩ := h.responded r hr f' hf'
      exact ⟨file, by rw [hfiles, Function.update_of_ne hf, hfile], hfrom⟩
  · rw [hpromises, hclient', hrun]
    exact h.current
  · obtain rfl := Option.some.inj (hlast.symm.trans hlast')
    exact absurd (hruns ▸ hmem) hnot
  · obtain rfl := Option.some.inj (hlast.symm.trans hlast')
    exact ⟨f, hself⟩
  · exact absurd (hlast.symm.trans hnone) (by simp)

theorem responds {run : Nat} {r : Request} {accepted : Bool} (h : s.Stored)
    (hclient : s.client = some run)
    (hfiles : accepted = true → ∀ f ∈ filesOf r, s.OpenedBy run f) :
    (s.answers run (.responded r) accepted).Stored := by
  unfold Imp.answers
  split_ifs with hrun
  · subst hrun
    refine ⟨fun r' hr' => ?_, fun _ _ => .inr hclient, h.all, h.last, h.nothing⟩
    by_cases hnone : s.promises (.responded r) = none
    · by_cases hr : r' = r
      · subst hr
        refine hfiles ?_
        simpa [setValue, hnone] using hr'
      · exact h.responded r' (by simpa [setValue, hnone, hr] using hr')
    · exact h.responded r' (by simpa [setValue, hnone] using hr')
  · exact h

theorem works (h : s.Stored) (hordered : s.Ordered) (hworks : s.Works s') : s'.Stored := by
  cases hworks with
  | creates => exact h.quiet rfl (fun _ => rfl) (.inr (.inr rfl)) rfl rfl rfl
  | destroys => exact h.quiet rfl (fun _ => rfl) (.inr (.inl rfl)) rfl rfl rfl
  | callsOnProvisioned hpc =>
      refine ⟨h.responded, h.current, fun run hmem hlast f => ?_, h.last, h.nothing⟩
      obtain rfl | hold := List.mem_cons.mp hmem
      · obtain ⟨r, hf⟩ := mem_filesOf f
        have hbehind := hordered.behind
        rw [hpc] at hbehind
        refine h.responded r ?_ f hf
        rw [hordered.results]
        exact hbehind (.check (.responded r)) (by cases r <;> decide)
      · exact h.all run hold hlast f
  | _ => exact h.quiet rfl (fun _ => rfl) (.inl rfl) rfl rfl rfl

theorem handles {source : Source} {op : MessageOp} {rest : List MessageOp} (h : s.Stored)
    (howned : s.Owned) (hprogress : s.InProgress)
    (hover : ∀ run ∈ s.provisionedRuns, s.Over run)
    (hcallback : s.callback = .onMessage source (op :: rest)) :
    (s.handles source op).Stored := by
  have hclient := howned.message _ _ hcallback
  have hnot : source.run ∉ s.provisionedRuns :=
    fun hmem => (hover _ hmem).message _ _ hcallback rfl
  obtain ⟨t, hdone⟩ := hprogress _ _ hcallback
  have hbefore := hdone.before
  cases op with
  | «open» f => exact h.writes hclient hnot rfl rfl rfl rfl rfl rfl
  | close f =>
      obtain ⟨-, hlast⟩ := hbefore _ (open_before_close hdone.head_mem)
      exact h.writes hclient hnot rfl rfl rfl rfl hlast rfl
  | setValue r accepted =>
      refine h.responds hclient ?_
      rintro rfl f hf
      obtain ⟨⟨written, hfile⟩, -⟩ := hbefore _ (open_before_setValue hdone.head_mem hf)
      exact ⟨_, hfile, rfl⟩
  | _ => exact h.quiet rfl (fun _ => rfl) (.inl rfl) rfl rfl rfl

theorem answers {run : Nat} {p : Promise} {value : Bool} (h : s.Stored)
    (hp : ∀ r, p ≠ .responded r) : (s.answers run p value).Stored := by
  unfold Imp.answers
  split_ifs
  · refine h.quiet rfl (fun r => ?_) (.inl rfl) rfl rfl rfl
    unfold setValue
    split_ifs
    · exact Function.update_of_ne (Ne.symm (hp r)) _ _
    · rfl
  · exact h

theorem step (h : s.Stored) (hordered : s.Ordered) (howned : s.Owned) (hprogress : s.InProgress)
    (hover : ∀ run ∈ s.provisionedRuns, s.Over run) (hsteps : s.Steps a s') : s'.Stored := by
  cases hsteps with
  | works hworks => exact h.works hordered hworks
  | startsWorker => exact ⟨nofun, fun _ hr => absurd rfl hr, h.all, h.last, h.nothing⟩
  | stops => exact ⟨nofun, fun _ hr => absurd rfl hr, h.all, h.last, h.nothing⟩
  | answersSubscribe | answersSend =>
      exact answers (h.quiet rfl (fun _ => rfl) (.inl rfl) rfl rfl rfl) (by simp)
  | setsConnected =>
      unfold Imp.wakes
      split <;> exact h.quiet rfl (fun _ => rfl) (.inl rfl) rfl rfl rfl
  | handles hcallback =>
      exact (h.handles howned hprogress hover hcallback).quiet rfl (fun _ => rfl) (.inl rfl)
        rfl rfl rfl
  | _ => exact h.quiet rfl (fun _ => rfl) (.inl rfl) rfl rfl rfl

end Stored

theorem stored_of_reachable (h : Runs.Reachable step (fun _ _ => True) init s) : s.Stored :=
  h.invariant_of_reachable Stored .init fun _ _ _ hreach hs _ hstep =>
    hs.step (ordered_of_reachable hreach) (owned_of_reachable hreach)
      (inProgress_of_reachable hreach) (over_of_reachable hreach) (step_cases hstep)

/-! ### Torn files -/

theorem leavesOpen_onMessage {source : Source} {rest : List MessageOp} :
    (Callback.onMessage source rest).leavesOpen f = true ↔ .close f ∈ rest ∧ .open f ∉ rest := by
  simp [Callback.leavesOpen]

theorem leavesOpen_of_not_inMessage {callback : Callback} (h : callback.inMessage = false) :
    callback.leavesOpen f = false := by
  cases callback with
  | idle | onConnect => rfl
  | onMessage => cases h

theorem leavesOpen_cons {source : Source} {op : MessageOp} {rest : List MessageOp}
    (hopen : op ≠ .open f) (hclose : op ≠ .close f) :
    (Callback.onMessage source (op :: rest)).leavesOpen f =
      (Callback.onMessage source rest).leavesOpen f := by
  simp [Callback.leavesOpen, hopen.symm, hclose.symm]

/-- The files that are torn, or are as long as their handler goes no further, are those that were
opened and not written. -/
structure Tears (s : Imp) : Prop where
  unwritten : ∀ f, s.tornHere f = true ↔ ∃ source, s.files f = some ⟨source, false⟩
  apart : ∀ f, s.callback.leavesOpen f = true → s.torn f = false

namespace Tears

theorem init : Imp.init.Tears where
  unwritten f := by simp [Imp.init, tornHere, Callback.leavesOpen]
  apart f h := rfl

theorem quiet (h : s.Tears) (hfiles : s'.files = s.files) (htorn : s'.torn = s.torn)
    (hleaves : ∀ f, s'.callback.leavesOpen f = s.callback.leavesOpen f) : s'.Tears where
  unwritten f := by
    rw [tornHere, htorn, hleaves, hfiles]
    exact h.unwritten f
  apart f hf := by
    rw [htorn]
    exact h.apart f (hleaves f ▸ hf)

/-- The handler is left where it is. -/
theorem leaves (h : s.Tears) (hfiles : s'.files = s.files) (htorn : s'.torn = s.tornHere)
    (hcallback : s'.callback = .idle) : s'.Tears where
  unwritten f := by
    rw [tornHere, htorn, hcallback, hfiles, Callback.leavesOpen, Bool.or_false]
    exact h.unwritten f
  apart f hf := by simp [hcallback, Callback.leavesOpen] at hf

/-- Only one file is opened or closed at a time. -/
theorem moves (h : s.Tears) (hothers : ∀ f', f' ≠ f → s'.torn f' = s.torn f' ∧
      s'.callback.leavesOpen f' = s.callback.leavesOpen f' ∧ s'.files f' = s.files f')
    (htorn : s'.torn f = false)
    (hfile : s'.callback.leavesOpen f = true ↔ ∃ source, s'.files f = some ⟨source, false⟩) :
    s'.Tears where
  unwritten f' := by
    by_cases hf : f' = f
    · subst hf
      rw [tornHere, htorn, Bool.false_or]
      exact hfile
    · obtain ⟨htorn', hleaves, hfile'⟩ := hothers f' hf
      rw [tornHere, htorn', hleaves, hfile']
      exact h.unwritten f'
  apart f' hleaves := by
    by_cases hf : f' = f
    · exact hf ▸ htorn
    · obtain ⟨htorn', hleaves', -⟩ := hothers f' hf
      exact htorn'.trans (h.apart f' (hleaves' ▸ hleaves))

theorem handles {source : Source} {op : MessageOp} {rest : List MessageOp} (h : s.Tears)
    (hprogress : s.InProgress) (hcallback : s.callback = .onMessage source (op :: rest)) :
    ({ s.handles source op with callback := .onMessage source rest } : Imp).Tears := by
  obtain ⟨t, hdone⟩ := hprogress _ _ hcallback
  have hsuffix := hdone.suffix
  have hleaves {f : OfficialFile} (hopen : op ≠ .open f) (hclose : op ≠ .close f) :
      (Callback.onMessage source rest).leavesOpen f = s.callback.leavesOpen f := by
    rw [hcallback, leavesOpen_cons hopen hclose]
  cases op with
  | «open» f =>
      refine h.moves (f := f) (fun f' hf => ⟨?_, hleaves ?_ nofun, ?_⟩) (Function.update_self ..) ?_
      · exact Function.update_of_ne hf ..
      · exact fun heq => hf (MessageOp.open.inj heq).symm
      · exact Function.update_of_ne hf ..
      · refine iff_of_true ?_ ⟨source, Function.update_self ..⟩
        exact leavesOpen_onMessage.mpr ⟨close_after_open hsuffix, open_once hsuffix⟩
  | close f =>
      have hopened : s.callback.leavesOpen f = true := by
        rw [hcallback, leavesOpen_onMessage]
        exact ⟨List.mem_cons_self, by simpa using (opened_before_close hsuffix).2⟩
      refine h.moves (f := f) (fun f' hf => ⟨rfl, hleaves nofun ?_, ?_⟩) (h.apart f hopened) ?_
      · exact fun heq => hf (MessageOp.close.inj heq).symm
      · exact Function.update_of_ne hf ..
      · refine iff_of_false (fun hopen => ?_) ?_
        · exact close_once hsuffix (leavesOpen_onMessage.mp hopen).1
        · rintro ⟨source', hfile⟩
          have hwritten := (Function.update_self f _ s.files).symm.trans hfile
          cases hwritten
  | setValue r accepted =>
      refine h.quiet ?_ ?_ fun f => hleaves nofun nofun
      · exact answers_files
      · exact answers_torn
  | _ => exact h.quiet rfl rfl fun f => hleaves nofun nofun

theorem step (h : s.Tears) (hprogress : s.InProgress) (hsteps : s.Steps a s') : s'.Tears := by
  have hidle {callback callback' : Callback} (hbefore : callback.inMessage = false)
      (hafter : callback'.inMessage = false) (f : OfficialFile) :
      callback'.leavesOpen f = callback.leavesOpen f := by
    rw [leavesOpen_of_not_inMessage hbefore, leavesOpen_of_not_inMessage hafter]
  cases hsteps with
  | works hworks =>
      obtain ⟨hcallback, hfiles, -⟩ := hworks.unchanged
      exact h.quiet hfiles hworks.torn fun f => by rw [hcallback]
  | wakes | stays | registers | startsWorker | activates | deactivates =>
      exact h.quiet rfl rfl fun _ => rfl
  | stops | onMessageThrows => exact h.leaves rfl rfl rfl
  | callsOnConnect hcall =>
      exact h.quiet rfl rfl (hidle (congrArg Callback.inMessage hcall.2) rfl)
  | onConnectReturns hcallback => exact h.quiet rfl rfl (hidle (by rw [hcallback]; rfl) rfl)
  | onMessageReturns hcallback =>
      refine h.quiet rfl rfl fun f => ?_
      simp [hcallback, Callback.leavesOpen]
  | setsConnected hcallback =>
      unfold Imp.wakes
      split <;> exact h.quiet rfl rfl (hidle (by rw [hcallback]; rfl) rfl)
  | answersSubscribe | answersSend =>
      exact h.quiet (by simp) (by simp) fun f => by simp
  | @callsOnMessage t run hcall =>
      refine h.quiet rfl rfl fun f => ?_
      have hnone : s.callback.leavesOpen f = false := by rw [hcall.2]; rfl
      rw [hnone, ← Bool.not_eq_true, leavesOpen_onMessage]
      exact fun hopen => hopen.2 (List.takeWhile_subset _ (open_before_close hopen.1))
  | handles hcallback => exact h.handles hprogress hcallback

end Tears

theorem tears_of_reachable (h : Runs.Reachable step (fun _ _ => True) init s) : s.Tears :=
  h.invariant_of_reachable Tears .init fun _ _ _ hreach hs _ hstep =>
    hs.step (inProgress_of_reachable hreach) (step_cases hstep)

/-! ### `activate` -/

/-- All official files are there, and one run that has called `m_onProvisioned` has written them. -/
def FromOneRun (s : Imp) : Prop := ∃ run ∈ s.provisionedRuns, ∀ f, s.WrittenBy run f

theorem isProvisioned_activates : s.activates.isProvisioned = true ↔ ∀ f, s.files f ≠ none := by
  simp only [activates, Bool.and_eq_true, Option.isSome_iff_ne_none, and_assoc]
  constructor
  · rintro ⟨hcertificates, hcertificatePem, hprivatePem, hprovision⟩ f
    cases f <;> assumption
  · intro hall
    exact ⟨hall _, hall _, hall _, hall _⟩

/-- A file that the message in progress has open was opened last by its run. -/
theorem lastOpened_of_leavesOpen (hprogress : s.InProgress) (hopen : s.callback.leavesOpen f = true) :
    ∃ source rest, s.callback = .onMessage source rest ∧ s.lastOpened = some source.run := by
  cases hcallback : s.callback with
  | idle | onConnect =>
      rw [hcallback] at hopen
      cases hopen
  | onMessage source rest =>
      obtain ⟨t, done, hscript, hdone⟩ := hprogress source rest hcallback
      rw [hcallback, leavesOpen_onMessage] at hopen
      have hclose : .close f ∈ AwsFleetProv.onMessage t := hscript ▸ List.mem_append_right _ hopen.1
      have hmem : .open f ∈ done ++ rest :=
        hscript ▸ List.takeWhile_subset _ (open_before_close hclose)
      have hlast := hdone (.open f) ((List.mem_append.mp hmem).resolve_right hopen.2)
      exact ⟨source, rest, rfl, hlast.2⟩

theorem eq_activates (h : s.step .activate = some s') : s' = s.activates := by
  rw [Imp.step] at h
  split_ifs at h
  exact (Option.some.inj h).symm

/-- `activate` is right about the files exactly if one of them is missing, or the last run that has
opened one is a run that has called `m_onProvisioned` and none of them is torn. -/
theorem activates_iff_last_run_provisioned (h : Runs.Reachable step (fun _ _ => True) init s)
    (hstep : s.step .activate = some s') :
    (s'.isProvisioned = true → s'.FromOneRun) ↔
      ((∀ f, s.files f ≠ none) →
        (∃ run ∈ s.provisionedRuns, s.lastOpened = some run) ∧ ∀ f, s.torn f = false) := by
  have hstored := stored_of_reachable h
  have htears := tears_of_reachable h
  obtain rfl := eq_activates hstep
  rw [isProvisioned_activates]
  refine forall_congr' fun hfiles => ⟨?_, ?_⟩
  · rintro ⟨run, hmem, hall⟩
    constructor
    · cases hlast : s.lastOpened with
      | none => exact absurd (hstored.nothing hlast .provision) (hfiles .provision)
      | some last =>
          obtain ⟨f, file, hfile, rfl⟩ := hstored.last last hlast
          obtain ⟨source, hfile', rfl⟩ := hall f
          obtain rfl : ⟨source, true⟩ = file := Option.some.inj (hfile'.symm.trans hfile)
          exact ⟨_, hmem, rfl⟩
    · intro f
      obtain ⟨source, hfile, -⟩ := hall f
      rw [← Bool.not_eq_true]
      intro htorn
      obtain ⟨source', hfile'⟩ := (htears.unwritten f).mp (by simp [tornHere, htorn])
      cases hfile.symm.trans hfile'
  · rintro ⟨⟨run, hmem, hlast⟩, htorn⟩
    refine ⟨run, hmem, fun f => ?_⟩
    obtain ⟨⟨source, written⟩, hfile, hrun⟩ := hstored.all run hmem hlast f
    cases written with
    | true => exact ⟨source, hfile, hrun⟩
    | false =>
        -- the message that has the file open would be of a run that is over
        have hopen : s.callback.leavesOpen f = true := by
          simpa [tornHere, htorn f] using (htears.unwritten f).mpr ⟨source, hfile⟩
        obtain ⟨source', rest, hcallback, hlast'⟩ :=
          lastOpened_of_leavesOpen (inProgress_of_reachable h) hopen
        obtain rfl := Option.some.inj (hlast'.symm.trans hlast)
        exact absurd rfl ((over_of_reachable h _ hmem).message _ _ hcallback)

theorem activates_iff_last_run_provisioned_success :
    ∃ s s' : Imp, s.step .activate = some s' ∧ s'.isProvisioned = true ∧
      ((s'.isProvisioned = true → s'.FromOneRun) ↔
        ((∀ f, s.files f ≠ none) →
          (∃ run ∈ s.provisionedRuns, s.lastOpened = some run) ∧ ∀ f, s.torn f = false)) := by
  have hrun : ∃ s, Runs.Reachable step (fun _ _ => True) init s ∧
      ∃ s' ∈ s.step .activate, s'.isProvisioned = true := by
    refine Runs.exists_reachable
      (List.flatten [[.launchProvisioning true true], Action.connects, Action.createsKeys,
        Action.asksToRegister, Action.isRegistered, Action.works 3]) ?_
    decide +kernel
  obtain ⟨s, hreach, s', hstep, hprovisioned⟩ := hrun
  exact ⟨s, s', hstep, hprovisioned, activates_iff_last_run_provisioned hreach hstep⟩

/-- A second run gets keys, and its registration is rejected. -/
theorem failed_run_mixes_files :
    ¬ ∀ s, Runs.Reachable step (fun _ _ => True) init s →
      ∀ s' ∈ s.step .activate, s'.isProvisioned = true → s'.FromOneRun := by
  intro hall
  have hrun : ∃ s, Runs.Reachable step (fun _ _ => True) init s ∧
      ∃ s' ∈ s.step .activate, s'.isProvisioned = true ∧
        s'.files .certificates = some ⟨⟨2, 2⟩, true⟩ ∧ s'.files .provision = some ⟨⟨1, 1⟩, true⟩ := by
    refine Runs.exists_reachable
      (List.flatten [[.launchProvisioning true true], Action.connects, Action.createsKeys,
        Action.asksToRegister, Action.isRegistered, Action.works 3, Action.connects,
        Action.createsKeys, Action.asksToRegister,
        [.sent .register true, .message .registerRejected], Action.goesOn 3, Action.works 15]) ?_
    decide +kernel
  obtain ⟨s, hreach, s', hstep, hprovisioned, hcertificates, hprovision⟩ := hrun
  obtain ⟨run, -, hfiles⟩ := hall s hreach s' hstep hprovisioned
  obtain ⟨source, hfile, rfl⟩ := hfiles .certificates
  obtain ⟨source', hfile', hrun⟩ := hfiles .provision
  obtain rfl := (File.mk.inj (Option.some.inj (hfile.symm.trans hcertificates))).1
  obtain rfl := (File.mk.inj (Option.some.inj (hfile'.symm.trans hprovision))).1
  cases hrun

end Imp

end Shapeware.AwsFleetProv
