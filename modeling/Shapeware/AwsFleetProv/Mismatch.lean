import Shapeware.AwsFleetProv.Credentials

/-!
# Credentials that were not registered

A step that is not consistent cannot be made good in the same run: the members for the request are
read once, and a message opens each of its files once.
-/

namespace Shapeware.AwsFleetProv

open History

theorem read_once {rest : List Op} (h : .readCertificateId :: rest <:+ makeProvisioning) :
    .readCertificateId ∉ rest :=
  of_suffix (P := fun op rest => op = .readCertificateId → .readCertificateId ∉ rest) (by decide) h
    rfl

/-- The handler of the accepted keys can throw only as long as it has not opened all files. -/
theorem throws_before_open {t : Topic} {op : MessageOp} {rest : List MessageOp}
    (h : op :: rest <:+ onMessage t) (hthrows : op.canThrow = true)
    (hopen : .open .privatePem ∈ onMessage t) : .open .privatePem ∈ op :: rest :=
  of_suffix (P := fun op rest => op.canThrow = true → .open .privatePem ∈ onMessage t →
    .open .privatePem ∈ op :: rest) (by cases t <;> decide) h hthrows hopen

namespace Imp

variable {s s' : Imp} {a : Action} {pc pc' : WorkerPc} {source : Source}

/-! ### The certificate id is read once -/

def Unread (unread : Prop) : WorkerPc → Prop
  | .provisioning rest => .readCertificateId ∈ rest → unread
  | .lockWork | .testCertFile | .testKeyFile | .createClient => unread
  | .setConnected | .setCallbacks | .connect | .wait _ => unread
  | _ => True

theorem Goes.unread {unread : Prop} (hgoes : s.Goes pc pc')
    (h : Unread unread pc) : Unread unread pc' := by
  cases hgoes with
  | isConnected => exact fun _ => h
  | passes => exact fun hread => h (List.mem_cons_of_mem _ hread)
  | locks | findsCertFile | findsKeyFile | setsConnected | setsCallbacks | waits => exact h
  | _ => trivial

theorem works_unread (h : Unread (s.registerDoc.certificateId = none) s.worker) (howned : s.Owned)
    (hworks : s.Works s') : Unread (s'.registerDoc.certificateId = none) s'.worker := by
  cases hworks with
  | goes hpc hgoes =>
      rw [hpc] at h
      exact hgoes.unread h
  | throws hpc hthrows => cases hthrows <;> trivial
  | creates hpc | connects hpc =>
      rw [hpc] at h
      exact h
  | storesHandler hpc | readsToken hpc | publishes hpc | erasesHandler hpc =>
      rw [hpc] at h
      exact fun hread => h (List.mem_cons_of_mem _ hread)
  | readsCertificateId hpc =>
      have hsubscribed := howned.subscribed
      rw [hpc] at hsubscribed
      exact fun hread => absurd hread (read_once hsubscribed.1)
  | _ => trivial

theorem step_unread (h : Unread (s.registerDoc.certificateId = none) s.worker) (howned : s.Owned)
    (hsteps : s.Steps a s') : Unread (s'.registerDoc.certificateId = none) s'.worker := by
  cases hsteps with
  | works hworks => exact works_unread h howned hworks
  | wakes hpc =>
      rw [hpc] at h
      exact h
  | startsWorker => rfl
  | stops => trivial
  | answersSubscribe | answersSend => simpa using h
  | setsConnected =>
      unfold Imp.wakes
      split
      case h_1 hpc =>
        rw [hpc] at h
        exact h
      case h_2 => exact h
  | handles => simpa using h
  | _ => exact h

theorem unread_of_reachable (h : Runs.Reachable step (fun _ _ => True) init s) :
    Unread (s.registerDoc.certificateId = none) s.worker :=
  h.invariant_of_reachable (fun s : Imp => Unread (s.registerDoc.certificateId = none) s.worker) trivial
    fun _ _ _ hreach hs _ hstep => step_unread hs (owned_of_reachable hreach) (step_cases hstep)

/-! ### A message opens a file once -/

/-- What the files have from the message in progress, it has opened. -/
def Opened (s : Imp) : Prop :=
  ∀ source rest, s.callback = .onMessage source rest → ∃ t, rest <:+ AwsFleetProv.onMessage t ∧
    ∀ f written, s.files f = some ⟨source, written⟩ →
      .open f ∈ AwsFleetProv.onMessage t ∧ .open f ∉ rest

theorem Opened.handles {op : MessageOp} {rest : List MessageOp} (h : s.Opened)
    (hcallback : s.callback = .onMessage source (op :: rest)) :
    ∃ t, rest <:+ AwsFleetProv.onMessage t ∧
      ∀ f written, op.writes source s.files f = some ⟨source, written⟩ →
        .open f ∈ AwsFleetProv.onMessage t ∧ .open f ∉ rest := by
  obtain ⟨t, hsuffix, hfiles⟩ := h source (op :: rest) hcallback
  refine ⟨t, (List.suffix_cons op rest).trans hsuffix, fun f written hfile => ?_⟩
  have hold (hfile : s.files f = some ⟨source, written⟩) :
      .open f ∈ AwsFleetProv.onMessage t ∧ .open f ∉ rest :=
    (hfiles f written hfile).imp id fun hnot hopen => hnot (List.mem_cons_of_mem op hopen)
  cases op with
  | «open» f' =>
      by_cases hf : f = f'
      · subst hf
        exact ⟨hsuffix.subset List.mem_cons_self, open_once hsuffix⟩
      · exact hold ((Function.update_of_ne hf _ s.files).symm.trans hfile)
  | close f' =>
      by_cases hf : f = f'
      · subst hf
        exact opened_before_close hsuffix
      · exact hold ((Function.update_of_ne hf _ s.files).symm.trans hfile)
  | _ => exact hold hfile

theorem Opened.quiet (h : s.Opened) (hfiles : s'.files = s.files)
    (hcallback : s'.callback = s.callback ∨ s'.callback.inMessage = false) : s'.Opened := by
  intro source rest hmessage
  rw [hfiles]
  exact h source rest (onMessage_of_moves hcallback hmessage)

theorem Opened.step (h : s.Opened) (hnumbered : s.Numbered) (hsteps : s.Steps a s') :
    s'.Opened := by
  cases hsteps with
  | works hworks => exact h.quiet hworks.unchanged.2.1 (.inl hworks.unchanged.1)
  | wakes | stays | registers | startsWorker | activates | deactivates =>
      exact h.quiet rfl (.inl rfl)
  | stops | callsOnConnect | onConnectReturns | onMessageReturns | onMessageThrows =>
      exact fun _ _ => nofun
  | setsConnected => exact fun _ _ => nofun
  | answersSubscribe | answersSend => exact h.quiet (by simp) (.inl (by simp))
  | @callsOnMessage t =>
      intro source rest hcallback
      cases hcallback
      refine ⟨t, List.suffix_rfl, fun f written hfile => ?_⟩
      exact absurd (hnumbered.files f _ hfile) (lt_irrefl _)
  | @handles source op rest hcallback =>
      intro source' rest' hcallback'
      cases hcallback'
      simpa using h.handles hcallback

theorem opened_of_reachable (h : Runs.Reachable step (fun _ _ => True) init s) : s.Opened :=
  h.invariant_of_reachable Opened (fun _ _ => nofun) fun _ _ _ hreach hs _ hstep =>
    hs.step (numbered_of_reachable hreach) (step_cases hstep)

/-- The message that all three files are from cannot throw any more. -/
theorem not_canThrow_of_fits {op : MessageOp} {rest : List MessageOp} (h : s.Opened)
    (hcallback : s.callback = .onMessage source (op :: rest))
    (hfile : s.files .privatePem = some ⟨source, true⟩) : op.canThrow = false := by
  obtain ⟨t, hsuffix, hfiles⟩ := h source _ hcallback
  obtain ⟨hopen, hnot⟩ := hfiles _ _ hfile
  exact eq_false_of_ne_true fun hthrows => hnot (throws_before_open hsuffix hthrows hopen)

/-! ### After a step that is not consistent -/

/-- The members for the request have been read, and do not fit. -/
def Doomed (fits : Prop) : WorkerPc → Prop
  | .provisioning rest => .readCertificateId ∉ rest ∧ ¬ fits
  | .report true | .inHandler true => ¬ fits
  | .lockWork | .testCertFile | .testKeyFile | .createClient => False
  | .setConnected | .setCallbacks | .connect | .wait _ => False
  | _ => True

theorem Doomed.imp {fits fits' : Prop} (h : Doomed fits pc) (himp : fits' → fits) :
    Doomed fits' pc := by
  cases pc with
  | provisioning rest => exact ⟨h.1, h.2 ∘ himp⟩
  | report connected | inHandler connected =>
      cases connected with
      | false => trivial
      | true => exact mt himp h
  | _ => exact h

theorem Goes.doomed {fits : Prop} (hgoes : s.Goes pc pc') (h : Doomed fits pc) :
    Doomed fits pc' := by
  cases hgoes with
  | passes => exact ⟨fun hread => h.1 (List.mem_cons_of_mem _ hread), h.2⟩
  | isProvisioned => exact h.2
  | cancels | handlerReturns | disconnects | ignores | onErrorReturns => trivial
  | _ => exact h.elim

theorem works_doomed (h : Doomed (s.Fits s.registerDoc) s.worker) (howned : s.Owned)
    (hworks : s.Works s') :
    Doomed (s'.Fits s'.registerDoc) s'.worker := by
  cases hworks with
  | goes hpc hgoes =>
      rw [hpc] at h
      exact hgoes.doomed h
  | throws hpc hthrows => cases hthrows <;> trivial
  | creates hpc | connects hpc =>
      rw [hpc] at h
      exact h.elim
  | storesHandler hpc | publishes hpc | erasesHandler hpc =>
      rw [hpc] at h
      exact ⟨fun hread => h.1 (List.mem_cons_of_mem _ hread), h.2⟩
  | readsToken hpc =>
      rw [hpc] at h
      have hsubscribed := howned.subscribed
      rw [hpc] at hsubscribed
      exact absurd (List.mem_cons_of_mem _ (certificateId_after_token hsubscribed.1)) h.1
  | readsCertificateId hpc =>
      rw [hpc] at h
      exact absurd List.mem_cons_self h.1
  | callsOnProvisioned hpc =>
      rw [hpc] at h
      exact h
  | _ => trivial

theorem eq_of_writes {source' : Source} {op : MessageOp} {f : OfficialFile} {written : Bool}
    (hne : source' ≠ source) (h : op.writes source' s.files f = some ⟨source, written⟩) :
    s.files f = some ⟨source, written⟩ := by
  have hother {w : Bool} (hsame : some (File.mk source' w) = some ⟨source, written⟩) : False :=
    hne (File.mk.inj (Option.some.inj hsame)).1
  cases op with
  | «open» f' | close f' =>
      by_cases hf : f = f'
      · subst hf
        exact (hother ((Function.update_self f _ s.files).symm.trans h)).elim
      · exact (Function.update_of_ne hf _ s.files).symm.trans h
  | _ => exact h

theorem fits_of_handles {source' : Source} {op : MessageOp} {rest : List MessageOp}
    (hcallback : s.callback = .onMessage source' (op :: rest))
    (hfits : ({ s.handles source' op with callback := .onMessage source' rest } : Imp).Fits
      (s.handles source' op).registerDoc) : s.Fits s.registerDoc := by
  obtain ⟨source, hdoc, hfiles⟩ := fits_iff.mp hfits
  refine fits_iff.mpr ⟨source, handles_registerDoc.symm.trans hdoc, fun f hf => ?_⟩
  have hfile := hfiles f hf
  by_cases hsource : source' = source
  · subst hsource
    rw [settledFiles_self rfl, handles_files] at hfile
    rwa [settledFiles_self hcallback]
  · rw [settledFiles_of_ne rfl hsource, handles_files] at hfile
    rw [settledFiles_of_ne hcallback hsource]
    exact eq_of_writes hsource hfile

theorem step_doomed (h : Doomed (s.Fits s.registerDoc) s.worker) (hnumbered : s.Numbered)
    (howned : s.Owned) (hopened : s.Opened) (ha : a ≠ .startWorker) (hsteps : s.Steps a s') :
    Doomed (s'.Fits s'.registerDoc) s'.worker := by
  cases hsteps with
  | works hworks => exact works_doomed h howned hworks
  | wakes hpc =>
      rw [hpc] at h
      exact h.elim
  | stays | registers | activates | deactivates => exact h
  | startsWorker => exact absurd rfl ha
  | stops => trivial
  | callsOnConnect hcall =>
      exact h.imp fun hfits =>
        hfits.of_not_inMessage rfl rfl rfl (congrArg Callback.inMessage hcall.2)
  | answersSubscribe | answersSend =>
      rw [answers_worker]
      exact h.imp fun hfits => hfits.of_settledFiles (by simp) (by simp [settledFiles])
  | @callsOnMessage t run hcall =>
      refine h.imp fun hfits => ?_
      obtain ⟨source, hdoc, hfiles⟩ := fits_iff.mp hfits
      have hnumber := hnumbered.registerDoc source (congrArg RegisterDoc.token hdoc)
      refine fits_iff.mpr ⟨source, hdoc, fun f hf => ?_⟩
      have hfile := hfiles f hf
      rw [settledFiles_of_ne rfl] at hfile
      · rwa [settledFiles_of_not_inMessage (congrArg Callback.inMessage hcall.2)]
      · rintro rfl
        exact absurd hnumber (lt_irrefl _)
  | setsConnected hcallback =>
      unfold Imp.wakes
      split
      case h_1 hpc =>
        rw [hpc] at h
        exact h.elim
      case h_2 =>
        exact h.imp fun hfits => hfits.of_not_inMessage rfl rfl rfl (by rw [hcallback]; rfl)
  | onConnectReturns hcallback =>
      exact h.imp fun hfits => hfits.of_not_inMessage rfl rfl rfl (by rw [hcallback]; rfl)
  | onMessageReturns hcallback =>
      exact h.imp fun hfits => hfits.of_settledFiles rfl fun source f => by
        simp [settledFiles, hcallback]
  | @handles source' op rest hcallback =>
      change Doomed _ (s.handles source' op).worker
      rw [handles_worker]
      exact h.imp (fits_of_handles hcallback)
  | @onMessageThrows source' op rest hcallback hthrows =>
      refine h.imp fun hfits => ?_
      obtain ⟨source, hdoc, hfiles⟩ := fits_iff.mp hfits
      rw [settledFiles_of_not_inMessage rfl] at hfiles
      refine fits_iff.mpr ⟨source, hdoc, fun f hf => ?_⟩
      rw [settledFiles_of_ne hcallback]
      · exact hfiles f hf
      · rintro rfl
        have hnot := not_canThrow_of_fits hopened hcallback (hfiles .privatePem (by decide))
        exact absurd (hthrows.symm.trans hnot) (by simp)

theorem read_doomed {outcome : Outcome} (howned : s.Owned)
    (hstep : s.step (.worker outcome) = some s')
    (hinconsistent : s.consistent (.worker outcome) = false) :
    Doomed (s'.Fits s'.registerDoc) s'.worker := by
  cases hpc : s.worker with
  | provisioning rest =>
      cases rest with
      | nil => simp [consistent, hpc] at hinconsistent
      | cons op rest =>
          cases op with
          | readCertificateId =>
              have hsubscribed := howned.subscribed
              rw [hpc] at hsubscribed
              have hnot : ¬ s.Fits { s.registerDoc with certificateId := s.certificateId } := by
                simpa [consistent, hpc] using hinconsistent
              rw [step, works, hpc] at hstep
              cases hstep
              exact ⟨read_once hsubscribed.1, hnot⟩
          | _ => simp [consistent, hpc] at hinconsistent
  | _ => simp [consistent, hpc] at hinconsistent

theorem inconsistent_callback {outcome : Outcome} (h : s.consistent (.callback outcome) = false) :
    ∃ rest source source' op rest', s.worker = .provisioning rest ∧
      s.registerDoc.certificateId = some source ∧
      s.callback = .onMessage source' (op :: rest') ∧
      (outcome = .ok ∧ source' ≠ source ∧ (∃ f ∈ filesOf .keys, op = .open f) ∨
        outcome = .threw ∧ source' = source) := by
  rw [consistent] at h
  split at h
  case h_1 rest source source' op rest' hpc hdoc hcallback =>
    refine ⟨rest, source, source', op, rest', hpc, hdoc, hcallback, ?_⟩
    cases outcome with
    | ok => exact .inl ⟨rfl, by simpa using h⟩
    | threw => exact .inr ⟨rfl, by simpa using h⟩
  case h_2 => cases h

theorem callback_doomed {outcome : Outcome}
    (hunread : Unread (s.registerDoc.certificateId = none) s.worker)
    (hopened : s.Opened) (hstep : s.step (.callback outcome) = some s')
    (hinconsistent : s.consistent (.callback outcome) = false) :
    Doomed (s'.Fits s'.registerDoc) s'.worker := by
  obtain ⟨rest, source, source', op, rest', hpc, hdoc, hcallback, hcase⟩ :=
    inconsistent_callback hinconsistent
  have hread : .readCertificateId ∉ rest := by
    intro hread
    rw [hpc, hdoc] at hunread
    exact absurd (hunread hread) (by simp)
  have hsame {source'' : Source} (h : s.registerDoc = ⟨some source'', some source''⟩) :
      source'' = source :=
    Option.some.inj ((congrArg RegisterDoc.certificateId h).symm.trans hdoc)
  obtain ⟨rfl, hne, f, hf, rfl⟩ | ⟨rfl, rfl⟩ := hcase
  · rw [step, callsBack, hcallback] at hstep
    cases hstep
    refine hpc ▸ ⟨hread, fun hfits => ?_⟩
    obtain ⟨source'', hdoc', hfiles⟩ := fits_iff.mp hfits
    obtain rfl := hsame hdoc'
    have hfile := hfiles f hf
    rw [settledFiles_of_ne rfl hne, handles_files] at hfile
    change Function.update s.files f (some ⟨source', false⟩) f = _ at hfile
    rw [Function.update_self] at hfile
    exact hne (File.mk.inj (Option.some.inj hfile)).1
  · rw [step, callsBack, hcallback] at hstep
    simp only at hstep
    split_ifs at hstep with hthrows
    cases hstep
    refine hpc ▸ ⟨hread, fun hfits => ?_⟩
    obtain ⟨source'', hdoc', hfiles⟩ := fits_iff.mp hfits
    obtain rfl := hsame hdoc'
    rw [settledFiles_of_not_inMessage rfl] at hfiles
    have hnot := not_canThrow_of_fits hopened hcallback (hfiles .privatePem (by decide))
    exact absurd (hthrows.symm.trans hnot) (by simp)

theorem doomed_of_inconsistent (hreach : Runs.Reachable step (fun _ _ => True) init s)
    (hstep : s.step a = some s') (hinconsistent : s.consistent a = false) :
    Doomed (s'.Fits s'.registerDoc) s'.worker := by
  cases a with
  | worker outcome => exact read_doomed (owned_of_reachable hreach) hstep hinconsistent
  | callback outcome =>
      exact callback_doomed (unread_of_reachable hreach) (opened_of_reachable hreach) hstep
        hinconsistent
  | _ => simp [consistent] at hinconsistent

theorem not_registered_of_doomed (h : Doomed (s.Fits s.registerDoc) s.worker) (howned : s.Owned)
    (hpc : s.worker = .inHandler true) : ¬ s.Registered := by
  intro hregistered
  have hsubscribed := howned.subscribed
  rw [hpc] at h hsubscribed
  obtain ⟨source, hdoc, hfiles⟩ := hregistered hpc
  refine h (fits_iff.mpr ⟨source, hdoc, ?_⟩)
  rwa [settledFiles_of_not_inMessage hsubscribed.2]

/-- In a run whose steps are consistent, the stored credentials are those that were registered; after
a step that is not, they are not if the run calls `m_onProvisioned`. -/
theorem registered_while_consistent
    (h : Runs.Reachable step (fun s a => s.consistent a = true) init s) :
    s.Registered ∧ ∀ a t u, s.step a = some t → s.consistent a = false →
      Runs.Reachable step (fun _ b => b ≠ .startWorker) t u → u.worker = .inHandler true →
        ¬ u.Registered := by
  have hreach : Runs.Reachable step (fun _ _ => True) init s := h.mono fun _ _ _ => trivial
  refine ⟨registered_of_fitting (fitting_of_reachable h) (owned_of_reachable hreach), ?_⟩
  intro a t u hstep hinconsistent hlater hpc
  have hdoomed : Runs.Reachable step (fun _ _ => True) init u ∧
      Doomed (u.Fits u.registerDoc) u.worker := by
    refine hlater.invariant (fun u => Runs.Reachable step (fun _ _ => True) init u ∧
      Doomed (u.Fits u.registerDoc) u.worker) ?_ ?_
    · exact ⟨hreach.tail a trivial hstep, doomed_of_inconsistent hreach hstep hinconsistent⟩
    · rintro v b w ⟨hv, hdoomed⟩ hb hw
      exact ⟨hv.tail b trivial hw, step_doomed hdoomed (numbered_of_reachable hv)
        (owned_of_reachable hv) (opened_of_reachable hv) hb (step_cases hw)⟩
  exact not_registered_of_doomed hdoomed.2 (owned_of_reachable hdoomed.1) hpc

theorem registered_while_consistent_success :
    ∃ s : Imp, s.worker = .inHandler true ∧ s.Registered := by
  have hrun : ∃ s, Runs.Reachable step (fun s a => s.consistent a = true) init s ∧
      s.worker = .inHandler true :=
    Runs.exists_reachable
      (List.flatten [[.launchProvisioning true true], Action.connects, Action.createsKeys,
        Action.asksToRegister, Action.isRegistered])
      (by decide +kernel)
  obtain ⟨s, hreach, hpc⟩ := hrun
  exact ⟨s, hpc, (registered_while_consistent hreach).1⟩

/-- A second message with accepted keys, after the request was put together. -/
theorem second_keys_not_registered :
    ¬ ∀ s, Runs.Reachable step (fun _ _ => True) init s → s.Registered := by
  intro hall
  have hrun : ∃ s, Runs.Reachable step (fun _ _ => True) init s ∧ s.worker = .inHandler true ∧
      s.registerDoc = ⟨some ⟨1, 0⟩, some ⟨1, 0⟩⟩ ∧ s.files .certificates = some ⟨⟨1, 1⟩, true⟩ :=
    Runs.exists_reachable
      (List.flatten [[.launchProvisioning true true], Action.connects, Action.createsKeys,
        Action.asksToRegister, [.message .keysAccepted], Action.goesOn 13, Action.isRegistered])
      (by decide +kernel)
  obtain ⟨s, hreach, hpc, hdoc, hcertificates⟩ := hrun
  obtain ⟨source, hsource, hfiles⟩ := hall s hreach hpc
  obtain rfl := Option.some.inj (congrArg RegisterDoc.token (hdoc.symm.trans hsource))
  have hsame := hcertificates.symm.trans (hfiles .certificates (by decide))
  cases hsame

end Imp

end Shapeware.AwsFleetProv
