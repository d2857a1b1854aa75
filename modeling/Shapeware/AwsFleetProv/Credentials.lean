import Shapeware.AwsFleetProv.Files

/-!
# The credentials and the registration

Every accepted message overwrites the three files and the two members for the request, one after the
other, and `makeProvisioning` reads the members at a time of its own. Which message the files are
from is known only when the message in progress has been handled to its end.
-/

namespace Shapeware.AwsFleetProv

open History

/-- What an operation of a message does to the files. -/
def MessageOp.writes (source : Source) (files : OfficialFile → Option File) :
    MessageOp → OfficialFile → Option File
  | .open f => Function.update files f (some ⟨source, false⟩)
  | .close f => Function.update files f (some ⟨source, true⟩)
  | _ => files

namespace Imp

variable {s s' : Imp} {a : Action} {pc pc' : WorkerPc} {source : Source}
  {doc : RegisterDoc}

@[simp] theorem handles_files {op : MessageOp} :
    (s.handles source op).files = op.writes source s.files := by
  cases op <;> first | rfl | exact answers_files

/-- The files as they are once the message, if it is in progress, has been handled to its end. -/
def settledFiles (s : Imp) (source : Source) : OfficialFile → Option File :=
  match s.callback with
  | .onMessage source' rest =>
    if source' = source then rest.foldl (MessageOp.writes source) s.files else s.files
  | _ => s.files

/-- The token and the certificate id of the request are from one message, and so are the files. -/
def Fits (s : Imp) (doc : RegisterDoc) : Prop :=
  match doc.token, doc.certificateId with
  | some token, some certificateId =>
    token = certificateId ∧ ∀ f ∈ filesOf .keys, s.settledFiles token f = some ⟨token, true⟩
  | _, _ => False

instance : Decidable (s.Fits doc) :=
  match doc with
  | ⟨some _, some _⟩ => inferInstanceAs (Decidable (_ ∧ _))
  | ⟨some _, none⟩ | ⟨none, _⟩ => inferInstanceAs (Decidable False)

theorem fits_iff : s.Fits doc ↔
    ∃ source, doc = ⟨some source, some source⟩ ∧
      ∀ f ∈ filesOf .keys, s.settledFiles source f = some ⟨source, true⟩ := by
  constructor
  · intro h
    match doc, h with
    | ⟨some token, some certificateId⟩, h =>
        obtain ⟨rfl, hfiles⟩ := h
        exact ⟨token, rfl, hfiles⟩
  · rintro ⟨source, rfl, hfiles⟩
    exact ⟨rfl, hfiles⟩

/-- When the certificate id is read, it fits to the token that was read before; and from then on no
other message opens one of the three files, nor does an exception leave the handler of the message
itself. -/
def consistent (s : Imp) : Action → Bool
  | .worker _ =>
    match s.worker with
    | .provisioning (.readCertificateId :: _) =>
      s.Fits { s.registerDoc with certificateId := s.certificateId }
    | _ => true
  | .callback outcome =>
    match s.worker, s.registerDoc.certificateId, s.callback with
    | .provisioning _, some source, .onMessage source' (op :: _) =>
      match outcome with
      | .ok => source' = source ∨ ∀ f ∈ filesOf .keys, op ≠ .open f
      | .threw => source' ≠ source
    | _, _, _ => true
  | _ => true

/-- When `m_onProvisioned` is called, the three files and the two members of the request are from
one message. -/
def Registered (s : Imp) : Prop :=
  s.worker = .inHandler true → ∃ source, s.registerDoc = ⟨some source, some source⟩ ∧
    ∀ f ∈ filesOf .keys, s.files f = some ⟨source, true⟩

/-! ### The numbers of the messages -/

structure Numbered (s : Imp) : Prop where
  files : ∀ f file, s.files f = some file → file.source.message < s.messages
  message : ∀ source rest, s.callback = .onMessage source rest → source.message < s.messages
  token : ∀ source, s.token = some source → source.message < s.messages
  registerDoc : ∀ source, s.registerDoc.token = some source → source.message < s.messages

namespace Numbered

theorem quiet (h : s.Numbered) (hfiles : s'.files = s.files) (hmessages : s'.messages = s.messages)
    (hcallback : s'.callback = s.callback ∨ s'.callback.inMessage = false)
    (htoken : s'.token = s.token ∨ s'.token = none)
    (hdoc : s'.registerDoc.token = s.registerDoc.token ∨ s'.registerDoc.token = none) :
    s'.Numbered where
  files := by
    rw [hfiles, hmessages]
    exact h.files
  token := by
    rw [hmessages]
    obtain htoken | htoken := htoken <;> rw [htoken]
    · exact h.token
    · nofun
  registerDoc := by
    rw [hmessages]
    obtain hdoc | hdoc := hdoc <;> rw [hdoc]
    · exact h.registerDoc
    · nofun
  message := by
    rw [hmessages]
    exact fun source rest hmessage => h.message source rest (onMessage_of_moves hcallback hmessage)

theorem writes {op : MessageOp} {files : OfficialFile → Option File} {n : Nat}
    (h : ∀ f file, files f = some file → file.source.message < n) (hsource : source.message < n) :
    ∀ f file, op.writes source files f = some file → file.source.message < n := by
  intro f file hfile
  cases op with
  | «open» f' | close f' =>
      by_cases hf : f = f'
      · subst hf
        obtain rfl := Option.some.inj ((Function.update_self f _ files).symm.trans hfile)
        exact hsource
      · exact h f file ((Function.update_of_ne hf _ files).symm.trans hfile)
  | _ => exact h f file hfile

theorem works (h : s.Numbered) (hworks : s.Works s') : s'.Numbered := by
  cases hworks with
  | readsToken => exact ⟨h.files, h.message, h.token, h.token⟩
  | _ => exact h.quiet rfl rfl (.inl rfl) (.inl rfl) (.inl rfl)

theorem handles {op : MessageOp} (h : s.Numbered) (hsource : source.message < s.messages) :
    (∀ other, (s.handles source op).token = some other → other.message < s.messages) := by
  intro other htoken
  cases op with
  | setToken =>
      obtain rfl := Option.some.inj htoken
      exact hsource
  | setValue r accepted =>
      refine h.token other (Eq.trans ?_ htoken)
      unfold Imp.handles Imp.answers
      split_ifs <;> rfl
  | _ => exact h.token other htoken

theorem step (h : s.Numbered) (hsteps : s.Steps a s') : s'.Numbered := by
  cases hsteps with
  | works hworks => exact h.works hworks
  | wakes | stays | registers | activates | deactivates =>
      exact h.quiet rfl rfl (.inl rfl) (.inl rfl) (.inl rfl)
  | startsWorker => exact h.quiet rfl rfl (.inl rfl) (.inl rfl) (.inr rfl)
  | stops => exact h.quiet rfl rfl (.inr rfl) (.inr rfl) (.inr rfl)
  | callsOnConnect | onConnectReturns | onMessageReturns | onMessageThrows =>
      exact h.quiet rfl rfl (.inr rfl) (.inl rfl) (.inl rfl)
  | setsConnected =>
      unfold Imp.wakes
      split <;> exact h.quiet rfl rfl (.inr rfl) (.inl rfl) (.inl rfl)
  | answersSubscribe | answersSend =>
      unfold Imp.answers
      split_ifs <;> exact h.quiet rfl rfl (.inl rfl) (.inl rfl) (.inl rfl)
  | callsOnMessage =>
      refine ⟨fun f file hfile => Nat.lt_succ_of_lt (h.files f file hfile),
        fun source rest hcallback => ?_,
        fun source htoken => Nat.lt_succ_of_lt (h.token source htoken),
        fun source hdoc => Nat.lt_succ_of_lt (h.registerDoc source hdoc)⟩
      cases hcallback
      exact Nat.lt_succ_self _
  | @handles source op rest hcallback =>
      have hsource := h.message _ _ hcallback
      refine ⟨?_, fun source' rest' hcallback' => ?_, ?_, ?_⟩
      · simpa using writes h.files hsource
      · cases hcallback'
        simpa using hsource
      · simpa using h.handles hsource
      · simpa using h.registerDoc

end Numbered

theorem numbered_of_reachable (h : Runs.Reachable step (fun _ _ => True) init s) : s.Numbered :=
  h.invariant Numbered ⟨nofun, nofun, nofun, nofun⟩ fun _ _ _ hs _ hstep => hs.step (step_cases hstep)

/-! ### While the steps are consistent -/

theorem certificateId_after_token {rest : List Op} (h : .readToken :: rest <:+ makeProvisioning) :
    .readCertificateId ∈ rest :=
  of_suffix (P := fun op rest => op = .readToken → .readCertificateId ∈ rest) (by decide) h rfl

/-- What the request must be like at each point of `worker`. -/
def Fitting (fits : Prop) : WorkerPc → Prop
  | .provisioning rest => .readCertificateId ∉ rest → fits
  | .report true | .inHandler true => fits
  | _ => True

theorem Goes.fitting {fits : Prop} (hgoes : s.Goes pc pc') (h : Fitting fits pc) :
    Fitting fits pc' := by
  cases hgoes with
  | isConnected => exact fun hread => absurd (by decide) hread
  | @passes op rest hop =>
      intro hread
      refine h (List.not_mem_cons_of_ne_of_not_mem ?_ hread)
      rintro rfl
      exact hop
  | isProvisioned => exact h List.not_mem_nil
  | _ => trivial

theorem settledFiles_of_not_inMessage (h : s.callback.inMessage = false) :
    s.settledFiles source = s.files := by
  unfold settledFiles
  split
  case h_1 hcallback =>
    rw [hcallback] at h
    cases h
  case h_2 => rfl

theorem Fits.of_settledFiles (h : s.Fits s.registerDoc) (hdoc : s'.registerDoc = s.registerDoc)
    (hsettled : ∀ source f, s'.settledFiles source f = s.settledFiles source f) :
    s'.Fits s'.registerDoc := by
  obtain ⟨source, hsource, hfiles⟩ := fits_iff.mp h
  exact fits_iff.mpr ⟨source, hdoc.trans hsource,
    fun f hf => (hsettled source f).trans (hfiles f hf)⟩

theorem Fits.of_not_inMessage (h : s.Fits s.registerDoc) (hdoc : s'.registerDoc = s.registerDoc)
    (hfiles : s'.files = s.files) (hcallback : s.callback.inMessage = false)
    (hcallback' : s'.callback.inMessage = false) : s'.Fits s'.registerDoc :=
  h.of_settledFiles hdoc fun source f => by
    rw [settledFiles_of_not_inMessage hcallback, settledFiles_of_not_inMessage hcallback', hfiles]

theorem works_fitting {outcome : Outcome} (h : Fitting (s.Fits s.registerDoc) s.worker)
    (howned : s.Owned) (hconsistent : s.consistent (.worker outcome) = true) (hworks : s.Works s') :
    Fitting (s'.Fits s'.registerDoc) s'.worker := by
  cases hworks with
  | goes hpc hgoes =>
      rw [hpc] at h
      exact hgoes.fitting h
  | throws hpc hthrows => cases hthrows <;> trivial
  | storesHandler hpc | publishes hpc | erasesHandler hpc =>
      rw [hpc] at h
      exact fun hread => h (List.not_mem_cons_of_ne_of_not_mem (by simp) hread)
  | readsToken hpc =>
      have hsubscribed := howned.subscribed
      rw [hpc] at hsubscribed
      exact fun hread => absurd (certificateId_after_token hsubscribed.1) hread
  | readsCertificateId hpc =>
      have hfits : s.Fits { s.registerDoc with certificateId := s.certificateId } := by
        simpa [consistent, hpc] using hconsistent
      exact fun _ => hfits
  | callsOnProvisioned hpc =>
      rw [hpc] at h
      exact h
  | _ => trivial

theorem Fitting.imp {fits fits' : Prop} (h : Fitting fits pc) (himp : fits → fits') :
    Fitting fits' pc := by
  cases pc with
  | provisioning rest => exact fun hread => himp (h hread)
  | report connected | inHandler connected =>
      cases connected with
      | false => trivial
      | true => exact himp h
  | _ => trivial

/-- While a message is in progress, only `makeProvisioning` cares for the request. -/
theorem Fitting.imp_of_inMessage {fits fits' : Prop} (h : Fitting fits s.worker) (howned : s.Owned)
    (hmessage : s.callback.inMessage = true)
    (himp : ∀ rest, s.worker = .provisioning rest → fits → fits') : Fitting fits' s.worker := by
  have hsubscribed := howned.subscribed
  cases hpc : s.worker with
  | provisioning rest =>
      rw [hpc] at h
      exact fun hread => himp rest hpc (h hread)
  | report connected | inHandler connected =>
      rw [hpc, hmessage] at hsubscribed
      cases hsubscribed.2
  | _ => trivial

section Message

variable {source' : Source} {op : MessageOp} {rest : List MessageOp}

theorem settledFiles_self (hcallback : s.callback = .onMessage source rest) :
    s.settledFiles source = rest.foldl (MessageOp.writes source) s.files := by
  simp [settledFiles, hcallback]

theorem settledFiles_of_ne (hcallback : s.callback = .onMessage source' rest)
    (hne : source' ≠ source) : s.settledFiles source = s.files := by
  simp [settledFiles, hcallback, hne]

/-- Another message opens none of the three files, and closes only what it has opened. -/
theorem writes_other {f : OfficialFile} (hprogress : s.InProgress)
    (hcallback : s.callback = .onMessage source' (op :: rest)) (hne : source' ≠ source)
    (hopen : op ≠ .open f) (hfile : s.files f = some ⟨source, true⟩) :
    op.writes source' s.files f = s.files f := by
  cases op with
  | «open» f' => exact Function.update_of_ne (fun hf => hopen (congrArg _ hf.symm)) _ _
  | close f' =>
      refine Function.update_of_ne (fun hf => hne ?_) _ _
      subst hf
      obtain ⟨t, hdone⟩ := hprogress _ _ hcallback
      obtain ⟨⟨written, hopened⟩, -⟩ := hdone.before _ (open_before_close hdone.head_mem)
      exact (File.mk.inj (Option.some.inj (hopened.symm.trans hfile))).1
  | _ => rfl

theorem fits_handles (hprogress : s.InProgress)
    (hcallback : s.callback = .onMessage source' (op :: rest))
    (hconsistent : ∀ source, s.registerDoc = ⟨some source, some source⟩ →
      source' = source ∨ ∀ f ∈ filesOf .keys, op ≠ .open f)
    (hfits : s.Fits s.registerDoc) :
    ({ s.handles source' op with callback := .onMessage source' rest } : Imp).Fits
      (s.handles source' op).registerDoc := by
  obtain ⟨source, hdoc, hfiles⟩ := fits_iff.mp hfits
  refine fits_iff.mpr ⟨source, handles_registerDoc.trans hdoc, fun f hf => ?_⟩
  rw [← hfiles f hf]
  by_cases hsource : source' = source
  · subst hsource
    rw [settledFiles_self hcallback, settledFiles_self rfl, handles_files]
    rfl
  · have hopen := (hconsistent source hdoc).resolve_left hsource f hf
    have hfile := hfiles f hf
    rw [settledFiles_of_ne hcallback hsource] at hfile ⊢
    rw [settledFiles_of_ne rfl hsource, handles_files]
    exact writes_other hprogress hcallback hsource hopen hfile

end Message

theorem step_fitting (h : Fitting (s.Fits s.registerDoc) s.worker) (howned : s.Owned)
    (hprogress : s.InProgress) (hnumbered : s.Numbered) (hconsistent : s.consistent a = true)
    (hsteps : s.Steps a s') : Fitting (s'.Fits s'.registerDoc) s'.worker := by
  cases hsteps with
  | works hworks => exact works_fitting h howned hconsistent hworks
  | wakes => trivial
  | stays => exact h
  | registers | activates | deactivates => exact h
  | startsWorker | stops => trivial
  | callsOnConnect hcall =>
      exact h.imp fun hfits =>
        hfits.of_not_inMessage rfl rfl (congrArg Callback.inMessage hcall.2) rfl
  | answersSubscribe | answersSend =>
      rw [answers_worker]
      exact h.imp fun hfits => hfits.of_settledFiles (by simp) (by simp [settledFiles])
  | @callsOnMessage t run hcall =>
      refine h.imp fun hfits => ?_
      obtain ⟨source, hdoc, hfiles⟩ := fits_iff.mp hfits
      rw [settledFiles_of_not_inMessage (congrArg Callback.inMessage hcall.2)] at hfiles
      refine fits_iff.mpr ⟨source, hdoc, fun f hf => ?_⟩
      rw [settledFiles_of_ne rfl]
      · exact hfiles f hf
      · -- the new message has a number of its own
        rintro rfl
        exact absurd (hnumbered.files f _ (hfiles f hf)) (lt_irrefl _)
  | setsConnected hcallback =>
      unfold Imp.wakes
      split
      · trivial
      · exact h.imp fun hfits => hfits.of_not_inMessage rfl rfl (by rw [hcallback]; rfl) rfl
  | onConnectReturns hcallback =>
      exact h.imp fun hfits => hfits.of_not_inMessage rfl rfl (by rw [hcallback]; rfl) rfl
  | onMessageReturns hcallback =>
      exact h.imp fun hfits => hfits.of_settledFiles rfl fun source f => by
        simp [settledFiles, hcallback]
  | @handles source' op rest hcallback =>
      change Fitting _ (s.handles source' op).worker
      rw [handles_worker]
      refine h.imp_of_inMessage howned (by rw [hcallback]; rfl) fun rest' hpc hfits => ?_
      refine fits_handles hprogress hcallback (fun source hdoc => ?_) hfits
      simpa [consistent, hpc, hdoc, hcallback] using hconsistent
  | @onMessageThrows source' _ _ hcallback =>
      refine h.imp_of_inMessage howned (by rw [hcallback]; rfl) fun rest' hpc hfits => ?_
      obtain ⟨source, hdoc, hfiles⟩ := fits_iff.mp hfits
      refine fits_iff.mpr ⟨source, hdoc, fun f hf => ?_⟩
      have hne : source' ≠ source := by
        simpa [consistent, hpc, hdoc, hcallback] using hconsistent
      rw [settledFiles_of_not_inMessage rfl, ← hfiles f hf, settledFiles_of_ne hcallback hne]

theorem registered_of_fitting (h : Fitting (s.Fits s.registerDoc) s.worker) (howned : s.Owned) :
    s.Registered := by
  intro hpc
  have hsubscribed := howned.subscribed
  rw [hpc] at h hsubscribed
  obtain ⟨source, hdoc, hfiles⟩ := fits_iff.mp h
  rw [settledFiles_of_not_inMessage hsubscribed.2] at hfiles
  exact ⟨source, hdoc, hfiles⟩

theorem fitting_of_reachable
    (h : Runs.Reachable step (fun s a => s.consistent a = true) init s) :
    Fitting (s.Fits s.registerDoc) s.worker :=
  h.invariant_of_reachable (fun s : Imp => Fitting (s.Fits s.registerDoc) s.worker) trivial
    fun _ _ _ hreach hs hconsistent hstep =>
      have hreach := hreach.mono fun _ _ _ => trivial
      step_fitting hs (owned_of_reachable hreach) (inProgress_of_reachable hreach)
        (numbered_of_reachable hreach) hconsistent (step_cases hstep)

end Imp

end Shapeware.AwsFleetProv
