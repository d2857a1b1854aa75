import Shapeware.CommandLineService.Reading

/-!
# What a console session does

A session is its lines one after the other: each is evaluated as a whole, and none after the one that
quits. However the input comes in, the thread does what the session of the complete lines does; what
comes after the last line end is never executed.
-/

namespace Shapeware.CommandLineService

open CommandService (Command Imp)

variable {K W : Type}

/-! ### Sessions -/

namespace Components

variable (components : Components K W)

/-- What a line does, and what is written for it. -/
def eval (s : Services K W) (line : StdString) : Services K W × StdString :=
  if line = [] then (s, [])
  else
    match s.commands.findCommand (firstWord line) with
    | some cmd => ((components.call line s cmd).2, resultText (components.call line s cmd).1)
    | none => (s, unknownText line ++ resultText (.ok (components.helpText s.commands)))

/-- The lines that are executed, what they lead to and what is written. -/
def session (s : Services K W) : List StdString → List StdString × Services K W × StdString
  | [] => ([], s, [])
  | line :: lines =>
    if s.quitFlg then ([], s, [])
    else
      let result := components.eval s line
      let rest := session result.1 lines
      (line :: rest.1, rest.2.1, prompt ++ result.2 ++ rest.2.2)

theorem eval_commands (s : Services K W) (line : StdString) :
    (components.eval s line).1.commands = s.commands := by
  rw [eval]
  split_ifs
  · rfl
  · cases s.commands.findCommand (firstWord line) with
    | none => rfl
    | some cmd => exact Console.call_commands ..

/-- All is executed that comes before a line that quits. -/
theorem session_all {s s' : Services K W} {lines executed : List StdString} {out : StdString}
    (h : components.session s lines = (executed, s', out)) (hquit : s'.quitFlg = false) :
    executed = lines := by
  induction lines generalizing s executed out with
  | nil =>
      cases h
      rfl
  | cons line lines ih =>
      rw [session] at h
      split_ifs at h with hquits
      · cases h
        rw [hquits] at hquit
        cases hquit
      · simp only [Prod.mk.injEq] at h
        obtain ⟨rfl, hs', -⟩ := h
        exact congrArg _ (ih (Prod.ext rfl (Prod.ext hs' rfl)))

theorem session_append {s s' : Services K W} {lines : List StdString} {out : StdString}
    (h : components.session s lines = (lines, s', out)) (hquit : s'.quitFlg = false)
    (line : StdString) :
    components.session s (lines ++ [line]) =
      (lines ++ [line], (components.eval s' line).1,
        out ++ prompt ++ (components.eval s' line).2) := by
  induction lines generalizing s out with
  | nil =>
      cases h
      simp [session, hquit]
  | cons l lines ih =>
      rw [session] at h
      split_ifs at h with hquits
      · cases h
      · simp only [Prod.mk.injEq, List.cons.injEq, true_and] at h
        obtain ⟨hlines, hs', rfl⟩ := h
        have hrest := ih (s := (components.eval s l).1) (Prod.ext hlines (Prod.ext hs' rfl))
        rw [List.cons_append, session, if_neg hquits]
        simp [hrest]

/-- Nothing is executed after a line that quits. -/
theorem session_of_quit {s s' : Services K W} {lines : List StdString} {out : StdString}
    (h : components.session s lines = (lines, s', out)) (hquit : s'.quitFlg = true)
    (more : List StdString) : components.session s (lines ++ more) = (lines, s', out) := by
  induction lines generalizing s out with
  | nil =>
      cases h
      cases more <;> simp [session, hquit]
  | cons l lines ih =>
      rw [session] at h
      split_ifs at h with hquits
      · cases h
      · simp only [Prod.mk.injEq, List.cons.injEq, true_and] at h
        obtain ⟨hlines, hs', rfl⟩ := h
        have hrest := ih (s := (components.eval s l).1) (Prod.ext hlines (Prod.ext hs' rfl))
        rw [List.cons_append, session, if_neg hquits]
        simp [hrest]

end Components

/-! ### The thread -/

namespace Console

variable {components : Components K W} {added : List (StdString × Command K)} {world : W}
  {s s' : Console K W} {a : Action K W}

/-- Nobody but the thread touches the services. -/
def Quiet (_ : Console K W) : Action K W → Prop
  | .addCommand .. | .removeCommand _ | .work _ => False
  | _ => True

instance (s : Console K W) (a : Action K W) : Decidable (s.Quiet a) :=
  match a with
  | .addCommand .. | .removeCommand _ | .work _ => isFalse id
  | .type _ | .close | .runThd | .deactivate | .join => isTrue trivial

/-- The steps that the thread takes by itself. -/
def OwnStep (_ : Console K W) : Action K W → Prop
  | .runThd => True
  | _ => False

/-- The last line is executed, or about to be. -/
def Executing (components : Components K W) (start : Services K W) (s : Console K W) : Prop :=
  s.services.quitFlg = false ∧ s.cmdLine ≠ [] ∧ ∃ lines out, s.lines = lines ++ [s.cmdLine] ∧
    components.session start lines = (lines, s.services, out) ∧ s.stdout = out ++ prompt

/-- Why the thread has ended. -/
def Ended (s : Console K W) : Prop :=
  s.services.quitFlg = true ∨ s.runThdFlg = false ∨
    s.eof = true ∧ s.lines = Lines.complete newline s.typed

/-- Where the thread is in the session of the lines that it has read. -/
def InSession (components : Components K W) (start : Services K W) (s : Console K W) : Prop :=
  match s.pc with
  | .loop | .checkQuit => components.session start s.lines = (s.lines, s.services, s.stdout)
  | .getline => s.services.quitFlg = false ∧ ∃ out,
      components.session start s.lines = (s.lines, s.services, out) ∧ s.stdout = out ++ prompt
  | .findCommand => s.Executing components start
  | .doCmd cmd => s.Executing components start ∧
      s.services.commands.findCommand (firstWord s.cmdLine) = some cmd
  | .unknown => s.Executing components start ∧
      s.services.commands.findCommand (firstWord s.cmdLine) = none
  | .finished => (∃ out, components.session start s.lines = (s.lines, s.services, out) ∧
      (s.stdout = out ++ [newline] ∨ s.stdout = out ++ prompt ++ [newline])) ∧ s.Ended
  | .terminated => False

variable {start : Services K W}

/-- A line is executed. -/
theorem Executing.evaluates (h : s.Executing components start)
    (hpc : s'.pc = .loop) (hlines : s'.lines = s.lines)
    (hservices : s'.services = (components.eval s.services s.cmdLine).1)
    (hstdout : s'.stdout = s.stdout ++ (components.eval s.services s.cmdLine).2) :
    s'.InSession components start := by
  obtain ⟨hquit, -, lines, out, hline, hsession, hout⟩ := h
  simp only [InSession, hpc]
  rw [hlines, hservices, hstdout, hline, hout]
  exact components.session_append hsession hquit s.cmdLine

theorem InSession.works (h : s.InSession components start) (hsound : s.Sound)
    (hworks : s.Works components s') : s'.InSession components start := by
  cases hworks with
  | goesRound hpc => simpa [InSession, hpc] using h
  | stops hpc hrun =>
      simp only [InSession, hpc] at h
      exact ⟨⟨s.stdout, h, .inl rfl⟩, .inr (.inl hrun)⟩
  | quits hpc hquit =>
      simp only [InSession, hpc] at h
      exact ⟨⟨s.stdout, h, .inl rfl⟩, .inl hquit⟩
  | prompts hpc hquit =>
      simp only [InSession, hpc] at h
      exact ⟨hquit, s.stdout, h, rfl⟩
  | skips hpc hstdin =>
      simp only [InSession, hpc] at h
      obtain ⟨hquit, out, hsession, hout⟩ := h
      simp [InSession, components.session_append hsession hquit [], Components.eval, hout]
  | reads hpc hstdin hline hne =>
      simp only [InSession, hpc] at h
      obtain ⟨hquit, out, hsession, hout⟩ := h
      exact ⟨hquit, hne, s.lines, out, rfl, hsession, hout⟩
  | ends hpc hstdin heof =>
      have hlines := hsound.complete_eq (by simp [hpc])
      have hnone : Lines.complete newline s.stdin = [] :=
        congrArg Prod.fst (Lines.split_of_notMem hstdin)
      rw [hnone, List.append_nil] at hlines
      simp only [InSession, hpc] at h
      obtain ⟨-, out, hsession, hout⟩ := h
      exact ⟨⟨out, hsession, .inr (congrArg (· ++ [newline]) hout)⟩, .inr (.inr ⟨heof, hlines⟩)⟩
  | finds hpc hfind =>
      simp only [InSession, hpc] at h
      exact ⟨h, hfind⟩
  | misses hpc hfind =>
      simp only [InSession, hpc] at h
      exact ⟨h, hfind⟩
  | calls hpc =>
      simp only [InSession, hpc] at h
      have hne := h.1.2.1
      exact h.1.evaluates rfl rfl (by simp [Components.eval, hne, h.2, dispatch])
        (by simp [Components.eval, hne, h.2, dispatch, result])
  | callsDefault hpc =>
      rw [callDefault_eq hsound.default]
      simp only [InSession, hpc] at h
      have hne := h.1.2.1
      exact h.1.evaluates rfl rfl (by simp [Components.eval, hne, h.2, dispatch, Components.call])
        (by simp [Components.eval, hne, h.2, dispatch])

/-- A step that is not one of the thread. -/
theorem InSession.aside (h : s.InSession components start) (hpc : s'.pc = s.pc)
    (hlines : s'.lines = s.lines) (hservices : s'.services = s.services)
    (hcmdLine : s'.cmdLine = s.cmdLine) (hstdout : s'.stdout = s.stdout)
    (hended : s.pc = .finished → s.Ended → s'.Ended) : s'.InSession components start := by
  cases hs : s.pc with
  | finished =>
      simp only [InSession, hpc, hs, hlines, hservices, hstdout] at h ⊢
      exact ⟨h.1, hended hs h.2⟩
  | terminated => simp [InSession, hs] at h
  | _ => simpa [InSession, Executing, hpc, hs, hlines, hservices, hcmdLine, hstdout] using h

theorem InSession.step (h : s.InSession components start) (hsound : s.Sound) (hquiet : s.Quiet a)
    (hsteps : s.Steps components a s') : s'.InSession components start := by
  cases hsteps with
  | types heof => exact h.aside rfl rfl rfl rfl rfl (by simp [Ended, heof])
  | closes =>
      exact h.aside rfl rfl rfl rfl rfl fun _ =>
        Or.imp_right (Or.imp_right fun hread => ⟨rfl, hread.2⟩)
  | works hworks => exact h.works hsound hworks
  | deactivates => exact h.aside rfl rfl rfl rfl rfl fun _ _ => .inr (.inl rfl)
  | joins => exact h.aside rfl rfl rfl rfl rfl fun _ => id
  | adds | removes | others => exact hquiet.elim

theorem inSession_of_reachable
    (h : Runs.Reachable (step components) Quiet (init added world) s) :
    s.Sound ∧ s.InSession components (init added world).services := by
  refine h.invariant (fun s => s.Sound ∧ s.InSession components (init added world).services)
    ⟨.init, rfl⟩ fun _ _ _ ⟨hsound, hs⟩ hquiet hstep => ?_
  have hsteps := step_cases hstep
  exact ⟨hsound.step hsteps, hs.step hsound hquiet hsteps⟩

/-! ### All of it is executed -/

/-- The thread waits for input, or has ended. -/
def AtRest (s : Console K W) : Prop :=
  s.pc = .finished ∨ s.pc = .getline ∧ newline ∉ s.stdin ∧ s.eof = false

def Pc.toRead : Pc K → Nat
  | .findCommand => 5
  | .doCmd _ | .unknown => 4
  | .loop => 3
  | .checkQuit => 2
  | .getline => 1
  | .finished | .terminated => 0

theorem Works.toRead (hworks : s.Works components s') (h : s.Sound) :
    6 * s'.stdin.length + Pc.toRead s'.pc < 6 * s.stdin.length + Pc.toRead s.pc := by
  cases hworks with
  | callsDefault hpc =>
      rw [callDefault_eq h.default]
      simp [Pc.toRead, hpc, dispatch]
  | skips hpc hstdin =>
      simp [Pc.toRead, hpc, hstdin]
      omega
  | reads hpc hstdin =>
      simp [Pc.toRead, hpc, hstdin]
      omega
  | ends hpc =>
      simp [Pc.toRead, hpc, finish]
  | goesRound hpc | stops hpc | quits hpc | prompts hpc | finds hpc | misses hpc | calls hpc =>
      simp [Pc.toRead, hpc, finish, dispatch]

theorem leads_atRest (components : Components K W) (h : s.Sound) :
    Runs.Leads (step components) OwnStep s AtRest := by
  refine Runs.leads_of_rank Sound (fun s => 6 * s.stdin.length + Pc.toRead s.pc)
    (fun s h hrest => ?_) h
  rw [AtRest, not_or] at hrest
  have hstep : ∃ t, s.runThd components = some t := by
    by_cases hpc : s.pc = .checkQuit
    · simp [runThd, hpc]
    · exact runThd_isSome components hrest.1 h.running fun hwaits =>
        hrest.2 ⟨hwaits.1.resolve_right fun hquit => hpc hquit.1, hwaits.2⟩
  obtain ⟨t, hstep⟩ := hstep
  have hworks := works_of_runThd hstep
  exact ⟨.runThd, t, trivial, hstep, h.works hworks, hworks.toRead h⟩

/-- The thread has executed the session of all complete lines. -/
def RunsSession (components : Components K W) (start : Services K W) (s : Console K W) : Prop :=
  ∃ out, components.session start (Lines.complete newline s.typed) = (s.lines, s.services, out) ∧
    (s.stdout = out ++ prompt ∨ s.stdout = out ++ [newline] ∨ s.stdout = out ++ prompt ++ [newline])

theorem runsSession_of_atRest (hsound : s.Sound) (h : s.InSession components start)
    (hrest : s.AtRest) (hrun : s.runThdFlg = true) : s.RunsSession components start := by
  obtain hpc | ⟨hpc, hstdin, -⟩ := hrest
  · simp only [InSession, hpc] at h
    obtain ⟨⟨out, hsession, hout⟩, hended⟩ := h
    refine ⟨out, ?_, .inr hout⟩
    obtain hquit | hstopped | ⟨-, hlines⟩ := hended
    · obtain ⟨more, hmore⟩ := hsound.lines_beginning
      rw [← hmore]
      exact components.session_of_quit hsession hquit more
    · simp [hrun] at hstopped
    · rw [← hlines]
      exact hsession
  · have hlines := hsound.complete_eq (by simp [hpc])
    have hnone : Lines.complete newline s.stdin = [] :=
      congrArg Prod.fst (Lines.split_of_notMem hstdin)
    rw [hnone, List.append_nil] at hlines
    simp only [InSession, hpc] at h
    obtain ⟨-, out, hsession, hout⟩ := h
    exact ⟨out, hlines ▸ hsession, .inl hout⟩

theorem frame_of_own (h : Runs.Reachable (step components) OwnStep s s') (hsound : s.Sound) :
    s'.Sound ∧ s'.runThdFlg = s.runThdFlg ∧ s'.typed = s.typed := by
  refine h.invariant (fun t => t.Sound ∧ t.runThdFlg = s.runThdFlg ∧ t.typed = s.typed)
    ⟨hsound, rfl, rfl⟩ fun t a t' ⟨ht, hrun, htyped⟩ hown hstep => ?_
  cases step_cases hstep with
  | works hworks =>
      refine ⟨ht.works hworks, (hworks.frame ht).1.trans hrun, ?_⟩
      cases hworks with
      | callsDefault =>
          rw [callDefault_eq ht.default]
          exact htyped
      | _ => exact htyped
  | types | closes | deactivates | joins | adds | removes | others => exact hown.elim

theorem leads_runsSession (h : Runs.Reachable (step components) Quiet (init added world) s)
    (hrun : s.runThdFlg = true) :
    Runs.Leads (step components) OwnStep s fun t =>
      t.typed = s.typed ∧ t.RunsSession components (init added world).services := by
  obtain ⟨hsound, -⟩ := inSession_of_reachable h
  obtain ⟨t, hown, hrest⟩ := leads_atRest components hsound
  obtain ⟨-, hrun', htyped⟩ := frame_of_own hown hsound
  have hquiet : ∀ (s : Console K W) a, s.OwnStep a → s.Quiet a := fun _ a _ => by
    cases a <;> trivial
  obtain ⟨htsound, htsession⟩ := inSession_of_reachable (h.trans (hown.mono hquiet))
  exact ⟨t, hown, htyped, runsSession_of_atRest htsound htsession hrest (hrun'.trans hrun)⟩

/-- **The console executes the session** of the complete lines, as long as nobody else touches the
services: unless `deactivate` was called, the thread gets there by its own steps, and whenever it is
at rest it is there. -/
theorem runs_session (h : Runs.Reachable (step components) Quiet (init added world) s)
    (hrun : s.runThdFlg = true) :
    (s.AtRest → s.RunsSession components (init added world).services) ∧
      Runs.Leads (step components) OwnStep s fun t =>
        t.typed = s.typed ∧ t.RunsSession components (init added world).services := by
  obtain ⟨hsound, hsession⟩ := inSession_of_reachable h
  exact ⟨fun hrest => runsSession_of_atRest hsound hsession hrest hrun, leads_runsSession h hrun⟩

/-- Nothing after `q` is executed. -/
theorem runs_session_quit : ∃ s : Console Unit Unit, s.typed = bytes "q\nh\n" ∧
    s.lines = [bytes "q"] ∧
    s.RunsSession ⟨fun _ _ world => (.ok [], world), fun _ => []⟩
      (init (K := Unit) [] ()).services := by
  have hrun : ∃ s : Console Unit Unit,
      Runs.Reachable (step ⟨fun _ _ world => (.ok [], world), fun _ => []⟩) Quiet (init [] ()) s ∧
        s.typed = bytes "q\nh\n" ∧ s.lines = [bytes "q"] ∧ s.runThdFlg = true ∧
        s.pc = .finished :=
    Runs.exists_reachable ((bytes "q\nh\n").map .type ++ List.replicate 7 .runThd)
      (by decide +kernel)
  obtain ⟨s, hs, htyped, hlines, hflag, hpc⟩ := hrun
  exact ⟨s, htyped, hlines, (runs_session hs hflag).1 (.inl hpc)⟩

end Console

end Shapeware.CommandLineService
