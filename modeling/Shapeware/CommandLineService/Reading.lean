import Shapeware.CommandLineService.Console
import Shapeware.Library.Runs

/-!
# What the console thread reads and when it ends

Whatever other threads do, the thread executes the complete lines in their order, and no more than one
of them once `deactivate` has told it to end. `deactivate` joins the thread, and gets stuck as long as
the thread waits for a line that nobody types.
-/

namespace Shapeware.CommandLineService

open CommandService (Command Imp)

variable {K W : Type}

namespace Console

variable {components : Components K W} {added : List (StdString × Command K)} {world : W}
  {s s' : Console K W} {a : Action K W}

/-- The line that was read and not executed yet. -/
def inHand (s : Console K W) : List StdString :=
  match s.pc with
  | .findCommand | .doCmd _ | .unknown => [s.cmdLine]
  | _ => []

/-- The calls that were made after `deactivate` had told the thread to end. -/
def lateCalls (s : Console K W) : List (Call K) := s.calls.filter (·.stopped)

structure Sound (s : Console K W) : Prop where
  text : ∃ rest, s.typed = Lines.unlines newline s.lines ++ rest ∧ (s.pc ≠ .finished → s.stdin = rest)
  ended : ∀ line ∈ s.lines, newline ∉ line
  called : s.calls.map (·.cmdLine) ++ s.inHand = s.lines.filter (· ≠ [])
  default : s.services.commands.getDefaultCommand = some .help
  running : s.pc ≠ .terminated
  flag : s.runThdFlg = true ↔ s.deactivate = .active
  late : s.lateCalls = [] ∨
    s.lateCalls.length = 1 ∧ s.runThdFlg = false ∧ (s.pc = .loop ∨ s.pc = .finished)
  joined : s.deactivate = .returned → s.pc = .finished

theorem callDefault_eq (hdefault : s.services.commands.getDefaultCommand = some .help) :
    s.callDefault components = s.dispatch components .help (unknownText s.cmdLine ++
      resultText (.ok (components.helpText s.services.commands))) .loop := by
  rw [callDefault, hdefault]
  rfl

theorem call_commands (line : StdString) (services : Services K W) (cmd : Command K) :
    (components.call line services cmd).2.commands = services.commands := by
  cases cmd <;> rfl

theorem getDefaultCommand_init :
    (init added world).services.commands.getDefaultCommand = some .help := by
  have hkeeps : ∀ commands : Imp (Command K), commands.getDefaultCommand = some .help →
      (added.foldl (fun commands cmd => (commands.addCommand cmd.1 cmd.2).1)
        commands).getDefaultCommand = some .help := by
    induction added with
    | nil => exact fun _ h => h
    | cons cmd added ih => exact fun commands h => ih _ h
  exact hkeeps _ rfl

namespace Sound

theorem init : (init added world).Sound where
  text := ⟨[], rfl, fun _ => rfl⟩
  ended := by simp [Console.init]
  called := rfl
  default := getDefaultCommand_init
  running := nofun
  flag := by simp [Console.init]
  late := .inl rfl
  joined := nofun

/-- A step that neither reads nor calls. -/
theorem moves (h : s.Sound) (hlines : s'.lines = s.lines)
    (htext : s'.typed = s.typed ∧ (s'.pc ≠ .finished → s'.stdin = s.stdin))
    (hcalls : s'.calls = s.calls) (hinHand : s'.inHand = s.inHand)
    (hdefault : s'.services.commands.getDefaultCommand =
      s.services.commands.getDefaultCommand)
    (hrunning : s'.pc ≠ .terminated) (hflag : s'.runThdFlg = s.runThdFlg)
    (hdeactivate : s'.deactivate = s.deactivate)
    (hpc : s.pc ≠ .finished)
    (hlate : s.runThdFlg = false → s.pc = .loop → s'.pc = .finished) : s'.Sound where
  text := by
    obtain ⟨rest, htyped, hstdin⟩ := h.text
    exact ⟨rest, by rw [htext.1, hlines, htyped], fun hpc' => (htext.2 hpc').trans (hstdin hpc)⟩
  ended := hlines ▸ h.ended
  called := by rw [hcalls, hinHand, hlines, h.called]
  default := hdefault.trans h.default
  running := hrunning
  flag := by rw [hflag, hdeactivate, h.flag]
  late := by
    rw [lateCalls, hcalls, hflag]
    refine h.late.imp_right fun ⟨hone, hstopped, hloop⟩ => ⟨hone, hstopped, .inr ?_⟩
    exact hlate hstopped (hloop.resolve_right hpc)
  joined hreturned := absurd (h.joined (hdeactivate ▸ hreturned)) hpc

theorem reads (h : s.Sound) {line rest : StdString} {pc : Pc K} (hpc : s.pc = .getline)
    (hstdin : s.stdin = line ++ newline :: rest) (hline : newline ∉ line)
    (hinHand : ∀ s' : Console K W, s'.pc = pc → s'.cmdLine = line →
      s'.inHand = if line = [] then [] else [line])
    (hrunning : pc ≠ .terminated) :
    Sound { s with cmdLine := line, stdin := rest, lines := s.lines ++ [line], pc := pc } where
  text := by
    obtain ⟨rest', htyped, hrest⟩ := h.text
    obtain rfl := hrest (by simp [hpc])
    exact ⟨rest, by simp [htyped, hstdin, Lines.unlines], fun _ => rfl⟩
  ended l hl := by
    obtain hl | hl := List.mem_append.mp hl
    · exact h.ended l hl
    · exact List.mem_singleton.mp hl ▸ hline
  called := by
    have hcalled : s.calls.map (·.cmdLine) = s.lines.filter (· ≠ []) := by
      simpa [inHand, hpc] using h.called
    rw [hinHand _ rfl rfl, List.filter_append]
    by_cases hne : line = [] <;> simp [hne, hcalled]
  default := h.default
  running := hrunning
  flag := h.flag
  late := .inl (h.late.resolve_right fun hlate => by simp [hpc] at hlate)
  joined hreturned := absurd (h.joined hreturned) (by simp [hpc])

/-- A command is called for the line in hand. -/
theorem dispatch (h : s.Sound) (hinHand : s.inHand = [s.cmdLine]) (hloop : s.pc ≠ .loop)
    (hfinished : s.pc ≠ .finished) (cmd : Command K) (text : StdString) :
    (s.dispatch components cmd text .loop).Sound where
  text := by
    obtain ⟨rest, htyped, hstdin⟩ := h.text
    exact ⟨rest, htyped, fun _ => hstdin hfinished⟩
  ended := h.ended
  called := by
    have hcalled := h.called
    rw [hinHand] at hcalled
    simpa [Console.dispatch, inHand] using hcalled
  default := by
    rw [← h.default]
    exact congrArg Imp.getDefaultCommand (call_commands ..)
  running := nofun
  flag := h.flag
  late := by
    have hnone : s.lateCalls = [] :=
      h.late.resolve_right fun ⟨_, _, hpc⟩ => hpc.elim hloop hfinished
    rw [lateCalls] at hnone ⊢
    cases hrun : s.runThdFlg <;> simp [Console.dispatch, hnone, hrun]
  joined hreturned := absurd (h.joined hreturned) hfinished

theorem works (h : s.Sound) (hworks : s.Works components s') : s'.Sound := by
  cases hworks with
  | goesRound hpc hrun =>
      exact h.moves rfl ⟨rfl, fun _ => rfl⟩ rfl (by simp [inHand, hpc]) rfl nofun rfl rfl
        (by simp [hpc]) (by simp [hrun])
  | stops hpc | quits hpc =>
      exact h.moves rfl ⟨rfl, fun _ => rfl⟩ rfl (by simp [inHand, hpc, finish]) rfl nofun rfl rfl
        (by simp [hpc]) fun _ _ => rfl
  | prompts hpc =>
      exact h.moves rfl ⟨rfl, fun _ => rfl⟩ rfl (by simp [inHand, hpc]) rfl nofun rfl rfl
        (by simp [hpc]) (by simp [hpc])
  | skips hpc hstdin =>
      exact h.reads hpc hstdin List.not_mem_nil (fun s' hs' _ => by simp [inHand, hs']) nofun
  | reads hpc hstdin hline hne =>
      exact h.reads hpc hstdin hline
        (fun s' hs' hline' => by simp [inHand, hs', hline', hne]) nofun
  | ends hpc =>
      exact h.moves rfl ⟨rfl, fun hnot => absurd rfl hnot⟩ rfl (by simp [inHand, hpc, finish]) rfl
        nofun rfl rfl (by simp [hpc]) (by simp [hpc])
  | finds hpc | misses hpc =>
      exact h.moves rfl ⟨rfl, fun _ => rfl⟩ rfl (by simp [inHand, hpc]) rfl nofun rfl rfl
        (by simp [hpc]) (by simp [hpc])
  | calls hpc =>
      exact h.dispatch (by simp [inHand, hpc]) (by simp [hpc]) (by simp [hpc]) _ _
  | callsDefault hpc =>
      rw [callDefault_eq h.default]
      exact h.dispatch (by simp [inHand, hpc]) (by simp [hpc]) (by simp [hpc]) _ _

theorem step (h : s.Sound) (hsteps : s.Steps components a s') : s'.Sound := by
  cases hsteps with
  | @types c =>
      obtain ⟨rest, htyped, hstdin⟩ := h.text
      exact { h with
        text := ⟨rest ++ [c], by simp [htyped], fun hpc => congrArg (· ++ [c]) (hstdin hpc)⟩ }
  | closes => exact { h with }
  | works hworks => exact h.works hworks
  | deactivates hactive =>
      have hrun : s.runThdFlg = true := h.flag.mpr hactive
      exact { h with
        flag := by simp
        late := .inl (h.late.resolve_right fun hlate => by simp [hrun] at hlate)
        joined := nofun }
  | joins hjoining hpc =>
      exact { h with
        flag := by
          have hrun : s.runThdFlg ≠ true := by simp [h.flag, hjoining]
          simp [hrun]
        joined := fun _ => hpc }
  | adds | removes => exact { h with default := h.default }
  | others => exact { h with }

end Sound

theorem sound_of_reachable
    (h : Runs.Reachable (step components) (fun _ _ => True) (init added world) s) : s.Sound :=
  h.invariant Sound .init fun _ _ _ hs _ hstep => hs.step (step_cases hstep)

/-! ### Lines -/

/-- What was read is a beginning of the complete lines, and every one of them that is not empty is
called for once, in order; only the last one may still be in hand. -/
structure Executes (s : Console K W) : Prop where
  lines : s.lines <+: Lines.complete newline s.typed
  calls : s.calls.map (·.cmdLine) ++ s.inHand = s.lines.filter (· ≠ [])
  running : s.pc ≠ .terminated

theorem Sound.complete_eq (h : s.Sound) (hpc : s.pc ≠ .finished) :
    s.lines ++ Lines.complete newline s.stdin = Lines.complete newline s.typed := by
  obtain ⟨rest, htyped, hstdin⟩ := h.text
  rw [htyped, ← Lines.prefix_complete h.ended, hstdin hpc]

theorem Sound.lines_beginning (h : s.Sound) : s.lines <+: Lines.complete newline s.typed := by
  obtain ⟨rest, htyped, -⟩ := h.text
  rw [htyped, ← Lines.prefix_complete h.ended]
  exact List.prefix_append _ _

/-! ### The end -/

/-- What is left to do for `deactivate`: the thread ends and is joined. -/
def EndStep (_ : Console K W) : Action K W → Prop
  | .runThd | .join => True
  | _ => False

/-- The thread waits for a line, or is about to. -/
def WaitsForLine (s : Console K W) : Prop :=
  (s.pc = .getline ∨ s.pc = .checkQuit ∧ s.services.quitFlg = false) ∧
    newline ∉ s.stdin ∧ s.eof = false

def Pc.rank : Pc K → Nat
  | .checkQuit => 5
  | .getline => 4
  | .findCommand => 3
  | .doCmd _ | .unknown => 2
  | .loop => 1
  | .finished | .terminated => 0

theorem runThd_isSome (components : Components K W) (hfinished : s.pc ≠ .finished)
    (hrunning : s.pc ≠ .terminated) (hwaits : ¬ s.WaitsForLine) : ∃ t, s.runThd components = some t := by
  cases hpc : s.pc with
  | getline =>
      rw [runThd, hpc]
      cases huncons : Lines.uncons newline s.stdin with
      | some r => exact ⟨_, rfl⟩
      | none =>
          cases heof : s.eof with
          | true => exact ⟨_, rfl⟩
          | false => exact absurd ⟨.inl hpc, Lines.uncons_eq_none.mp huncons, heof⟩ hwaits
  | finished => exact absurd hpc hfinished
  | terminated => exact absurd hpc hrunning
  | _ => simp [runThd, hpc]

/-- Once the thread is told to end, it goes on to the end and waits for no line that it would not
wait for anyway. -/
theorem Works.rank (hworks : s.Works components s') (h : s.Sound) (hrun : s.runThdFlg = false)
    (hwaits : ¬ s.WaitsForLine) :
    Pc.rank s'.pc < Pc.rank s.pc ∧ ¬ s'.WaitsForLine := by
  cases hworks with
  | goesRound hpc hrun' => simp [hrun] at hrun'
  | prompts hpc hquit =>
      refine ⟨by simp [Pc.rank, hpc], fun ⟨_, hstdin⟩ => hwaits ⟨.inr ⟨hpc, hquit⟩, hstdin⟩⟩
  | callsDefault hpc =>
      rw [callDefault_eq h.default]
      simp [Pc.rank, hpc, dispatch, WaitsForLine]
  | stops hpc | quits hpc | skips hpc | reads hpc | ends hpc | finds hpc | misses hpc | calls hpc =>
      simp [Pc.rank, hpc, finish, dispatch, WaitsForLine]

theorem Works.frame (hworks : s.Works components s') (h : s.Sound) :
    s'.runThdFlg = s.runThdFlg ∧ s'.deactivate = s.deactivate := by
  cases hworks with
  | callsDefault =>
      rw [callDefault_eq h.default]
      exact ⟨rfl, rfl⟩
  | _ => exact ⟨rfl, rfl⟩

theorem leads_returned (h : s.Sound) (hjoining : s.deactivate = .joining)
    (hwaits : ¬ s.WaitsForLine) :
    Runs.Leads (step components) EndStep s (·.deactivate = .returned) := by
  refine Runs.leads_of_rank
    (fun s => s.Sound ∧ s.deactivate ≠ .active ∧ ¬ s.WaitsForLine)
    (fun s => Pc.rank s.pc + if s.deactivate = .returned then 0 else 1) ?_
    ⟨h, by simp [hjoining], hwaits⟩
  rintro s ⟨h, hactive, hwaits⟩ hreturned
  have hjoining : s.deactivate = .joining := by
    cases hs : s.deactivate with
    | active => exact absurd hs hactive
    | joining => rfl
    | returned => exact absurd hs hreturned
  by_cases hpc : s.pc = .finished
  · have hstep : s.step components .join = some { s with deactivate := .returned } := by
      simp [step, hjoining, hpc]
    exact ⟨.join, _, trivial, hstep, ⟨h.step (step_cases hstep), by simp, hwaits⟩, by simp [hjoining]⟩
  · obtain ⟨t, hstep⟩ := runThd_isSome components hpc h.running hwaits
    have hworks := works_of_runThd hstep
    have hrun : s.runThdFlg = false := by
      have hnot : s.runThdFlg ≠ true := by simp [h.flag, hjoining]
      simpa using hnot
    obtain ⟨hrank, hwaits'⟩ := hworks.rank h hrun hwaits
    obtain ⟨-, hsame⟩ := hworks.frame h
    exact ⟨.runThd, t, trivial, hstep, ⟨h.works hworks, hsame ▸ hactive, hwaits'⟩, by
      simpa [hsame] using hrank⟩

theorem not_leads_returned (hjoining : s.deactivate = .joining) (hwaits : s.WaitsForLine) :
    ¬ Runs.Leads (step components) EndStep s (·.deactivate = .returned) := by
  refine Runs.not_leads_of_invariant
    (fun s => s.deactivate = .joining ∧ s.WaitsForLine) ⟨hjoining, hwaits⟩ ?_ (by simp +contextual)
  rintro s a t ⟨hjoining, hpc, hstdin, heof⟩ hown hstep
  cases step_cases hstep with
  | works hworks =>
      obtain hpc | ⟨hpc, hquit⟩ := hpc
      · cases hworks with
        | skips _ hline => simp [hline] at hstdin
        | reads _ hline => simp [hline] at hstdin
        | ends _ _ heof' => simp [heof] at heof'
        | _ => simp_all
      · cases hworks with
        | prompts => exact ⟨hjoining, .inl rfl, hstdin, heof⟩
        | _ => simp_all
  | joins _ hfinished => obtain hpc | ⟨hpc, -⟩ := hpc <;> simp [hpc] at hfinished
  | types | closes | deactivates | adds | removes | others => exact hown.elim

/-- **The console obeys `deactivate`, and when.** Whatever is typed and whatever other threads do, the
complete lines are executed in order and at most one call comes after `deactivate` has told the thread
to end; and `deactivate` can return, without anything being typed, exactly if the thread does not wait
for a line. -/
theorem obeys_deactivate (h : Runs.Reachable (step components) (fun _ _ => True) (init added world) s) :
    s.Executes ∧ s.lateCalls.length ≤ 1 ∧
      (s.deactivate = .joining →
        (Runs.Leads (step components) EndStep s (·.deactivate = .returned) ↔ ¬ s.WaitsForLine)) := by
  have hsound := sound_of_reachable h
  refine ⟨⟨hsound.lines_beginning, hsound.called, hsound.running⟩, ?_, fun hjoining =>
    ⟨fun hleads hwaits => not_leads_returned hjoining hwaits hleads,
      leads_returned hsound hjoining⟩⟩
  obtain hnone | ⟨hone, -⟩ := hsound.late
  · simp [hnone]
  · exact hone.le

/-- The thread has just come to its read when `deactivate` is called: one more line is executed. -/
theorem obeys_deactivate_line : ∃ s : Console Unit Unit, s.deactivate = .joining ∧
    s.lateCalls.length = 1 ∧
    Runs.Leads (step ⟨fun _ _ world => (.ok [], world), fun _ => []⟩) EndStep s
      (·.deactivate = .returned) := by
  have hrun : ∃ s : Console Unit Unit,
      Runs.Reachable (step ⟨fun _ _ world => (.ok [], world), fun _ => []⟩) (fun _ _ => True)
        (init [] ()) s ∧ s.deactivate = .joining ∧ s.lateCalls.length = 1 ∧ s.pc = .loop :=
    Runs.exists_reachable ([.runThd, .runThd, .deactivate] ++ (bytes "h\n").map .type ++
      List.replicate 3 .runThd) (by decide +kernel)
  obtain ⟨s, hs, hjoining, hlate, hpc⟩ := hrun
  exact ⟨s, hjoining, hlate, ((obeys_deactivate hs).2.2 hjoining).mpr (by simp [WaitsForLine, hpc])⟩

end Console

end Shapeware.CommandLineService
