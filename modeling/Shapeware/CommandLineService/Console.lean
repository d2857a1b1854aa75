import Shapeware.CommandService.Commands
import Shapeware.Library.Lines

/-!
# The command line

A thread of `CommandLineService` reads the console line by line, finds the command that the first word
of a line names and calls it with the whole line. Other threads add and remove commands meanwhile, and
`deactivate` tells the thread to end and joins it; the thread looks at that between two lines only.
-/

namespace Shapeware.CommandLineService

open CommandService (Command Imp)

variable {K W : Type}

def newline : UInt8 := '\n'.toUInt8

/-- `isspace` of the C locale. -/
def isSpace (c : UInt8) : Bool := c = ' '.toUInt8 || (9 ≤ c && c ≤ 13)

/-- `istr >> cmdStr` on a new stream. -/
def firstWord (cmdLine : StdString) : StdString := (Lines.extract isSpace cmdLine).1

/-! ### The commands -/

/-- The commands of the components, which work on `W` and may throw. -/
structure Components (K W : Type) where
  doCmd : K → StdString → W → Except StdString StdString × W
  getHelp : K → StdString

/-- The command service, and what the commands of the components work on. -/
structure Services (K W : Type) where
  commands : Imp (Command K)
  quitFlg : Bool := false
  world : W

/-- `std::left << std::setw(width)`. -/
def setw (width : Nat) (s : StdString) : StdString :=
  s ++ List.replicate (width - s.length) ' '.toUInt8

namespace Components

def help (components : Components K W) : Command K → StdString
  | .help => bytes "for help"
  | .quit => bytes "for quit"
  | .own k _ => components.getHelp k

/-- `HelpCommand`: the commands in the order of their names. -/
def helpText (components : Components K W) (commands : Imp (Command K)) : StdString :=
  commands.commands.toList.flatMap fun cmd =>
    setw 10 cmd.1 ++ components.help cmd.2 ++ [newline]

/-- `doCmd` of a command. -/
def call (components : Components K W) (params : StdString) (s : Services K W) :
    Command K → Except StdString StdString × Services K W
  | .help => (.ok (components.helpText s.commands), s)
  | .quit => (.ok (bytes "quit command invoked"), { s with quitFlg := true })
  | .own k _ =>
    let result := components.doCmd k params s.world
    (result.1, { s with world := result.2 })

end Components

/-! ### The thread -/

inductive Pc (K : Type)
  | loop
  | checkQuit
  | getline
  | findCommand
  | doCmd (cmd : Command K)
  | unknown
  | finished
  /-- An exception has left the thread, and `std::terminate` is called. -/
  | terminated
deriving DecidableEq

inductive Deactivate
  | active
  | joining
  | returned
deriving DecidableEq

/-- A call of a command; `stopped` is whether `deactivate` had told the thread to end before. -/
structure Call (K : Type) where
  cmdLine : StdString
  cmd : Command K
  stopped : Bool
deriving DecidableEq

structure Console (K W : Type) where
  services : Services K W
  runThdFlg : Bool := true
  pc : Pc K := .loop
  deactivate : Deactivate := .active
  cmdLine : StdString := []
  /-- What was typed and is not read yet, and whether the end of the input has come. -/
  stdin : StdString := []
  eof : Bool := false
  stdout : StdString := []
  /-- All that was ever typed, the lines that were read and the calls, in their order. -/
  typed : StdString := []
  lines : List StdString := []
  calls : List (Call K) := []

inductive Action (K W : Type)
  | type (c : UInt8)
  | close
  | runThd
  | deactivate
  | join
  /-- Other threads. -/
  | addCommand (cmdStr : StdString) (cmd : Command K)
  | removeCommand (cmdStr : StdString)
  | work (world : W)

/-- What is written for the result of a command. -/
def resultText : Except StdString StdString → StdString
  | .ok text => text ++ [newline]
  | .error what => bytes "Command failure with an exception: " ++ what ++ [newline]

def prompt : StdString := bytes "cmd> "

def unknownText (cmdLine : StdString) : StdString :=
  bytes "Unknown command: " ++ firstWord cmdLine ++ [newline]

namespace Console

/-- Both services are activated, and components have added commands before. -/
def init (added : List (StdString × Command K)) (world : W) : Console K W :=
  { services :=
      { commands := added.foldl (fun commands cmd => (commands.addCommand cmd.1 cmd.2).1)
          (({} : Imp (Command K)).activate .help .quit)
        world := world } }

/-- `std::cout << std::endl` at the end of the thread. -/
def finish (s : Console K W) : Console K W :=
  { s with stdout := s.stdout ++ [newline], pc := .finished }

def dispatch (components : Components K W) (s : Console K W) (cmd : Command K) (text : StdString)
    (pc : Pc K) : Console K W :=
  { s with
    services := (components.call s.cmdLine s.services cmd).2
    stdout := s.stdout ++ text
    calls := s.calls ++ [⟨s.cmdLine, cmd, !s.runThdFlg⟩]
    pc := pc }

/-- The result of `doCmd` for the line that was read. -/
def result (components : Components K W) (s : Console K W) (cmd : Command K) :
    Except StdString StdString :=
  (components.call s.cmdLine s.services cmd).1

/-- The default command is called outside of the `try` block. -/
def callDefault (components : Components K W) (s : Console K W) : Console K W :=
  match s.services.commands.getDefaultCommand with
  | none => { s with stdout := s.stdout ++ unknownText s.cmdLine, pc := .loop }
  | some cmd =>
    match s.result components cmd with
    | .ok text =>
      s.dispatch components cmd (unknownText s.cmdLine ++ resultText (.ok text)) .loop
    | .error _ => s.dispatch components cmd (unknownText s.cmdLine) .terminated

/-- A step of `runThd`. -/
def runThd (components : Components K W) (s : Console K W) : Option (Console K W) :=
  match s.pc with
  | .loop => some (if s.runThdFlg then { s with pc := .checkQuit } else s.finish)
  | .checkQuit =>
    some <| if s.services.quitFlg then s.finish
      else { s with stdout := s.stdout ++ prompt, pc := .getline }
  | .getline =>
    match Lines.uncons newline s.stdin with
    | some (line, rest) =>
      some { s with
        cmdLine := line, stdin := rest, lines := s.lines ++ [line]
        pc := if line = [] then .loop else .findCommand }
    | none => if s.eof then some { s with cmdLine := s.stdin, stdin := [] }.finish else none
  | .findCommand =>
    some <| match s.services.commands.findCommand (firstWord s.cmdLine) with
      | some cmd => { s with pc := .doCmd cmd }
      | none => { s with pc := .unknown }
  | .doCmd cmd => some (s.dispatch components cmd (resultText (s.result components cmd)) .loop)
  | .unknown => some (s.callDefault components)
  | .finished | .terminated => none

def step (components : Components K W) (s : Console K W) : Action K W → Option (Console K W)
  | .type c =>
    if s.eof then none else some { s with stdin := s.stdin ++ [c], typed := s.typed ++ [c] }
  | .close => some { s with eof := true }
  | .runThd => s.runThd components
  | .deactivate =>
    match s.deactivate with
    | .active => some { s with runThdFlg := false, deactivate := .joining }
    | .joining | .returned => none
  | .join =>
    match s.deactivate, s.pc with
    | .joining, .finished => some { s with deactivate := .returned }
    | _, _ => none
  | .addCommand cmdStr cmd =>
    some { s with services.commands := (s.services.commands.addCommand cmdStr cmd).1 }
  | .removeCommand cmdStr =>
    some { s with services.commands := (s.services.commands.removeCommand cmdStr).1 }
  | .work world => some { s with services.world := world }

/-! ### All that a step can do -/

inductive Works (components : Components K W) (s : Console K W) : Console K W → Prop
  | goesRound (hpc : s.pc = .loop) (hrun : s.runThdFlg = true) :
      Works components s { s with pc := .checkQuit }
  | stops (hpc : s.pc = .loop) (hrun : s.runThdFlg = false) : Works components s s.finish
  | quits (hpc : s.pc = .checkQuit) (hquit : s.services.quitFlg = true) :
      Works components s s.finish
  | prompts (hpc : s.pc = .checkQuit) (hquit : s.services.quitFlg = false) :
      Works components s { s with stdout := s.stdout ++ prompt, pc := .getline }
  | skips {rest : StdString} (hpc : s.pc = .getline) (hstdin : s.stdin = newline :: rest) :
      Works components s
        { s with cmdLine := [], stdin := rest, lines := s.lines ++ [[]], pc := .loop }
  | reads {line rest : StdString} (hpc : s.pc = .getline)
      (hstdin : s.stdin = line ++ newline :: rest) (hline : newline ∉ line) (hne : line ≠ []) :
      Works components s
        { s with cmdLine := line, stdin := rest, lines := s.lines ++ [line], pc := .findCommand }
  | ends (hpc : s.pc = .getline) (hstdin : newline ∉ s.stdin) (heof : s.eof = true) :
      Works components s { s with cmdLine := s.stdin, stdin := [] }.finish
  | finds {cmd : Command K} (hpc : s.pc = .findCommand)
      (hfind : s.services.commands.findCommand (firstWord s.cmdLine) = some cmd) :
      Works components s { s with pc := .doCmd cmd }
  | misses (hpc : s.pc = .findCommand)
      (hfind : s.services.commands.findCommand (firstWord s.cmdLine) = none) :
      Works components s { s with pc := .unknown }
  | calls {cmd : Command K} (hpc : s.pc = .doCmd cmd) :
      Works components s (s.dispatch components cmd (resultText (s.result components cmd)) .loop)
  | callsDefault (hpc : s.pc = .unknown) : Works components s (s.callDefault components)

theorem works_of_runThd {components : Components K W} {s s' : Console K W}
    (h : s.runThd components = some s') : s.Works components s' := by
  rw [runThd] at h
  cases hpc : s.pc with
  | loop =>
      simp only [hpc, Option.some.injEq] at h
      split_ifs at h with hrun <;> subst h
      · exact .goesRound hpc hrun
      · exact .stops hpc (eq_false_of_ne_true hrun)
  | checkQuit =>
      simp only [hpc, Option.some.injEq] at h
      split_ifs at h with hquit <;> subst h
      · exact .quits hpc hquit
      · exact .prompts hpc (eq_false_of_ne_true hquit)
  | getline =>
      simp only [hpc] at h
      split at h
      · rename_i line rest huncons
        obtain ⟨hstdin, hline⟩ := Lines.uncons_eq_some.mp huncons
        simp only [Option.some.injEq] at h
        subst h
        split_ifs with hempty
        · subst hempty
          exact .skips hpc hstdin
        · exact .reads hpc hstdin hline hempty
      · rename_i huncons
        split_ifs at h with heof
        cases h
        exact .ends hpc (Lines.uncons_eq_none.mp huncons) heof
  | findCommand =>
      simp only [hpc, Option.some.injEq] at h
      split at h <;> subst h
      · exact .finds hpc ‹_›
      · exact .misses hpc ‹_›
  | doCmd cmd =>
      simp only [hpc, Option.some.injEq] at h
      exact h ▸ .calls hpc
  | unknown =>
      simp only [hpc, Option.some.injEq] at h
      exact h ▸ .callsDefault hpc
  | finished | terminated => simp [hpc] at h

inductive Steps (components : Components K W) (s : Console K W) : Action K W → Console K W → Prop
  | types {c : UInt8} (heof : s.eof = false) :
      Steps components s (.type c) { s with stdin := s.stdin ++ [c], typed := s.typed ++ [c] }
  | closes : Steps components s .close { s with eof := true }
  | works {s' : Console K W} (hworks : s.Works components s') : Steps components s .runThd s'
  | deactivates (hactive : s.deactivate = .active) :
      Steps components s .deactivate { s with runThdFlg := false, deactivate := .joining }
  | joins (hjoining : s.deactivate = .joining) (hpc : s.pc = .finished) :
      Steps components s .join { s with deactivate := .returned }
  | adds {cmdStr : StdString} {cmd : Command K} :
      Steps components s (.addCommand cmdStr cmd)
        { s with services.commands := (s.services.commands.addCommand cmdStr cmd).1 }
  | removes {cmdStr : StdString} :
      Steps components s (.removeCommand cmdStr)
        { s with services.commands := (s.services.commands.removeCommand cmdStr).1 }
  | others {world : W} :
      Steps components s (.work world) { s with services.world := world }

theorem step_cases {components : Components K W} {s s' : Console K W} {a : Action K W}
    (h : s.step components a = some s') : s.Steps components a s' := by
  cases a with
  | type c =>
      rw [step] at h
      split_ifs at h with heof
      cases h
      exact .types (eq_false_of_ne_true heof)
  | close => exact Option.some.inj h ▸ .closes
  | runThd => exact .works (works_of_runThd h)
  | deactivate =>
      rw [step] at h
      split at h
      · cases h
        exact .deactivates ‹_›
      all_goals cases h
  | join =>
      rw [step] at h
      split at h
      · cases h
        exact .joins ‹_› ‹_›
      · cases h
  | addCommand cmdStr cmd => exact Option.some.inj h ▸ .adds
  | removeCommand cmdStr => exact Option.some.inj h ▸ .removes
  | work world => exact Option.some.inj h ▸ .others

end Console

end Shapeware.CommandLineService
