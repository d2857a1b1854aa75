import Shapeware.CommandLineService.Session

/-!
# The command that sends messages

`MsgCmd` registers the command `c`, which sends one word of the command line, or the content of a file.
What was typed as `"c t"` and a word is what the message service is given, one message for each line.
-/

namespace Shapeware.Examples

open CommandLineService (isSpace newline firstWord setw Components Services Console)
open CommandService (Command Imp)

/-- What `doCmd` writes, and what it passes to the message service. -/
structure Reply where
  ostr : StdString
  message : Option StdString := none
deriving DecidableEq

def usage : StdString :=
  setw 15 (bytes "c h") ++ bytes "show help" ++ [newline] ++
    setw 15 (bytes "c f file") ++ bytes "send content of file" ++ [newline] ++
    setw 15 (bytes "c t \"text\"") ++ bytes "send text" ++ [newline] ++ [newline]

/-- `Cmd::doCmd`. The macro `PAR` writes the name of a variable and its value; a file that can be
opened has a content. -/
def doCmd (par : StdString → StdString → StdString) (files : StdString → Option StdString)
    (params : StdString) : Reply :=
  let cmd := Lines.extract isSpace params
  let subcmd := Lines.extract isSpace cmd.2
  if subcmd.1 = bytes "h" then { ostr := usage }
  else if subcmd.1 = bytes "f" then
    let fname := (Lines.extract isSpace subcmd.2).1
    match files fname with
    | some fileContent =>
      if fileContent ≠ [] then { ostr := [], message := some fileContent }
      else { ostr := bytes "Empty file: " ++ par (bytes "fname") fname }
    | none => { ostr := bytes "Cannot open: " ++ par (bytes "fname") fname }
  else if subcmd.1 = bytes "t" then
    let text := (Lines.extract isSpace subcmd.2).1
    if text ≠ [] then { ostr := [], message := some text }
    else { ostr := bytes "Add text to send" }
  else { ostr := bytes "usage: " ++ [newline] ++ usage }

variable {par : StdString → StdString → StdString} {files : StdString → Option StdString}
  {params message w : StdString}

/-- The words of the command line, `[]` where there are no more. -/
def word (params : StdString) (i : Nat) : StdString := ((Lines.words isSpace params)[i]?).getD []

theorem extract_word (params : StdString) :
    let cmd := Lines.extract isSpace params
    let subcmd := Lines.extract isSpace cmd.2
    subcmd.1 = word params 1 ∧ (Lines.extract isSpace subcmd.2).1 = word params 2 := by
  have hcmd := (Lines.extract_eq isSpace params).2
  have hsubcmd := Lines.extract_eq isSpace (Lines.extract isSpace params).2
  have harg := (Lines.extract_eq isSpace
    (Lines.extract isSpace (Lines.extract isSpace params).2).2).1
  rw [hcmd] at hsubcmd
  rw [hsubcmd.2] at harg
  refine ⟨hsubcmd.1.trans ?_, harg.trans ?_⟩
  · simp [word, List.headD_eq_head?_getD]
  · simp [word, List.headD_eq_head?_getD]

/-- What is sent: the word after `t`, or the content of the file that is named after `f`, but nothing
empty. -/
theorem doCmd_message : (doCmd par files params).message = some message ↔ message ≠ [] ∧
    (word params 1 = bytes "t" ∧ word params 2 = message ∨
      word params 1 = bytes "f" ∧ files (word params 2) = some message) := by
  obtain ⟨hsubcmd, harg⟩ := extract_word params
  have hht : bytes "h" ≠ bytes "t" := by decide +kernel
  have hhf : bytes "h" ≠ bytes "f" := by decide +kernel
  have hft : bytes "f" ≠ bytes "t" := by decide +kernel
  simp only [doCmd, hsubcmd, harg]
  split_ifs with hh hf ht hempty
  · simp [hh, hht, hhf]
  · cases hfile : files (word params 2) with
    | none => simp [hf, hft]
    | some content =>
        by_cases hcontent : content = []
        · simp only [hcontent, ne_eq, not_true_eq_false, if_false, hf, hft, false_and, true_and,
            false_or, reduceCtorEq, Option.some.injEq, false_iff]
          exact fun ⟨hne, heq⟩ => hne heq.symm
        · simp only [hcontent, ne_eq, not_false_eq_true, if_true, hf, hft, false_and, true_and,
            false_or, Option.some.injEq]
          exact ⟨fun heq => ⟨heq ▸ hcontent, heq⟩, And.right⟩
  · simp only [ht, hft.symm, Option.some.injEq, true_and, false_and, or_false]
    exact ⟨fun heq => ⟨heq ▸ hempty, heq⟩, And.right⟩
  · simp only [ht, hft.symm, true_and, false_and, or_false, false_iff]
    exact fun ⟨hne, heq⟩ => hne (heq ▸ not_not.mp hempty)
  · simp [hf, ht]

/-! ### From the command line to the messages -/

/-- The component, which works on the messages that it has sent. -/
def msgCmd (par : StdString → StdString → StdString) (files : StdString → Option StdString) :
    Components Unit (List StdString) where
  doCmd _ params sent :=
    let reply := doCmd par files params
    (.ok reply.ostr, sent ++ reply.message.toList)
  getHelp _ := bytes "to communicate with msg. Type c h for help"

/-- What a line sends. -/
def lineMessage (par : StdString → StdString → StdString) (files : StdString → Option StdString)
    (commands : Imp (Command Unit)) (line : StdString) : Option StdString :=
  match commands.findCommand (firstWord line) with
  | some (.own _ _) => (doCmd par files line).message
  | _ => none

/-- The line that sends `w`. -/
def textLine (w : StdString) : StdString := bytes "c t " ++ w

variable {s s' : Services Unit (List StdString)} {line out : StdString}
  {lines executed ws : List StdString} {activation : Nat}

theorem eval_world (s : Services Unit (List StdString)) (line : StdString) :
    ((msgCmd par files).eval s line).1.world =
      s.world ++ (lineMessage par files s.commands line).toList := by
  rw [Components.eval, lineMessage]
  by_cases hline : line = []
  · subst hline
    have hnone : (doCmd par files []).message = none := by
      have hword : word [] 1 = [] := rfl
      exact Option.eq_none_iff_forall_not_mem.mpr fun message hmessage => by
        obtain ⟨-, ht | hf⟩ := doCmd_message.mp hmessage
        · exact absurd (hword ▸ ht.1) (by decide +kernel)
        · exact absurd (hword ▸ hf.1) (by decide +kernel)
    rw [if_pos rfl, hnone]
    split <;> simp
  · rw [if_neg hline]
    cases hcmd : s.commands.findCommand (firstWord line) with
    | none => simp
    | some cmd => cases cmd <;> simp [Components.call, msgCmd]

theorem session_world
    (h : (msgCmd par files).session s lines = (executed, s', out)) :
    s'.world = s.world ++ executed.filterMap (lineMessage par files s.commands) := by
  induction lines generalizing s executed out with
  | nil =>
      cases h
      simp
  | cons line lines ih =>
      rw [Components.session] at h
      split_ifs at h
      · cases h
        simp
      · simp only [Prod.mk.injEq] at h
        obtain ⟨rfl, hs', -⟩ := h
        have hrest := ih (Prod.ext rfl (Prod.ext hs' rfl))
        rw [hrest, eval_world, Components.eval_commands, List.append_assoc, List.filterMap_cons]
        cases lineMessage par files s.commands line <;> rfl

theorem words_textLine (hw : w ≠ []) (hblank : ∀ c ∈ w, isSpace c = false) :
    Lines.words isSpace (textLine w) = [bytes "c", bytes "t", w] := by
  have htext : bytes "c t " = bytes "c" ++ ' '.toUInt8 :: (bytes "t" ++ [' '.toUInt8]) := by
    decide +kernel
  have hspace : isSpace ' '.toUInt8 = true := rfl
  have hline : textLine w = bytes "c" ++ ' '.toUInt8 :: (bytes "t" ++ ' '.toUInt8 :: w) := by
    rw [textLine, htext]
    simp only [List.append_assoc, List.cons_append, List.nil_append]
  rw [hline, Lines.words_append_cons _ _ hspace, Lines.words_append_cons _ _ hspace,
    Lines.words_of_notBlank (by decide +kernel) (by decide +kernel),
    Lines.words_of_notBlank (by decide +kernel) (by decide +kernel),
    Lines.words_of_notBlank hblank hw]
  rfl

theorem firstWord_textLine (hw : w ≠ []) (hblank : ∀ c ∈ w, isSpace c = false) :
    firstWord (textLine w) = bytes "c" := by
  rw [firstWord, (Lines.extract_eq isSpace _).1, words_textLine hw hblank]
  rfl

theorem newline_notMem_textLine (hblank : ∀ c ∈ w, isSpace c = false) :
    newline ∉ textLine w := by
  rw [textLine, List.mem_append, not_or]
  exact ⟨by decide +kernel, fun hmem => absurd (hblank newline hmem) (by decide)⟩

theorem lineMessage_textLine {commands : Imp (Command Unit)}
    (hadded : commands.findCommand (bytes "c") = some (.own () activation)) (hw : w ≠ [])
    (hblank : ∀ c ∈ w, isSpace c = false) :
    lineMessage par files commands (textLine w) = some w := by
  rw [lineMessage, firstWord_textLine hw hblank, hadded]
  refine doCmd_message.mpr ⟨hw, .inl ⟨?_, ?_⟩⟩
  · rw [word, words_textLine hw hblank]
    rfl
  · rw [word, words_textLine hw hblank]
    rfl

/-- Texts do not quit. -/
theorem session_texts
    (hadded : s.commands.findCommand (bytes "c") = some (.own () activation))
    (hws : ∀ w ∈ ws, w ≠ [] ∧ ∀ c ∈ w, isSpace c = false) (hquit : s.quitFlg = false)
    (h : (msgCmd par files).session s (ws.map textLine) = (executed, s', out)) :
    s'.quitFlg = false := by
  induction ws generalizing s executed out with
  | nil =>
      cases h
      exact hquit
  | cons w ws ih =>
      rw [List.forall_mem_cons] at hws
      have hword := firstWord_textLine hws.1.1 hws.1.2
      rw [List.map_cons, Components.session, hquit, if_neg Bool.false_ne_true] at h
      simp only [Prod.mk.injEq] at h
      refine ih ?_ hws.2 ?_ (Prod.ext rfl (Prod.ext h.2.1 rfl))
      · rw [Components.eval_commands, hadded]
      · rw [Components.eval, hword, hadded]
        split_ifs
        · exact hquit
        · exact hquit

/-! ### A session -/

/-- What is sent is what the executed lines say. -/
structure SendsTyped (par : StdString → StdString → StdString) (files : StdString → Option StdString)
    (sent : List StdString) (start : Services Unit (List StdString))
    (s : Console Unit (List StdString)) : Prop where
  sent_eq : s.services.world = sent ++ s.lines.filterMap (lineMessage par files start.commands)
  all : s.services.quitFlg = false → s.lines = Lines.complete newline s.typed
  texts (ws : List StdString) : (∀ w ∈ ws, w ≠ [] ∧ ∀ c ∈ w, isSpace c = false) →
    s.typed = Lines.unlines newline (ws.map textLine) → s.services.world = sent ++ ws

theorem sendsTyped_of_runsSession {start : Services Unit (List StdString)}
    {s : Console Unit (List StdString)} (hquit : start.quitFlg = false)
    (hadded : start.commands.findCommand (bytes "c") = some (.own () activation))
    (h : s.RunsSession (msgCmd par files) start) :
    SendsTyped par files start.world start s := by
  obtain ⟨out, hsession, -⟩ := h
  have hall : s.services.quitFlg = false → s.lines = Lines.complete newline s.typed :=
    (msgCmd par files).session_all hsession
  refine ⟨session_world hsession, hall, fun ws hws htyped => ?_⟩
  have hlines : Lines.complete newline s.typed = ws.map textLine := by
    have hls : ∀ l ∈ ws.map textLine, newline ∉ l :=
      List.forall_mem_map.mpr fun w hw => newline_notMem_textLine (hws w hw).2
    rw [htyped, ← List.append_nil (Lines.unlines _ _)]
    exact Lines.complete_unlines hls List.not_mem_nil
  have hmessages : (ws.map textLine).filterMap (lineMessage par files start.commands) = ws := by
    rw [List.filterMap_map]
    exact (List.filterMap_congr fun w hw =>
      lineMessage_textLine hadded (hws w hw).1 (hws w hw).2).trans List.filterMap_some
  rw [hlines] at hsession
  rw [session_world hsession, hall (session_texts hadded hws hquit hsession), hlines, hmessages]

/-- **What is typed is sent**: the messages are those of the lines that were executed, in their order,
and these are all lines unless one quits. Lines of the form `"c t"` and a word send the words. -/
theorem sends_typed {added : List (StdString × Command Unit)} {sent : List StdString}
    {s : Console Unit (List StdString)}
    (h : Runs.Reachable (Console.step (msgCmd par files)) Console.Quiet (Console.init added sent) s)
    (hrun : s.runThdFlg = true)
    (hadded : (Console.init added sent).services.commands.findCommand (bytes "c") =
      some (.own () activation)) :
    (s.AtRest → SendsTyped par files sent (Console.init added sent).services s) ∧
      Runs.Leads (Console.step (msgCmd par files)) Console.OwnStep s fun t =>
        t.typed = s.typed ∧ SendsTyped par files sent (Console.init added sent).services t := by
  obtain ⟨hsound, hsession⟩ := Console.inSession_of_reachable h
  refine ⟨fun hrest => ?_, ?_⟩
  · exact sendsTyped_of_runsSession rfl hadded
      (Console.runsSession_of_atRest hsound hsession hrest hrun)
  · obtain ⟨t, hown, htyped, hruns⟩ := Console.leads_runsSession h hrun
    exact ⟨t, hown, htyped, sendsTyped_of_runsSession rfl hadded hruns⟩

/-- A text, an empty line, a text without its word and one more text. -/
theorem sends_typed_two : ∃ s : Console Unit (List StdString),
    s.typed = bytes "c t hello\n\nc t\n c  t you\nc t" ∧
      s.services.world = [bytes "hello", bytes "you"] := by
  have hrun : ∃ s : Console Unit (List StdString),
      Runs.Reachable (Console.step (msgCmd (fun _ _ => []) fun _ => none)) Console.Quiet
        (Console.init [(bytes "c", .own () 0)] []) s ∧
        s.typed = bytes "c t hello\n\nc t\n c  t you\nc t" ∧ s.runThdFlg = true ∧
        s.pc = .getline ∧ newline ∉ s.stdin ∧ s.eof = false ∧
        s.lines = [bytes "c t hello", [], bytes "c t", bytes " c  t you"] :=
    Runs.exists_reachable ((bytes "c t hello\n\nc t\n c  t you\nc t").map .type ++
      List.replicate 20 .runThd) (by decide +kernel)
  obtain ⟨s, hs, htyped, hflag, hpc, hstdin, heof, hlines⟩ := hrun
  have hadded : (Console.init [(bytes "c", .own () 0)] ([] : List StdString)).services.commands.findCommand
      (bytes "c") = some (.own () 0) := by decide +kernel
  have hsent := ((sends_typed hs hflag hadded).1 (.inr ⟨hpc, hstdin, heof⟩)).sent_eq
  refine ⟨s, htyped, hsent.trans ?_⟩
  rw [hlines]
  decide +kernel

end Shapeware.Examples
