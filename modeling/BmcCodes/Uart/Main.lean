import BmcCodes.Lib.CString
import BmcCodes.Lib.Framing
import BmcCodes.Uart.Receive
import BmcCodes.Uart.UartRaw

/-!
# Commands to the display

`main` of `uart_raw.c` opens the line to the display, sets it up, and under the options
`key` and `main` writes one command, which ends in three bytes `0xff`.  It reports what
the two writes took, but goes on after a short one, and returns 0 all the same.

The display gets what all runs of the program have written, one after the other.  It has
then received the commands that were given, each as a frame of its own, if and only if no
run reported an error (`display_receives_iff`).
-/

namespace BmcCodes.Uart.UartRaw

open BmcCodes.Lib
open BmcCodes.Lib.CString (strncmp strncmp_eq_zero_comm strncmp_word_eq_zero_iff)

/-! ## `main` -/

/-- The bytes of a string literal. -/
def chars (cs : List Char) : List Byte := cs.map letter

/-- The arrays `key`, `main` and `over`. -/
def key : List Byte := chars ['p', 'a', 'g', 'e', ' ', 'k', 'e', 'y']
def mainPage : List Byte := chars ['p', 'a', 'g', 'e', ' ', 'm', 'a', 'i', 'n']
def overChars : List Byte := [0xff, 0xff, 0xff]

def optKey : List Byte := chars ['k', 'e', 'y']
def optMain : List Byte := chars ['m', 'a', 'i', 'n']
def optRecv : List Byte := chars ['r', 'e', 'c', 'v']

/-- `LCD_UART_NO`. -/
def lcdUartNo : Int := 4

/-- What a `write` takes of its data, unless it fails. -/
abbrev Taken (data : List Byte) : Type := Option (Fin (data.length + 1))

inductive MainEvent where
  | open (name : String)
  | usage
  /-- `strerror(errno)` is printed. -/
  | strerror
  /-- The line is set up. -/
  | line (event : Event)
  | write (data : List Byte) (taken : Taken data)
  /-- A text about a write, and whether it says that all went well. -/
  | report (ok : Bool) (text : String)
  | recv
  /-- `rev: ` and the string in the buffer. -/
  | rev (scan : Option (List Byte))
  | close

/-- How `main` ends, if it does. -/
inductive Fate where
  | returned (status : Int)
  | exited (status : Int)
  | receiving
  deriving DecidableEq, Repr

/-- What one run of the program meets with. -/
structure Run where
  argc : Int
  /-- `argv[1]`. -/
  opt : List Byte
  opened : String → Int
  tcgetattr : Int
  tcsetattr : Termios → Int
  write : (data : List Byte) → Taken data
  readings : List Reading

def openUartDev (opened : String → Int) (bUartNum : Int) : List MainEvent × Int :=
  if bUartNum = 3 then ([.open "/dev/ttyS1"], opened "/dev/ttyS1")
  else if bUartNum = 4 then ([.open "/dev/ttyS2"], opened "/dev/ttyS2")
  else if bUartNum = 5 then ([.open "/dev/ttyS0"], opened "/dev/ttyS0")
  else ([], -1)

/-- What `write` returns. -/
def Run.size (run : Run) (data : List Byte) : Int :=
  match run.write data with
  | none => -1
  | some n => n.val

/-- One write, and the report about it. -/
def writeReport (run : Run) (data : List Byte) (errorText okText : String) :
    List MainEvent :=
  [.write data (run.write data),
    if data.length ≠ run.size data then .report false errorText else .report true okText]

def writeOver (run : Run) : List MainEvent :=
  writeReport run overChars "write over char error!\n" "write over char ok\n"

/-- `!strncmp(opt, word, strlen(word))`. -/
def optIs (opt word : List Byte) : Bool := strncmp word.length (opt ++ [0]) word = 0

variable (hdr : Header)

def main (run : Run) : List MainEvent × Fate :=
  let (events, fd) := openUartDev run.opened lcdUartNo
  if run.argc ≠ 2 then (events ++ [.usage], .exited (-1))
  else if fd < 0 then (events ++ [.strerror], .returned (-1))
  else
    -- what `set_opt` returns is not looked at
    let setUp := setOpt hdr run.tcgetattr run.tcsetattr 9600 8 (letter 'N') 1
    let events := events ++ setUp.2.map .line
    if optIs run.opt optKey then
      let sent := writeReport run key "write: 'page key' error!\n" "write page key ok\n"
      (events ++ sent ++ writeOver run ++ [.close], .returned 0)
    else if optIs run.opt optMain then
      let sent := writeReport run mainPage "write: 'page main' error!\n" "write page main ok\n"
      (events ++ sent ++ writeOver run ++ [.close], .returned 0)
    else if optIs run.opt optRecv then
      let rev := List.replicate revSize 0
      (events ++ .recv :: (recvLoop rev run.readings).map .rev, .receiving)
    else (events ++ [.usage, .close], .exited (-1))

theorem optIs_iff {word : List Byte} (hword : 0 ∉ word) (opt : List Byte) :
    optIs opt word = true ↔ word <+: opt := by
  rw [optIs, decide_eq_true_eq, strncmp_eq_zero_comm, strncmp_word_eq_zero_iff hword]

/-! ## What goes over the line -/

/-- The bytes that the line has taken. -/
def wire (events : List MainEvent) : List Byte :=
  events.flatMap fun
    | .write data taken => data.take (taken.elim 0 Fin.val)
    | _ => []

/-- The reports say that all went well. -/
def AllOk (events : List MainEvent) : Prop := ∀ text, .report false text ∉ events

/-- The command that a run is to give, if any. -/
def commands (run : Run) : List (List Byte) :=
  if run.argc = 2 ∧ 0 ≤ run.opened "/dev/ttyS2" then
    if optKey <+: run.opt then [key]
    else if optMain <+: run.opt then [mainPage]
    else []
  else []

theorem wire_append (events events' : List MainEvent) :
    wire (events ++ events') = wire events ++ wire events' := List.flatMap_append

theorem allOk_append (events events' : List MainEvent) :
    AllOk (events ++ events') ↔ AllOk events ∧ AllOk events' := by
  simp only [AllOk, List.mem_append, not_or, forall_and]

/-- Nothing is written, and no error reported. -/
def Quiet (events : List MainEvent) : Prop := wire events = [] ∧ AllOk events

theorem Quiet.append {events events' : List MainEvent} (h : Quiet events)
    (h' : Quiet events') : Quiet (events ++ events') := by
  refine ⟨?_, (allOk_append _ _).mpr ⟨h.2, h'.2⟩⟩
  rw [wire_append, h.1, h'.1, List.append_nil]

theorem quiet_openUartDev (opened : String → Int) (bUartNum : Int) :
    Quiet (openUartDev opened bUartNum).1 := by
  unfold openUartDev
  split_ifs <;> simp [Quiet, wire, AllOk]

theorem quiet_line (events : List Event) : Quiet (events.map .line) := by
  constructor
  · simp [wire, List.flatMap_map]
  · simp [AllOk]

theorem quiet_rev (scans : List (Option (List Byte))) :
    Quiet (.recv :: scans.map .rev) := by
  constructor
  · simp [wire, List.flatMap_map]
  · simp [AllOk]

/-! ## One write -/

/-- The bytes of `data` that the line has taken. -/
def Run.taken (run : Run) (data : List Byte) : List Byte :=
  data.take ((run.write data).elim 0 Fin.val)

theorem wire_writeReport (run : Run) (data : List Byte) (errorText okText : String) :
    wire (writeReport run data errorText okText) = run.taken data := by
  unfold writeReport
  split_ifs <;> simp [wire, Run.taken]

/-- The report says whether everything was taken. -/
theorem allOk_writeReport_iff (run : Run) {data : List Byte} (hdata : data ≠ [])
    (errorText okText : String) :
    AllOk (writeReport run data errorText okText) ↔ run.taken data = data := by
  have hpos := List.length_pos_iff.mpr hdata
  rw [Run.taken, List.take_eq_self_iff]
  unfold writeReport
  cases hwrite : run.write data with
  | none =>
      have hsize : (data.length : Int) ≠ run.size data := by
        rw [Run.size, hwrite]
        dsimp only
        omega
      rw [if_pos hsize]
      refine iff_of_false (fun h => h errorText (by simp)) ?_
      simpa using hdata
  | some n =>
      have hn := n.isLt
      have hsize : run.size data = n.val := by rw [Run.size, hwrite]
      rw [hsize, Option.elim_some]
      by_cases hall : data.length = n.val
      · rw [if_neg (by omega)]
        exact iff_of_true (by simp [AllOk]) (by omega)
      · rw [if_pos (by omega)]
        exact iff_of_false (fun h => h errorText (by simp)) (by omega)

/-! ## One run -/

/-- What a run can do: give a command, with the terminator behind it, or write nothing. -/
theorem main_cases (run : Run) :
    (∃ cmd errorText okText before, commands run = [cmd] ∧ cmd ∈ [key, mainPage] ∧
        Quiet before ∧
        main hdr run =
          (before ++ writeReport run cmd errorText okText ++ writeOver run ++ [.close],
            .returned 0)) ∨
      commands run = [] ∧ Quiet (main hdr run).1 ∧ (main hdr run).2 ≠ .returned 0 := by
  have hopen : openUartDev run.opened lcdUartNo =
      ([.open "/dev/ttyS2"], run.opened "/dev/ttyS2") := rfl
  have hquiet := quiet_openUartDev run.opened lcdUartNo
  rw [hopen] at hquiet
  have hend : ∀ last : List MainEvent, wire last = [] → AllOk last →
      Quiet ([.open "/dev/ttyS2"] ++ last) := fun last hwire hok => hquiet.append ⟨hwire, hok⟩
  unfold main
  rw [hopen]
  dsimp only
  by_cases hargc : run.argc ≠ 2
  · rw [if_pos hargc]
    exact .inr ⟨if_neg fun h => hargc h.1, hend _ rfl (by simp [AllOk]), by decide⟩
  rw [if_neg hargc]
  by_cases hfd : run.opened "/dev/ttyS2" < 0
  · rw [if_pos hfd]
    exact .inr ⟨if_neg (by omega), hend _ rfl (by simp [AllOk]), by decide⟩
  rw [if_neg hfd]
  have hcommands : commands run = if optKey <+: run.opt then [key]
      else if optMain <+: run.opt then [mainPage] else [] := if_pos (by omega)
  have hsetUp := hquiet.append
    (quiet_line (setOpt hdr run.tcgetattr run.tcsetattr 9600 8 (letter 'N') 1).2)
  simp only [hcommands, optIs_iff (show 0 ∉ optKey by decide),
    optIs_iff (show 0 ∉ optMain by decide), optIs_iff (show 0 ∉ optRecv by decide)]
  by_cases hkey : optKey <+: run.opt
  · rw [if_pos hkey, if_pos hkey]
    exact .inl ⟨key, _, _, _, rfl, by simp, hsetUp, rfl⟩
  rw [if_neg hkey, if_neg hkey]
  by_cases hmain : optMain <+: run.opt
  · rw [if_pos hmain, if_pos hmain]
    exact .inl ⟨mainPage, _, _, _, rfl, by simp, hsetUp, rfl⟩
  rw [if_neg hmain, if_neg hmain]
  by_cases hrecv : optRecv <+: run.opt
  · rw [if_pos hrecv]
    exact .inr ⟨rfl, hsetUp.append (quiet_rev _), by simp⟩
  · rw [if_neg hrecv]
    exact .inr ⟨rfl, hsetUp.append ⟨rfl, by simp [AllOk]⟩, by simp⟩

theorem encode_command (cmd : List Byte) : Framing.encode 0xff 3 [cmd] = cmd ++ overChars := by
  rw [Framing.encode, List.flatMap_singleton]
  rfl

theorem wire_close : wire [.close] = [] := rfl

/-- A run loses bytes of its command, or none. -/
theorem wire_main_sublist (run : Run) :
    (wire (main hdr run).1).Sublist (Framing.encode 0xff 3 (commands run)) := by
  rcases main_cases hdr run with ⟨cmd, errorText, okText, before, hcmd, -, hbefore, hmain⟩ |
    ⟨hcmd, hquiet, -⟩
  · rw [hcmd, hmain, wire_append, wire_append, wire_append, hbefore.1, wire_close, writeOver,
      wire_writeReport, wire_writeReport, encode_command, List.nil_append, List.append_nil]
    exact List.Sublist.append (List.take_sublist _ cmd) (List.take_sublist _ overChars)
  · rw [hcmd, hquiet.1]
    exact List.Sublist.refl []

/-- Its reports say whether it has lost some. -/
theorem allOk_main_iff (run : Run) :
    AllOk (main hdr run).1 ↔
      wire (main hdr run).1 = Framing.encode 0xff 3 (commands run) := by
  rcases main_cases hdr run with
    ⟨cmd, errorText, okText, before, hcmd, hmem, hbefore, hmain⟩ | ⟨hcmd, hquiet, -⟩
  · have hcmdNil : cmd ≠ [] := by
      rcases List.mem_pair.mp hmem with rfl | rfl <;> decide
    have hclose : AllOk [.close] := by simp [AllOk]
    rw [hcmd, encode_command, hmain]
    dsimp only
    rw [allOk_append, allOk_append, allOk_append, wire_append, wire_append, wire_append,
      hbefore.1, wire_close, writeOver, wire_writeReport, wire_writeReport,
      allOk_writeReport_iff run hcmdNil, allOk_writeReport_iff run (by decide),
      List.nil_append, List.append_nil]
    constructor
    · rintro ⟨⟨⟨-, hcmd'⟩, hover⟩, -⟩
      rw [hcmd', hover]
    · intro h
      have hlength := congrArg List.length h
      have hle : (run.taken cmd).length ≤ cmd.length := List.length_take_le' ..
      have hle' : (run.taken overChars).length ≤ overChars.length := List.length_take_le' ..
      rw [List.length_append, List.length_append] at hlength
      obtain ⟨hcmd', hover⟩ := List.append_inj h (by omega)
      exact ⟨⟨⟨hbefore.2, hcmd'⟩, hover⟩, hclose⟩
  · rw [hcmd]
    exact iff_of_true hquiet.2 hquiet.1

/-! ## The display -/

/-- **What the display receives** of any number of runs: the commands that they were to
give, each as one frame, and nothing else, if and only if no run has reported an error. -/
theorem display_receives_iff (runs : List Run) :
    Framing.receive 0xff 3 ⟨[], []⟩ (runs.flatMap fun run => wire (main hdr run).1) =
        ⟨runs.flatMap commands, []⟩ ↔
      ∀ run ∈ runs, AllOk (main hdr run).1 := by
  have hwords : ∀ run, ∀ cmd ∈ commands run, (0xff : Byte) ∉ cmd := by
    intro run cmd hcmd
    rcases main_cases hdr run with ⟨cmd', _, _, _, hcmds, hmem, _⟩ | ⟨hcmds, _⟩
    · rw [hcmds, List.mem_singleton] at hcmd
      subst hcmd
      rcases List.mem_pair.mp hmem with rfl | rfl <;> decide
    · rw [hcmds] at hcmd
      exact absurd hcmd List.not_mem_nil
  rw [Framing.receive_lossy_iff (by decide) hwords (wire_main_sublist hdr)]
  exact forall₂_congr fun run _ => (allOk_main_iff hdr run).symm

/-- A run ends with status 0 exactly if it gives a command, whatever becomes of it. -/
theorem main_returned_zero_iff (run : Run) :
    (main hdr run).2 = .returned 0 ↔ commands run ≠ [] := by
  rcases main_cases hdr run with ⟨cmd, _, _, _, hcmd, -, -, hmain⟩ | ⟨hcmd, -, hfate⟩
  · rw [hcmd, hmain]
    exact iff_of_true rfl (List.cons_ne_nil cmd [])
  · exact iff_of_false hfate (not_not.mpr hcmd)

end BmcCodes.Uart.UartRaw
