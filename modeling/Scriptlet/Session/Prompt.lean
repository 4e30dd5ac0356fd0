import Scriptlet.Session.Basic
import Scriptlet.Text.Blank

/-!
# Scriptlet — the prompt

Lines typed at the prompt run one after the other in one session. Three words
are commands if they stand alone on their line, blanks aside; every other line is
a source of its own, and complaints about it are forgotten with it.

## Results

* `Request.ofLine`    — what a line asks for.
* `Prompt.enter`      — a line at the prompt: whether it ends, what it shows, the session.
* `Prompt.converse`   — lines up to the one that ends the conversation.
* `enter_blank`       — a blank line does nothing.
-/

namespace Scriptlet

open Scriptlet.Text

/-- The greeting of the prompt. -/
def greeting : String :=
  "jox interactive prompt :: Python backend\nType 'help' for more information."

/-- What is written in front of every line. -/
def promptMark : String := "> "

/-- What the help command shows. -/
def promptHelp : String :=
  "Welcome to the jox interpreter!\n\n"
    ++ "jox is a small dynamically-typed language with numbers, strings, booleans and nil, \n"
    ++ "variables, blocks, if/else, while and for loops.\n\n"
    ++ "Try it out by typing 'var a = 1 + 2;'. Next, try typing 'print a * 3;'. This \n"
    ++ "will print 9. Variables are kept between lines."

/-- The commands of the prompt. -/
inductive Command where
  | exit
  | help
  /-- The end of the input. -/
  | endOfInput
  deriving DecidableEq, Repr

/-- What a line asks for. -/
inductive Request where
  | nothing
  | command (c : Command)
  | source

/-- The command that the end of the input stands for, as a line. -/
def endOfInput : String := "EOF"

/-- The commands by name. -/
def commandNames : List (String × Command) :=
  [("exit", .exit), ("help", .help), (endOfInput, .endOfInput)]

/-- What a line asks for: blanks around it do not matter to a command. -/
def Request.ofLine (line : String) : Request :=
  let word := strip line
  if word = "" then .nothing
  else match commandNames.lookup word with
    | some c => .command c
    | none => .source

namespace Prompt

/-- What a line at the prompt came to: whether the conversation ends, and what the prompt shows. -/
structure Reply where
  stop : Bool := false
  shown : String := ""
  deriving DecidableEq, Repr

/-- The reply to a command. -/
def reply : Command → Reply
  | .exit => { stop := true }
  | .help => { shown := promptHelp ++ "\n" }
  | .endOfInput => { stop := true, shown := "\n" }

/-- Enters a line. An escape that the reporter lets through goes on. -/
def enter (rounds : Nat) (line : String) (s : Session) : Except Escape Reply × Session :=
  match Request.ofLine line with
  | .nothing => (.ok {}, s)
  | .command c => (.ok (reply c), s)
  | .source =>
    let (outcome, s) := s.run rounds line
    let s := s.reset
    let escape? := match outcome with
      | .ok _ => none
      | .error e => some e
    match s.reporter.guard escape? with
    | (.escaped e, reporter) => (.error e, { s with reporter })
    | (_, reporter) => (.ok {}, { s with reporter })

/-- Enters a line and takes what it shows and prints off the session; also whether it ends. -/
def turn (rounds : Nat) (line : String) (s : Session) : String × Bool × Session :=
  let (outcome, s) := enter rounds line s
  let printed := s.machine.text
  let s := { s with machine := s.machine.drained }
  match outcome with
  | .ok reply => (reply.shown ++ printed, reply.stop, s)
  | .error _ => (printed, true, s)

/--
A conversation: before every line the mark is written, and behind it what the
line shows and prints. The end of the input is a command like any other.
-/
def converse (rounds : Nat) : List String → Session → String × Session
  | [], s => ("", s)
  | line :: rest, s =>
    let (shown, stop, s) := turn rounds line s
    let here := promptMark ++ shown
    if stop then (here, s)
    else
      let (there, s) := converse rounds rest s
      (here ++ there, s)

/-- A blank line does nothing. -/
theorem enter_blank {rounds : Nat} {line : String} {s : Session} (h : strip line = "") :
    enter rounds line s = (.ok {}, s) := by
  simp [enter, Request.ofLine, h]

end Prompt

end Scriptlet
