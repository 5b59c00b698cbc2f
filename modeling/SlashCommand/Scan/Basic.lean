import SlashCommand.Binding.Basic
import SlashCommand.Scan.Error
import SlashCommand.Text.Blank

/-!
# Scanning a command

A command is read from left to right by a machine with a cursor.  The machine first descends the
command tree token by token, and then, once the form of the deepest binding is known, reads the
parameters into raw values.  In either phase it can run in two modes: to execute the command, where
every token must be complete, or to complete it while it is being typed, where the end of the text
inside a token stops the machine in the state it is in.

This module has the states of the machine, what a scan knows, and the loop that runs a phase.  A
phase is a function from scans to single steps, together with a measure that each step decreases, so
that the loop ends by construction.
-/

namespace SlashCommand

/-- What the scan is for. -/
inductive ScanMode where
  | execute
  | autocomplete
deriving DecidableEq, Repr

/-- Where the scan stands in the value of a field that is no bracketed list.  `separator` is the
space behind a flag, where one equals sign may stand. -/
inductive ValueStage where
  | separator (equalsSeen : Bool)
  | start
  | bare
  | quoted (quote : Quote)
  | endBare
  | endQuoted (quote : Quote)
deriving DecidableEq, Repr

/-- Where the scan stands in a bracketed list. -/
inductive ListStage where
  | start
  | next
  | elementStart
  | bare
  | quoted (quote : Quote)
  | elementEnd
  | separator
deriving DecidableEq, Repr

/-- Where the scan stands.  States inside a value name the field by its place in the form. -/
inductive ScanState where
  | start
  | command
  | endCommand
  | commandSeparator
  | startParameter
  | parameterSeparator
  | flagDash
  | flagName
  | value (field : Nat) (stage : ValueStage)
  | list (field : Nat) (stage : ListStage)
  | listEnd (field : Nat)
  | rest (field : Nat)
  | failed (error : ParseError)
deriving DecidableEq, Repr

namespace ScanState

/-- The field whose value is being read. -/
def field? : ScanState → Option Nat
  | value f _ => some f
  | list f _ => some f
  | listEnd f => some f
  | rest f => some f
  | _ => none

/-- The quotation mark around the current token. -/
def quote? : ScanState → Option Quote
  | value _ (.quoted q) => some q
  | value _ (.endQuoted q) => some q
  | list _ (.quoted q) => some q
  | _ => none

/-- A value outside brackets is being read. -/
def isValue : ScanState → Bool
  | value .. => true
  | _ => false

/-- The scan is inside brackets. -/
def isListElement : ScanState → Bool
  | list .. => true
  | _ => false

/-- The scan has failed. -/
def isFailed : ScanState → Bool
  | failed _ => true
  | _ => false

end ScanState

/-- A scan: the text, how far it has been read, and what has been found.  `token` is what was read of
the current token and `tokenStart` the position where it begins; `positionals` counts the parameters
that were given by place. -/
structure Scan where
  state : ScanState := .start
  text : List Char
  cursor : Nat := 0
  token : String := ""
  tokenStart : Nat := 0
  appId : String := ""
  location : String := ""
  binding : Option Binding := none
  candidates : List Binding := []
  form : Option Form := none
  positionals : Nat := 0
  values : Values := ∅

namespace Scan

/-- The scan of a text before its first step. -/
def ofText (command : String) : Scan where
  text := command.toList

/-- The text that is scanned. -/
def command (s : Scan) : String := String.ofList s.text

/-- The next character. -/
def peek? (s : Scan) : Option Char := s.text[s.cursor]?

/-- The number of characters not yet read. -/
def remaining (s : Scan) : Nat := s.text.length - s.cursor

/-- The text before a position. -/
def textBefore (s : Scan) (position : Nat) : String := String.ofList (s.text.take position)

/-- The scan has failed. -/
def isFailed (s : Scan) : Bool := s.state.isFailed

/-- The error of a failed scan. -/
def error? (s : Scan) : Option ParseError :=
  match s.state with
  | .failed e => some e
  | _ => none

/-- The field whose value is being read. -/
def currentField? (s : Scan) : Option Field := do
  let i ← s.state.field?
  let form ← s.form
  form.fields[i]?

/-- Fails at the cursor. -/
def fail (s : Scan) (e : GrammarError) : Scan := { s with state := .failed ⟨e, s.cursor⟩ }

/-- Moves to another state. -/
def goto (s : Scan) (state : ScanState) : Scan := { s with state := state }

/-- Moves the cursor over a character. -/
def advance (s : Scan) : Scan := { s with cursor := s.cursor + 1 }

/-- Starts a token at the cursor. -/
def beginToken (s : Scan) : Scan := { s with token := "", tokenStart := s.cursor }

/-- Reads a character into the token. -/
def push (s : Scan) (c : Char) : Scan :=
  { s with token := s.token.push c, cursor := s.cursor + 1 }

/-- Drops the token that was read. -/
def clearToken (s : Scan) : Scan := { s with token := "" }

/-- Lets the token start at the cursor, whatever of it was read. -/
def markToken (s : Scan) : Scan := { s with tokenStart := s.cursor }

/-- Gives a field a value, replacing what it had. -/
def assign (s : Scan) (name : String) (v : Value) : Scan :=
  { s with values := s.values.insert name v }

/-- Attaches the form of the matched binding. -/
def withForm (s : Scan) (form : Form) : Scan := { s with form := some form }

/-- Fails where the matched binding has subcommands. -/
def requireLeaf (s : Scan) : Scan :=
  match s.binding with
  | some b => if !b.isLeaf && !s.isFailed then s.fail (.mustSelectSubcommand b.label) else s
  | none => s

/-- The outcome of a single step. -/
inductive Step where
  | next (s : Scan)
  | stop (s : Scan)
  | fail (s : Scan) (error : GrammarError)

/-- Makes steps until one stops or fails. -/
def run (step : Scan → Step) (measure : Scan → Nat)
    (decreases : ∀ {s s'}, step s = .next s' → measure s' < measure s) (s : Scan) : Scan :=
  match _taken : step s with
  | .next s' => run step measure decreases s'
  | .stop s' => s'
  | .fail s' e => s'.fail e
termination_by measure s
decreasing_by exact decreases _taken

theorem cursor_lt_of_peek? {s : Scan} {c : Char} (h : s.peek? = some c) :
    s.cursor < s.text.length :=
  (List.getElem?_eq_some_iff.mp h).1

end Scan

end SlashCommand
