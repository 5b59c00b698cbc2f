/-!
# Grammar errors

What can be wrong with the text of a command, and where.  Positions count characters from the start
of the text.
-/

namespace SlashCommand

/-- The two marks that enclose a value with blanks in it.  Inside double quotes a backslash makes the
next character literal, and ticks take everything verbatim. -/
inductive Quote where
  | double
  | tick
deriving DecidableEq, Repr

/-- The character of a quotation mark. -/
def Quote.char : Quote → Char
  | double => '"'
  | tick => '\x60'

/-- A violation of the grammar of commands. -/
inductive GrammarError where
  | noBindings
  | noSlashStart
  | noMatchingBinding (command : String)
  | mustSelectSubcommand (binding : String)
  | noArgumentPosition (position : Nat)
  | unexpectedFlag (flag : String)
  | multipleEquals
  | missingQuote (quote : Quote)
  | emptyValue
  | unexpectedCharacter (character : Char)
  | missingListEnd
  | missingFieldValue (field : String)
deriving DecidableEq, Repr

/-- The wording of a grammar error. -/
def GrammarError.message : GrammarError → String
  | noBindings => "no command bindings"
  | noSlashStart => "command must start with a `/`"
  | noMatchingBinding command => "`" ++ command ++ "`: no match"
  | mustSelectSubcommand binding => "`" ++ binding ++ "` requires a subcommand"
  | noArgumentPosition position =>
    "command does not accept " ++ toString position ++ " positional arguments"
  | unexpectedFlag flag => "command does not accept flag `" ++ flag ++ "`"
  | multipleEquals => "multiple `=` signs are not allowed"
  | missingQuote .double => "matching double quote expected before end of input"
  | missingQuote .tick => "matching tick quote expected before end of input"
  | emptyValue => "empty values are not allowed"
  | unexpectedCharacter c => "unexpected character `" ++ c.toString ++ "`"
  | missingListEnd => "matching `]` expected before end of input"
  | missingFieldValue field => "value expected for field `" ++ field ++ "`"

/-- A grammar error and the position where it shows. -/
structure ParseError where
  error : GrammarError
  position : Nat
deriving DecidableEq, Repr

namespace ParseError

/-- The wording of an error with its position. -/
def message (e : ParseError) : String :=
  e.error.message ++ " (at position " ++ toString e.position ++ ")"

/-- The command with a caret below the position of the error. -/
def caret (e : ParseError) (command : String) : String :=
  command ++ "\n" ++ String.ofList (List.replicate e.position ' ') ++ "^"

end ParseError

end SlashCommand
