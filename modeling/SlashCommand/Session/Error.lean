import SlashCommand.Expansion.Error
import SlashCommand.FormCache.Fetch
import SlashCommand.Scan.Error

/-!
# Command errors

Why a command does not become a request.  Each error has a wording and a kind; the kind is the same
for all errors that a reader would tell in one sentence, and is what a message in other words starts from.
-/

namespace SlashCommand

/-- The kinds of failure. -/
inductive ErrorKind where
  | noBindings
  | noSlashStart
  | noMatchingBinding
  | mustSelectSubcommand
  | noArgumentPosition
  | unexpectedFlag
  | multipleEquals
  | missingQuote
  | missingTick
  | emptyValue
  | unexpectedCharacter
  | missingListEnd
  | missingFieldValue
  | unknownOption
  | unknownUser
  | unknownChannel
  | duplicateOption
  | duplicateUser
  | duplicateChannel
  | invalidBool
  | lookupFailed
  | requiredFieldsMissing
  | formFetch
  | missingCall
deriving DecidableEq, Repr

/-- The kind of a grammar error. -/
def GrammarError.kind : GrammarError → ErrorKind
  | noBindings => .noBindings
  | noSlashStart => .noSlashStart
  | noMatchingBinding _ => .noMatchingBinding
  | mustSelectSubcommand _ => .mustSelectSubcommand
  | noArgumentPosition _ => .noArgumentPosition
  | unexpectedFlag _ => .unexpectedFlag
  | multipleEquals => .multipleEquals
  | missingQuote .double => .missingQuote
  | missingQuote .tick => .missingTick
  | emptyValue => .emptyValue
  | unexpectedCharacter _ => .unexpectedCharacter
  | missingListEnd => .missingListEnd
  | missingFieldValue _ => .missingFieldValue

/-- The kind of an expansion error. -/
def ExpansionError.kind (e : ExpansionError) : ErrorKind :=
  match e.fault with
  | .unknown .option _ => .unknownOption
  | .unknown .user _ => .unknownUser
  | .unknown .channel _ => .unknownChannel
  | .duplicate .option _ => .duplicateOption
  | .duplicate .user _ => .duplicateUser
  | .duplicate .channel _ => .duplicateChannel
  | .invalidBool _ => .invalidBool
  | .lookupFailed _ => .lookupFailed

/-- Why a command does not become a request. -/
inductive CommandError where
  | parse (error : ParseError)
  | expansion (errors : List ExpansionError)
  | requiredFieldsMissing (flags : List String)
  | form (error : FormError)
  | missingCall (location : String)
deriving DecidableEq, Repr

namespace CommandError

/-- The wording of a command error; expansion errors have a line each. -/
def message : CommandError → String
  | parse e => "parsing error: " ++ e.message
  | expansion errors => "\n".intercalate (errors.map ExpansionError.message)
  | requiredFieldsMissing flags => "required fields missing: `" ++ ", ".intercalate flags ++ "`"
  | form e => e.message
  | missingCall location => "no call defined for `" ++ location ++ "`"

/-- The kind of a command error; of several expansion errors the first counts. -/
def kind : CommandError → ErrorKind
  | parse e => e.error.kind
  | expansion errors => (errors.head?.map ExpansionError.kind).getD .lookupFailed
  | requiredFieldsMissing _ => .requiredFieldsMissing
  | form _ => .formFetch
  | missingCall _ => .missingCall

/-- Where a grammar error shows. -/
def position? : CommandError → Option Nat
  | parse e => some e.position
  | _ => none

end CommandError

end SlashCommand
