import SlashCommand.Main
import SlashCommand.Session.Concurrent
import SlashCommand.Files.Tree
import SlashCommand.Proofs.FormCache.Interleaving
import SlashCommand.Proofs.Scan.Prefixes
import SlashCommand.Proofs.Suggestion.Subcommands
import SlashCommand.Proofs.Scan.RoundTrip
import SlashCommand.Proofs.Session.Caching
import SlashCommand.Proofs.Session.Typing
import SlashCommand.Proofs.Session.Execution
import SlashCommand.Proofs.Text.Lowercase
import SlashCommand.Proofs.Database.Insertion
import SlashCommand.Proofs.Datum.Nesting
import SlashCommand.Proofs.Datum.Numeral
import SlashCommand.Proofs.Json.Reading
import SlashCommand.Proofs.Json.RoundTrip
import SlashCommand.Proofs.Wire.Calls
import SlashCommand.Proofs.Wire.Reencoding
import SlashCommand.Proofs.Session.Encoding
import SlashCommand.Proofs.Scan.Positionals
import SlashCommand.Proofs.Scan.FlagNames
import SlashCommand.Proofs.Scan.LastToken
import SlashCommand.Proofs.Scan.Retyping
import SlashCommand.Proofs.Session.Acceptance
import SlashCommand.Proofs.Session.Recognition
import SlashCommand.Proofs.Scan.Rearrangement
import SlashCommand.Proofs.Scan.StoredValues
import SlashCommand.Proofs.Scan.ErrorPositions
import SlashCommand.Proofs.Scan.SplicePoint
import SlashCommand.Proofs.Scan.BoolFlags
import SlashCommand.Proofs.Expansion.Lists
import SlashCommand.Proofs.Suggestion.Listed
import SlashCommand.Proofs.Session.Mentions
import SlashCommand.Proofs.Session.Flags
import SlashCommand.Proofs.Binding.WellFormed
import SlashCommand.Proofs.Expansion.Interleaving
import SlashCommand.Proofs.Form.Missing
import SlashCommand.Proofs.Session.Readonly
import SlashCommand.Proofs.Suggestion.Lookups
import SlashCommand.Proofs.Database.Loading
