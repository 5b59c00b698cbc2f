/-!
# Expansion errors

Why the value of a field has no typed form.
-/

namespace SlashCommand

/-- What a token can refer to. -/
inductive Referent where
  | option
  | user
  | channel
deriving DecidableEq, Repr

/-- The word for what a token refers to. -/
def Referent.name : Referent → String
  | option => "option"
  | user => "user"
  | channel => "channel"

/-- What is wrong with the value of a field. -/
inductive ExpansionFault where
  | unknown (referent : Referent) (token : String)
  | duplicate (referent : Referent) (token : String)
  | invalidBool (value : String)
  | lookupFailed (reason : String)
deriving DecidableEq, Repr

/-- A field whose value cannot be expanded, and why. -/
structure ExpansionError where
  field : String
  fault : ExpansionFault
deriving DecidableEq, Repr

/-- The wording of an expansion error. -/
def ExpansionError.message (e : ExpansionError) : String :=
  let place := " for field `" ++ e.field ++ "`: "
  match e.fault with
  | .unknown referent token => "unknown " ++ referent.name ++ place ++ "`" ++ token ++ "`"
  | .duplicate referent token => "duplicate " ++ referent.name ++ place ++ "`" ++ token ++ "`"
  | .invalidBool value => "invalid boolean" ++ place ++ "`" ++ value ++ "`"
  | .lookupFailed reason => "lookup failed" ++ place ++ reason

end SlashCommand
