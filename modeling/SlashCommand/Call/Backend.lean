import SlashCommand.Call.Request

/-!
# Collaborators

Forms are fetched, options looked up and calls submitted through an app, and users and channels are
found in a directory.  A `Backend` is both.  Its queries run in a monad `m`: in `Id` it answers each
query as a fixed function, and a state monad can record what was asked or answer by a script.
-/

namespace SlashCommand

/-- A collaborator failed. -/
inductive BackendError where
  | transport (reason : String)
  | invalidResponse (reason : String)
deriving DecidableEq, Repr, Inhabited

/-- The wording of a collaborator's failure. -/
def BackendError.message : BackendError → String
  | transport reason => "call failed: " ++ reason
  | invalidResponse reason => "invalid response: " ++ reason

/-- The queries a command may lead to.  A name that is not found is no failure. -/
structure Backend (m : Type → Type) where
  performCall : CallRequest → CallType → m (Except BackendError CallResponse)
  userByUsername : String → m (Except BackendError (Option User))
  channelByName : Option String → String → m (Except BackendError (Option Channel))
  usersByPrefix : String → m (Except BackendError (List User))
  channelsByPrefix : Option String → String → m (Except BackendError (List Channel))

end SlashCommand
