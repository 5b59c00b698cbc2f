import SlashCommand.Binding.Basic
import SlashCommand.Call.Backend
import SlashCommand.FormCache.Basic

/-!
# Fetching forms

A leaf without an inline form has a call that returns it.  `fetchForm` makes that call, and
`FormCache.fetch` makes it only if the form is not there yet.  A failure leaves the cell empty, and
the next fetch tries again.
-/

namespace SlashCommand

/-- Why there is no form. -/
inductive FormError where
  | noCall (location : String)
  | remote (text : String)
  | unexpectedResponse (type : String)
  | backend (error : BackendError)
deriving DecidableEq, Repr

/-- The wording of a form error. -/
def FormError.message : FormError → String
  | noCall location => "binding `" ++ location ++ "` has no call to fetch its form"
  | remote text => "app error: " ++ text
  | unexpectedResponse type => "app response type was not expected: " ++ type
  | backend e => e.message

/-- The form in the answer to a form call. -/
def CallResponse.toForm : CallResponse → Except FormError Form
  | form f => .ok f
  | error text => .error (.remote (text.getD "unknown error"))
  | other => .error (.unexpectedResponse other.typeName)

/-- The form in what came of a form call. -/
def formOfReply : Except BackendError CallResponse → Except FormError Form
  | .ok response => response.toForm
  | .error e => .error (.backend e)

variable {m : Type → Type} [Monad m]

/-- Asks the app of a binding for the form. -/
def fetchForm (backend : Backend m) (binding : Binding) (context : CallContext) :
    m (Except FormError Form) :=
  match binding.call with
  | none => return .error (.noCall context.location)
  | some call => return formOfReply (← backend.performCall { call, context } .form)

namespace FormCache

/-- What a fetch that held on to a cell leaves behind. -/
def settle (c : FormCache) (cell : Nat) : Except FormError Form → FormCache
  | .ok form => c.fill cell form
  | .error _ => c

/-- The form under a key, asked for if it has not arrived yet. -/
def fetch (backend : Backend m) (key : FormKey) (binding : Binding) (context : CallContext) :
    StateT FormCache m (Except FormError Form) := do
  let (cell, cache) := (← get).attach key
  set cache
  match cache.form? cell with
  | some form => return .ok form
  | none =>
    let result ← StateT.lift (fetchForm backend binding context)
    modify (·.settle cell result)
    return result

end FormCache

end SlashCommand
