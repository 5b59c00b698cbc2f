import SlashCommand.FormCache.Pool
import SlashCommand.Session.Basic

/-!
# Composing several commands at once

Commands that are composed together take turns, in order and round after round.  In its turn a
command goes on as far as it can: until its request is there, until it has made the call for its
form, or until it finds the call for the same form made by another command under way.  The answer to
a call is looked at in the next turn, so commands that want one form share one call, and where that
fails the next command tries.
-/

namespace SlashCommand

/-- How far a command has come on its way to a request. -/
inductive Composition where
  | fresh (command : String)
  | waiting (fetch : Nat) (scan : Scan) (binding : Binding) (context : CallContext)
  | calling (fetch : Nat) (scan : Scan) (answer : Except FormError Form)
  | finished (result : Except CommandError CallRequest)

namespace Composition

/-- What came of a command. -/
def result? : Composition → Option (Except CommandError CallRequest)
  | finished result => some result
  | _ => none

variable {m : Type → Type} [Monad m]

/-- Goes on with a command whose form has been found, or not. -/
def finish (s : Session) (backend : Backend m) (scan : Scan) :
    Except FormError Form → StateT FetchPool m Composition
  | .error e => return finished (.error (.form e))
  | .ok form => do
    return finished (← StateT.lift (s.finish backend ((scan.withForm form).parseForm .execute)))

/-- The turn of a command that waits for its form. -/
def await (s : Session) (backend : Backend m) (fetch : Nat) (scan : Scan) (binding : Binding)
    (context : CallContext) : StateT FetchPool m Composition := do
  let pool ← get
  match pool.resume? fetch with
  | some (form, pool) =>
    set pool
    finish s backend scan (.ok form)
  | none =>
    match pool.call? fetch with
    | some pool =>
      set pool
      return calling fetch scan (← StateT.lift (fetchForm backend binding context))
    | none => return waiting fetch scan binding context

/-- The turn of a command. -/
def turn (s : Session) (backend : Backend m) : Composition → StateT FetchPool m Composition
  | fresh command => do
    let scan := s.matchCommand command .execute
    match s.formSource scan with
    | .none => return finished (← StateT.lift (s.finish backend (scan.parseForm .execute)))
    | .inline form => finish s backend scan (.ok form)
    | .remote binding key context =>
      let fetch := (← get).fetches.length
      modify (·.start key)
      await s backend fetch scan binding context
  | waiting fetch scan binding context => await s backend fetch scan binding context
  | calling fetch scan answer => do
    modify fun pool => (pool.reply? fetch answer).getD pool
    finish s backend scan answer
  | finished result => return finished result

/-- Takes rounds of turns until all commands are finished, at most as many as given. -/
def rounds (s : Session) (backend : Backend m) :
    Nat → List Composition → StateT FetchPool m (List Composition)
  | 0, cs => return cs
  | n + 1, cs =>
    if cs.all (·.result?.isSome) then return cs
    else do rounds s backend n (← cs.mapM (turn s backend))

end Composition

namespace Session

variable {m : Type → Type} [Monad m]

/-- Turns several commands into requests, all at once.  In each round but the first, a call that is
under way comes to its end or a waiting command makes its own, so that two rounds for each command
and one more are enough. -/
def composeAll (s : Session) (backend : Backend m) (commands : List String) :
    StateT FormCache m (List (Except CommandError CallRequest)) := fun cache => do
  let (compositions, pool) ← Composition.rounds s backend (2 * commands.length + 1)
    (commands.map .fresh) { cache }
  return (compositions.filterMap (·.result?), pool.cache)

end Session

end SlashCommand
