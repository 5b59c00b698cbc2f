import SlashCommand.FormCache.Fetch

/-!
# Concurrent fetches

Several commands may want the same form at once.  Their fetches share a cell, and of all fetches that
hold on to one cell only one at a time has its call under way.  If the form arrives, it is there for
all of them; if the call fails, its fetch fails and another one may call.

A `FetchPool` is a cache together with the fetches that have begun.  What can happen to it is an
`Event`, and `step?` says which events are possible and what they lead to: any sequence of possible
events is one way in which fetches can interleave with each other and with changes of the cache.
-/

namespace SlashCommand

/-- How far a fetch has come. -/
inductive FetchStatus where
  | waiting
  | calling
  | finished (result : Except FormError Form)

/-- A fetch that has begun: its key, the cell that it holds on to, and how far it has come. -/
structure Fetch where
  key : FormKey
  cell : Nat
  status : FetchStatus := .waiting

namespace Fetch

/-- The fetch has neither called nor finished. -/
def isWaiting (f : Fetch) : Bool := f.status matches .waiting

/-- The call of the fetch is under way. -/
def isCalling (f : Fetch) : Bool := f.status matches .calling

end Fetch

/-- A cache and the fetches that have begun, in the order in which they did. -/
structure FetchPool where
  cache : FormCache := {}
  fetches : List Fetch := []

namespace FetchPool

/-- What can happen to a pool.  A fetch is given by its place. -/
inductive Event where
  | insert (key : FormKey) (form : Form)
  | clear
  | start (key : FormKey)
  | resume (fetch : Nat)
  | call (fetch : Nat)
  | reply (fetch : Nat) (result : Except FormError Form)

/-- The call of some fetch that holds on to a cell is under way. -/
def isBusy (p : FetchPool) (cell : Nat) : Bool :=
  p.fetches.any fun f => f.cell == cell && f.isCalling

/-- Moves a fetch on. -/
def setStatus (p : FetchPool) (fetch : Nat) (status : FetchStatus) : FetchPool :=
  { p with fetches := p.fetches.modify fetch fun f => { f with status } }

/-- A new fetch takes hold of the cell of its key. -/
def start (p : FetchPool) (key : FormKey) : FetchPool :=
  let (cell, cache) := p.cache.attach key
  { cache, fetches := p.fetches ++ [{ key, cell }] }

/-- A waiting fetch finds its cell filled. -/
def resume? (p : FetchPool) (fetch : Nat) : Option (Form × FetchPool) := do
  let f ← p.fetches[fetch]?
  guard f.isWaiting
  let form ← p.cache.form? f.cell
  return (form, p.setStatus fetch (.finished (.ok form)))

/-- A waiting fetch finds its cell empty and no call for it under way, and makes the call. -/
def call? (p : FetchPool) (fetch : Nat) : Option FetchPool := do
  let f ← p.fetches[fetch]?
  guard (f.isWaiting && (p.cache.form? f.cell).isNone && !p.isBusy f.cell)
  return p.setStatus fetch .calling

/-- The call of a fetch comes to its end. -/
def reply? (p : FetchPool) (fetch : Nat) (result : Except FormError Form) : Option FetchPool := do
  let f ← p.fetches[fetch]?
  guard f.isCalling
  let p := p.setStatus fetch (.finished result)
  return { p with cache := p.cache.settle f.cell result }

/-- The pool after an event, if the event is possible. -/
def step? (p : FetchPool) : Event → Option FetchPool
  | .insert key form => some { p with cache := p.cache.insert key form }
  | .clear => some { p with cache := p.cache.clear }
  | .start key => some (p.start key)
  | .resume fetch => (p.resume? fetch).map (·.2)
  | .call fetch => p.call? fetch
  | .reply fetch result => p.reply? fetch result

end FetchPool

end SlashCommand
