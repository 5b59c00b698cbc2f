import SlashCommand.Json.Token

/-!
# Reading JSON

A document is built from tokens on a stack of the lists and records that are still open, so the
reader has no recursion and no bound on the depth of what it skips.  A list or record that stands
inside 127 others is read as `Datum.unreadable`: skipping it is harmless, and no field can hold it.

`Json.parse` is the fold of the lexer and of this stack over the characters of a text.
-/

namespace SlashCommand.Json

/-- How many lists and records may stand inside each other. -/
def maxDepth : Nat := 127

/-- A list or record that is still open, with what it holds so far, last first; `key` is the key
whose value is being read. -/
inductive Frame where
  | items (done : List Datum)
  | members (done : List (Option String × Datum)) (key : Option String)

/-- What may come next. -/
inductive Expect where
  | value
  | valueOrClose
  | key
  | keyOrClose
  | colon
  | commaOrClose
  | nothing (result : Datum)

/-- A document under construction. -/
structure Builder where
  frames : List Frame
  expect : Expect

namespace Builder

/-- Nothing has been read. -/
def start : Builder := ⟨[], .value⟩

/-- Puts a complete value where the innermost open list or record waits for it. -/
def put (d : Datum) : List Frame → Builder
  | [] => ⟨[], .nothing d⟩
  | .items done :: rest => ⟨.items (d :: done) :: rest, .commaOrClose⟩
  | .members done key :: rest => ⟨.members ((key, d) :: done) none :: rest, .commaOrClose⟩

/-- A closed list or record that stood inside `depth` others. -/
def close (depth : Nat) : Frame → Datum
  | .items done => if depth < maxDepth then .list done.reverse else .unreadable
  | .members done _ =>
    match done.reverse.mapM fun (k, v) => k.map (·, v) with
    | some ms => if depth < maxDepth then .record ms else .unreadable
    | none => .unreadable

/-- Takes one token; `none` if it may not come here. -/
def step (b : Builder) (t : Token) : Option Builder :=
  match b.expect, t, b.frames with
  | .value, .scalar d, fs => some (put d fs)
  | .valueOrClose, .scalar d, fs => some (put d fs)
  | .value, .text s, fs => some (put (s.elim .unreadable .text) fs)
  | .valueOrClose, .text s, fs => some (put (s.elim .unreadable .text) fs)
  | .value, .openList, fs => some ⟨.items [] :: fs, .valueOrClose⟩
  | .valueOrClose, .openList, fs => some ⟨.items [] :: fs, .valueOrClose⟩
  | .value, .openRecord, fs => some ⟨.members [] none :: fs, .keyOrClose⟩
  | .valueOrClose, .openRecord, fs => some ⟨.members [] none :: fs, .keyOrClose⟩
  | .valueOrClose, .closeList, .items done :: fs => some (put (close fs.length (.items done)) fs)
  | .commaOrClose, .closeList, .items done :: fs => some (put (close fs.length (.items done)) fs)
  | .commaOrClose, .comma, .items done :: fs => some ⟨.items done :: fs, .value⟩
  | .keyOrClose, .closeRecord, .members done k :: fs =>
    some (put (close fs.length (.members done k)) fs)
  | .commaOrClose, .closeRecord, .members done k :: fs =>
    some (put (close fs.length (.members done k)) fs)
  | .commaOrClose, .comma, .members done k :: fs => some ⟨.members done k :: fs, .key⟩
  | .key, .text s, .members done _ :: fs => some ⟨.members done s :: fs, .colon⟩
  | .keyOrClose, .text s, .members done _ :: fs => some ⟨.members done s :: fs, .colon⟩
  | .colon, .colon, fs => some ⟨fs, .value⟩
  | _, _, _ => none

/-- The document, if it is complete. -/
def result? (b : Builder) : Option Datum :=
  match b.expect with
  | .nothing d => some d
  | _ => none

end Builder

/-- A text that has been read in part. -/
structure Reader where
  lexer : Lexer
  builder : Builder

namespace Reader

/-- Takes one character. -/
def step (r : Reader) (c : Char) : Option Reader := do
  let (ts, lexer) ← r.lexer.step c
  let builder ← ts.foldlM Builder.step r.builder
  some ⟨lexer, builder⟩

/-- The document, if the text may end here. -/
def finish (r : Reader) : Option Datum := do
  let ts ← r.lexer.finish
  let builder ← ts.foldlM Builder.step r.builder
  builder.result?

end Reader

/-- The document that a JSON text writes. -/
def parse (text : String) : Option Datum :=
  (text.toList.foldlM Reader.step ⟨.between, .start⟩).bind Reader.finish

end SlashCommand.Json
