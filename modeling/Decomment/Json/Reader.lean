import Decomment.Json.Token

/-!
# Reading JSON

Values are read by a stack machine, one token a step.  The stack holds the arrays and objects that
are open, each with what has been read of it, innermost first; the phase tells what may come next.
Values nest at most `maxNesting` deep.

Objects are read as they are written, with the members in order and a name perhaps repeated.

**Results.**
* `runFrom_append`: a run over the tokens of a text is a run over its parts.
-/

namespace Decomment
namespace Json

/-- The greatest number of arrays and objects around a value. -/
def maxNesting : Nat :=
  127

namespace Reader

/-- An array or object that is open, with its parts so far, last first.  An object waits for the
value of `key`. -/
inductive Frame
  | array (done : List Value)
  | object (done : Members) (key : String)

/-- What may come next. -/
inductive Phase
  | value
  /-- A value, or the end of the array just opened. -/
  | firstElement
  /-- A key, or the end of the object if nothing was read of it. -/
  | key (done : Members) (mayEnd : Bool)
  | colon (done : Members) (key : String)
  /-- What follows the whole value `v`. -/
  | after (v : Value)

/-- The open arrays and objects, and what may come next. -/
structure State where
  frames : List Frame
  phase : Phase

section Steps

/-- Reads a token that starts a value. -/
def startValue (frames : List Frame) (t : Token) : Option State :=
  match t with
  | .scalar v => some ⟨frames, .after v⟩
  | .string s => some ⟨frames, .after (.string s)⟩
  | .beginArray =>
      if frames.length < maxNesting then some ⟨.array [] :: frames, .firstElement⟩ else none
  | .beginObject => if frames.length < maxNesting then some ⟨frames, .key [] true⟩ else none
  | _ => none

/-- Reads a token after the value `v`. -/
def continueAfter (v : Value) (frames : List Frame) (t : Token) : Option State :=
  match frames, t with
  | .array done :: frames, .comma => some ⟨.array (v :: done) :: frames, .value⟩
  | .array done :: frames, .endArray => some ⟨frames, .after (.array (v :: done).reverse)⟩
  | .object done k :: frames, .comma => some ⟨frames, .key ((k, v) :: done) false⟩
  | .object done k :: frames, .endObject =>
      some ⟨frames, .after (.object ((k, v) :: done).reverse)⟩
  | _, _ => none

def step (s : State) (t : Token) : Option State :=
  match s.phase with
  | .value => startValue s.frames t
  | .firstElement =>
      match s.frames, t with
      | .array done :: frames, .endArray => some ⟨frames, .after (.array done.reverse)⟩
      | frames, t => startValue frames t
  | .key done mayEnd =>
      match t with
      | .string k => some ⟨s.frames, .colon done k⟩
      | .endObject => if mayEnd then some ⟨s.frames, .after (.object done.reverse)⟩ else none
      | _ => none
  | .colon done k =>
      match t with
      | .colon => some ⟨.object done k :: s.frames, .value⟩
      | _ => none
  | .after v => continueAfter v s.frames t

/-- Reads tokens from a state on. -/
def runFrom (s : State) : List Token → Option State
  | [] => some s
  | t :: ts => (step s t).bind (runFrom · ts)

/-- The value that was read, if nothing is open. -/
def State.result (s : State) : Option Value :=
  match s with
  | ⟨[], .after v⟩ => some v
  | _ => none

end Steps

theorem runFrom_append (s : State) (ts us : List Token) :
    runFrom s (ts ++ us) = (runFrom s ts).bind (runFrom · us) := by
  induction ts generalizing s with
  | nil => rfl
  | cons t ts ih =>
      rw [List.cons_append, runFrom, runFrom, Option.bind_assoc]
      congr 1
      funext s'
      exact ih s'

end Reader

/-- Reads a whole text as one value. -/
def Value.read (t : Text) : Option Value := do
  let ts ← Lexer.lex t
  let s ← Reader.runFrom ⟨[], .value⟩ ts
  s.result

end Json
end Decomment
