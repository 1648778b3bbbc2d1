import CardText.Json.Token

/-!
# Reading JSON

`Json.read` reads a JSON text as a value. The tokens drive a machine: its `Stack` holds the arrays
and objects that are open, and its `Place` says what may come next.

* `Json.State.step`: the machine's answer to one token;
* `Json.read`: the value of a text, or its first fault.

Arrays and objects are nested at most `Json.maxDepth` deep.
-/

namespace CardText

namespace Json

/-- An array or object that is open. -/
inductive Frame where
  /-- An array with its items so far, last first. -/
  | array (items : List Value)
  /-- An object with its members so far. -/
  | object (members : Members)
  /-- An object with its members so far and the name of the next one. -/
  | member (members : Members) (name : Text)
  deriving Repr

/-- The open arrays and objects, the innermost first. -/
abbrev Stack := List Frame

/-- What may come next. -/
inductive Place where
  /-- A value. -/
  | value
  /-- The first item of an array, or its end. -/
  | firstItem
  /-- The first name of an object, or its end. -/
  | firstName
  /-- The name of a member. -/
  | name
  /-- The colon behind a name. -/
  | colon
  /-- A comma, or the end of the innermost array or object. -/
  | next
  deriving Repr, DecidableEq

/-- The state of the machine. -/
inductive State where
  /-- Inside a value. -/
  | reading (place : Place) (stack : Stack)
  /-- The value is complete. -/
  | done (v : Value)
  deriving Repr

namespace State

/-- Arrays and objects are nested at most this deep. -/
def maxDepth : Nat := 127

/-- Nothing is read yet. -/
def start : State := reading .value []

/-- A value is complete: it belongs to the innermost open array or object. -/
def complete (v : Value) : Stack → Except Fault State
  | [] => .ok (done v)
  | .array items :: s => .ok (reading .next (.array (v :: items) :: s))
  | .member members name :: s => .ok (reading .next (.object (members.put name v) :: s))
  | .object _ :: _ => .error .malformed

/-- An array or object begins. -/
def openFrame (place : Place) (frame : Frame) (s : Stack) : Except Fault State :=
  if s.length < maxDepth then .ok (reading place (frame :: s)) else .error .malformed

/-- The innermost array or object ends. -/
def close (k : Token) : Stack → Except Fault State
  | .array items :: s =>
    match k with
    | .arrayEnd => complete (.array items.reverse) s
    | _ => .error .malformed
  | .object members :: s =>
    match k with
    | .objectEnd => complete (.object members) s
    | _ => .error .malformed
  | _ => .error .malformed

/-- Takes a value or the begin of one. -/
def takeValue (s : Stack) : Token → Except Fault State
  | .text t => complete (.text t) s
  | .value v => complete v s
  | .arrayStart => openFrame .firstItem (.array []) s
  | .objectStart => openFrame .firstName (.object []) s
  | .broken e _ => .error e
  | _ => .error .malformed

/-- Takes the name of a member. -/
def takeName (s : Stack) : Token → Except Fault State
  | .text t =>
    match s with
    | .object members :: s => .ok (reading .colon (.member members t :: s))
    | _ => .error .malformed
  | .broken e true => .error e
  | _ => .error .malformed

/-- Takes a comma or the end of the innermost array or object. -/
def takeNext (s : Stack) (k : Token) : Except Fault State :=
  match k with
  | .comma =>
    match s with
    | .array _ :: _ => .ok (reading .value s)
    | .object _ :: _ => .ok (reading .name s)
    | _ => .error .malformed
  | k => close k s

/-- The machine's answer to a token. Where no value can follow, a broken token is malformed in any
case. -/
def step (st : State) (k : Token) : Except Fault State :=
  match st with
  | done _ => .error .malformed
  | reading .value s => takeValue s k
  | reading .firstItem s =>
    match k with
    | .arrayEnd => close k s
    | k => takeValue s k
  | reading .firstName s =>
    match k with
    | .objectEnd => close k s
    | k => takeName s k
  | reading .name s => takeName s k
  | reading .colon s =>
    match k with
    | .colon => .ok (reading .value s)
    | _ => .error .malformed
  | reading .next s => takeNext s k

/-- The machine's answer to tokens one after the other. -/
def run (st : State) : List Token → Except Fault State
  | [] => .ok st
  | k :: ks =>
    match st.step k with
    | .error e => .error e
    | .ok st => run st ks

/-- The value of a state at the end of a text. -/
def result : State → Except Fault Value
  | done v => .ok v
  | reading _ _ => .error .truncated

theorem run_append (st : State) (a b : List Token) :
    st.run (a ++ b) = (st.run a).bind fun st => st.run b := by
  induction a generalizing st with
  | nil => rfl
  | cons k a ih =>
    rw [List.cons_append, run, run]
    cases st.step k with
    | error e => rfl
    | ok st => exact ih st

end State

/-- The value of a text. -/
def read (t : Text) : Except Fault Value := (State.start.run (tokens t)).bind State.result

end Json

end CardText
