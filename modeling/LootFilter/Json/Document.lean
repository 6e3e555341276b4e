import LootFilter.Json.Token
import LootFilter.Json.Value

/-
  This file reads texts as documents.

  A document is what a text holds up to its first fault, and
  the fault stands in the document at the place where reading
  stopped.  So whoever takes a document apart from front to
  back finds the faults of the text and the faults of its
  shape in the order of the text.

  Key definitions include:
    * `Json.Document`
    * `Json.Document.ofTokens`
    * `Json.Document.value`
    * `Json.Document.skip`
    * `Json.Document.text`
    * `Json.Document.record`
    * `Json.decode`
-/

namespace LootFilter.Json

------------------------------------------------------------
-- Documents
------------------------------------------------------------

/-
  What a text holds.  An array or object carries the fault
  that keeps it from being closed, if its last item or member
  was still complete.  A broken document is a place where no
  value stands: it tells what is wrong for one who reads it
  and for one who passes over it.
-/
inductive Document where
| null
| bool (b : Bool)
| number (n : Numeral)
| text (l : Literal)
| array (items : List Document) (fault : Option Fault)
| object
    (members : List (Literal × Document))
    (fault : Option Fault)
| broken (read skip : Fault)
deriving Repr

instance : Inhabited Document := ⟨.null⟩

/- No fault is success. -/
def Fault.check : Option Fault → Except Fault Unit
| none => .ok ()
| some e => .error e

namespace Document

------------------------------------------------------------
-- Building documents from tokens
------------------------------------------------------------

/-
  An array or object that is still open, with what was read
  of it so far, the latest first.
-/
inductive Frame where
| items (done : List Document)
| members (done : List (Literal × Document)) (name : Literal)

/- What the next token has to be. -/
inductive Goal where
| value
| firstItem
| firstName
| name (done : List (Literal × Document))
| colon (done : List (Literal × Document)) (name : Literal)
| after (d : Document)

/- Close a frame around its last document. -/
def Frame.close
    (fault : Option Fault)
    (d : Document) : Frame → Document
| .items done => .array (d :: done).reverse fault
| .members done name =>
    .object ((name, d) :: done).reverse fault

/- The whole document when reading stops at the given one. -/
def unwind (d : Document) (stack : List Frame) : Document :=
  stack.foldl (fun inner frame => frame.close none inner) d

/- What is wrong where another token was due. -/
def due : List Token → Fault
| [] => .truncated
| _ :: _ => .malformed

/- The document of a token that is a value by itself. -/
def ofScalar? : Token → Option Document
| .null => some .null
| .bool b => some (.bool b)
| .number n => some (.number n)
| .text l => some (.text l)
| _ => none

/- The place where a token stands that is no value. -/
def ofSpoilt : Token → Document
| .spoiltNumber e => .broken e.read e.skip
| .spoiltWord e => .broken e e
| _ => .broken .malformed .malformed

/-
  Read on towards a goal inside the open frames.  The result
  is the outermost document and the tokens after it; no token
  is left after a fault.
-/
def build :
    Goal →
    List Frame →
    List Token →
    Document × List Token
| .after d, [], ts => (d, ts)
| .after d, frame :: stack, ts =>
    match frame, ts with
    | .items done, .comma :: rest =>
        build .value (.items (d :: done) :: stack) rest
    | .items _, .closeArray :: rest =>
        build (.after (frame.close none d)) stack rest
    | .members done name, .comma :: rest =>
        build (.name ((name, d) :: done)) stack rest
    | .members _ _, .closeObject :: rest =>
        build (.after (frame.close none d)) stack rest
    | _, _ =>
        (unwind (frame.close (some (due ts)) d) stack, [])
| .value, stack, .openArray :: rest =>
    build .firstItem stack rest
| .value, stack, .openObject :: rest =>
    build .firstName stack rest
| .value, stack, t :: rest =>
    match ofScalar? t with
    | some d => build (.after d) stack rest
    | none => (unwind (ofSpoilt t) stack, [])
| .value, stack, [] =>
    (unwind (.broken .truncated .truncated) stack, [])
| .firstItem, stack, .closeArray :: rest =>
    build (.after (.array [] none)) stack rest
| .firstItem, stack, .openArray :: rest =>
    build .firstItem (.items [] :: stack) rest
| .firstItem, stack, .openObject :: rest =>
    build .firstName (.items [] :: stack) rest
| .firstItem, stack, t :: rest =>
    match ofScalar? t with
    | some d => build (.after d) (.items [] :: stack) rest
    | none => (unwind (ofSpoilt t) (.items [] :: stack), [])
| .firstItem, stack, [] =>
    (unwind (.array [] (some .truncated)) stack, [])
| .firstName, stack, .closeObject :: rest =>
    build (.after (.object [] none)) stack rest
| .firstName, stack, .text l :: rest =>
    build (.colon [] l) stack rest
| .firstName, stack, ts =>
    (unwind (.object [] (some (due ts))) stack, [])
| .name done, stack, .text l :: rest =>
    build (.colon done l) stack rest
| .name done, stack, ts =>
    (unwind (.object done.reverse (some (due ts))) stack, [])
| .colon done name, stack, .colon :: rest =>
    build .value (.members done name :: stack) rest
| .colon done name, stack, ts =>
    (unwind (.broken (due ts) (due ts))
      (.members done name :: stack), [])

/- The first document of the tokens, and the tokens after it. -/
def ofTokens (ts : List Token) : Document × List Token :=
  build .value [] ts

------------------------------------------------------------
-- Reading texts and passing over documents
------------------------------------------------------------

/-
  What is wrong where a document has another shape than asked
  for.  Arrays and objects are not looked into; a scalar is
  read first.
-/
def mismatch : Document → Fault
| .text l =>
    match l.text with
    | .error e => e
    | .ok _ => .mismatched
| .number n =>
    match n.number? with
    | none => .malformed
    | some _ => .mismatched
| .broken read _ => read
| _ => .mismatched

/- A document that has to be a text. -/
def asText (d : Document) : Except Fault String :=
  match d with
  | .text l => l.text
  | _ => .error d.mismatch

mutual

/- Pass over a document whose content does not matter. -/
def skip : Document → Except Fault Unit
| .null => .ok ()
| .bool _ => .ok ()
| .number _ => .ok ()
| .text l => l.skip
| .array items fault => do
    skipItems items
    Fault.check fault
| .object members fault => do
    skipMembers members
    Fault.check fault
| .broken _ e => .error e

/- Pass over the items of an array. -/
def skipItems : List Document → Except Fault Unit
| [] => .ok ()
| d :: ds => do
    skip d
    skipItems ds

/- Pass over the members of an object. -/
def skipMembers :
    List (Literal × Document) → Except Fault Unit
| [] => .ok ()
| (name, d) :: ds => do
    name.skip
    skip d
    skipMembers ds

end

------------------------------------------------------------
-- Whole values
------------------------------------------------------------

/- How many arrays and objects may be open at a time. -/
def maxDepth : Nat :=
  127

mutual

/-
  The value of a document, in which no more than the given
  number of arrays and objects are open at a time.
-/
def valueWithin : Nat → Document → Except Fault Value
| _, .null => .ok .null
| _, .bool b => .ok (.bool b)
| _, .number n =>
    match n.number? with
    | none => .error .malformed
    | some x => .ok (.number x)
| _, .text l => l.text.map .text
| 0, .array _ _ => .error .malformed
| depth + 1, .array items fault => do
    let vs ← itemsWithin depth items
    Fault.check fault
    return .array vs
| 0, .object _ _ => .error .malformed
| depth + 1, .object members fault => do
    let ms ← membersWithin depth [] members
    Fault.check fault
    return .object ms
| _, .broken read _ => .error read

/- The values of the items of an array. -/
def itemsWithin :
    Nat → List Document → Except Fault (List Value)
| _, [] => .ok []
| depth, d :: ds => do
    let v ← valueWithin depth d
    let vs ← itemsWithin depth ds
    return v :: vs

/-
  The members of an object on top of those before them.  A
  name that is given again keeps its place and takes the new
  value.
-/
def membersWithin :
    Nat →
    Assoc String Value →
    List (Literal × Document) →
    Except Fault (Assoc String Value)
| _, done, [] => .ok done
| depth, done, (name, d) :: ds => do
    let key ← name.text
    let v ← valueWithin depth d
    membersWithin depth (Assoc.set key v done) ds

end

/- The value of a document. -/
def value (d : Document) : Except Fault Value :=
  valueWithin maxDepth d

/- The values of a document that has to be an array. -/
def values (d : Document) : Except Fault (List Value) :=
  match d with
  | .array items fault => do
      let vs ← itemsWithin (maxDepth - 1) items
      Fault.check fault
      return vs
  | _ => .error d.mismatch

------------------------------------------------------------
-- Records
------------------------------------------------------------

/-
  The texts of a record's fields that are given by name, on
  top of those before them.  A field may be given only once,
  and any other member is passed over.
-/
def namedFields
    (fields : List String) :
    List (String × String) →
    List (Literal × Document) →
    Except Fault (List (String × String))
| found, [] => .ok found
| found, (name, d) :: ds => do
    let key ← name.text
    if key ∈ fields then
      if (found.lookup key).isSome then
        .error .mismatched
      else
        let s ← d.asText
        namedFields fields (found ++ [(key, s)]) ds
    else
      d.skip
      namedFields fields found ds

/-
  The texts of a record's fields that are given by position.
  There must be no more items than fields.
-/
def listedFields :
    List String →
    List Document →
    Except Fault (List (String × String))
| _, [] => .ok []
| [], _ :: _ => .error .malformed
| field :: fields, d :: ds => do
    let s ← d.asText
    let rest ← listedFields fields ds
    return (field, s) :: rest

/-
  The texts of a record's fields, as far as they are given:
  by name in an object, by position in an array.
-/
def record
    (fields : List String)
    (d : Document) :
    Except Fault (List (String × String)) :=
  match d with
  | .object members fault => do
      let found ← namedFields fields [] members
      Fault.check fault
      return found
  | .array items fault => do
      let found ← listedFields fields items
      Fault.check fault
      return found
  | _ => .error d.mismatch

/- The documents of an array, each read in the same way. -/
def each
    {α : Type}
    (read : Document → Except Fault α)
    (d : Document) : Except Fault (List α) :=
  match d with
  | .array items fault => do
      let as ← items.mapM read
      Fault.check fault
      return as
  | _ => .error d.mismatch

/-
  The members of an object, each read in the same way, in the
  order of the text.
-/
def entries
    {α : Type}
    (read : Document → Except Fault α)
    (d : Document) : Except Fault (List (String × α)) :=
  match d with
  | .object members fault => do
      let as ← members.mapM fun (name, d) => do
        let key ← name.text
        let a ← read d
        return (key, a)
      Fault.check fault
      return as
  | _ => .error d.mismatch

end Document

------------------------------------------------------------
-- Whole texts
------------------------------------------------------------

/-
  Read a text that holds one document and nothing after it.
-/
def decode
    {α : Type}
    (read : Document → Except Fault α)
    (s : String) : Except Fault α := do
  let (d, rest) := Document.ofTokens (Token.lex s.toList)
  let a ← read d
  if rest.isEmpty then
    return a
  else
    .error .malformed

end LootFilter.Json
