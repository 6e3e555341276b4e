import LootFilter.Instruction
import LootFilter.Text.Blank
import LootFilter.Text.Lines

/-
  This file groups the lines of a filter's source into
  blocks.  A line is a break, an indented property, or a
  verb; a block is a verb line with the property lines that
  follow it without a break.

  Key definitions include:
    * `LineKind`
    * `LineKind.ofLine`
    * `ParseError`
    * `ParseError.message`
    * `Instruction.ofLines`
    * `Instruction.ofSource`
-/

namespace LootFilter

------------------------------------------------------------
-- Kinds of lines
------------------------------------------------------------

/- What a line of source is, before its words are read. -/
inductive LineKind where
| gap
| property (content : List Char)
| heading (content : List Char)
deriving DecidableEq, Repr

/-
  An empty line or a comment is a gap, a line that starts
  with a blank is a property, and any other line is a
  heading.  The indentation of a property is white space of
  any kind once the first character is a blank.
-/
def LineKind.ofLine : List Char → LineKind
| [] => .gap
| c :: cs =>
    if c = '#' then .gap
    else if Text.isBlank c then
      .property (Text.trimStart (c :: cs))
    else .heading (c :: cs)

------------------------------------------------------------
-- Errors
------------------------------------------------------------

/- Why a line cannot stand where it stands. -/
inductive ParseErrorKind where
| expectedIndentation
| orphanProperty
| invalidVerb (text : String)
| invalidProperty (word : String)
deriving DecidableEq, Repr

/- The wording of the reason. -/
def ParseErrorKind.message : ParseErrorKind → String
| .expectedIndentation => "expected indentation"
| .orphanProperty => "property outside of a verb block"
| .invalidVerb text => "invalid verb '" ++ text ++ "'"
| .invalidProperty word => "invalid property '" ++ word ++ "'"

/- A refused line and the reason. -/
structure ParseError where
  line : Nat
  kind : ParseErrorKind
deriving DecidableEq, Repr

/- The wording of a refusal. -/
def ParseError.message (e : ParseError) : String :=
  "parse error @ line " ++ toString e.line ++ ": " ++
    e.kind.message

------------------------------------------------------------
-- Reading one line
------------------------------------------------------------

/-
  The keyword of a property and its argument: the text up to
  the first space, and the text after it.
-/
def Property.cut
    (content : List Char) : List Char × List Char :=
  (content.takeWhile (· ≠ ' '),
    (content.dropWhile (· ≠ ' ')).drop 1)

/- Read the content of a property line. -/
def Property.ofContent
    (content : List Char) :
    Except ParseErrorKind Property :=
  let word := String.ofList (Property.cut content).1
  match Keyword.find? PropertyKind word with
  | some kind =>
      .ok ⟨kind, String.ofList (Property.cut content).2⟩
  | none => .error (.invalidProperty word)

/- Read the content of a heading. -/
def Verb.ofContent
    (content : List Char) : Except ParseErrorKind Verb :=
  let text := String.ofList content
  match Keyword.find? Verb text with
  | some verb => .ok verb
  | none => .error (.invalidVerb text)

------------------------------------------------------------
-- Grouping lines into blocks
------------------------------------------------------------

namespace Instruction

/-
  The blocks of the remaining lines, given the number of the
  next line and the block that is still open.
-/
def ofLinesFrom :
    Nat →
    Option Instruction →
    List (List Char) →
    Except ParseError (List Instruction)
| _, block, [] => .ok block.toList
| number, block, line :: lines =>
    match LineKind.ofLine line, block with
    | .gap, _ =>
        (ofLinesFrom (number + 1) none lines).map
          (block.toList ++ ·)
    | .property _, none => .error ⟨number, .orphanProperty⟩
    | .property content, some openBlock =>
        match Property.ofContent content with
        | .error kind => .error ⟨number, kind⟩
        | .ok p =>
            ofLinesFrom (number + 1) (some (openBlock.push p)) lines
    | .heading _, some _ =>
        .error ⟨number, .expectedIndentation⟩
    | .heading content, none =>
        match Verb.ofContent content with
        | .error kind => .error ⟨number, kind⟩
        | .ok verb =>
            ofLinesFrom (number + 1) (some ⟨number, verb, []⟩) lines

/- The blocks of a list of lines. -/
def ofLines
    (lines : List String) :
    Except ParseError (List Instruction) :=
  ofLinesFrom 1 none (lines.map String.toList)

/- The blocks of a source text. -/
def ofSource
    (source : String) :
    Except ParseError (List Instruction) :=
  ofLinesFrom 1 none (Text.lines source.toList)

/-
  Whether rendering the blocks and reading them again gives
  blocks of the same content.
-/
def rereadsSame (blocks : List Instruction) : Bool :=
  match ofSource (renderAll blocks) with
  | .error _ => false
  | .ok again =>
      again.map (fun b => (b.verb, b.properties)) =
        blocks.map (fun b => (b.verb, b.properties))

end Instruction

end LootFilter
