import LootFilter.Catalog.Basic
import LootFilter.Disk.Path
import LootFilter.Filter

/-
  This file defines what a run of the program reports, and
  the lines in which it does.

  Key definitions include:
    * `Level`
    * `Event`
    * `Event.level`
    * `Event.line`
    * `Event.visible`
-/

namespace LootFilter

------------------------------------------------------------
-- Levels
------------------------------------------------------------

/- How much an event matters. -/
inductive Level where
| error
| warn
| info
| debug
| trace
deriving DecidableEq, Repr

namespace Level

/- The place of a level, the weightiest first. -/
def rank : Level → Nat
| .error => 0
| .warn => 1
| .info => 2
| .debug => 3
| .trace => 4

/- The name of a level in a column of five characters. -/
def label : Level → String
| .error => "ERROR"
| .warn => " WARN"
| .info => " INFO"
| .debug => "DEBUG"
| .trace => "TRACE"

end Level

/- The least weighty level that is shown, or `off`. -/
inductive Threshold where
| off
| upTo (level : Level)
deriving DecidableEq, Repr

namespace Threshold

/- The threshold with a given name. -/
def ofName? (name : String) : Option Threshold :=
  match name with
  | "off" => some .off
  | "error" => some (.upTo .error)
  | "warn" => some (.upTo .warn)
  | "info" => some (.upTo .info)
  | "debug" => some (.upTo .debug)
  | "trace" => some (.upTo .trace)
  | _ => none

/- The threshold for a number of requests to say more. -/
def ofVerbosity : Nat → Threshold
| 0 => .upTo .info
| 1 => .upTo .debug
| _ => .upTo .trace

/- Whether a level is shown. -/
def admits (t : Threshold) (level : Level) : Bool :=
  match t with
  | .off => false
  | .upTo least => level.rank ≤ least.rank

end Threshold

------------------------------------------------------------
-- Events
------------------------------------------------------------

/- Something that a run reports. -/
inductive Event where
| restored (path : Path)
| restoredCount (count : Nat)
| codelessRow (k : ItemClass)
| catalogLoaded (dir : Path) (names runes assets : Nat)
| ruleResolved (rule : Rule)
| filterRead (filter : Filter) (path : Path)
| ruleChecked (rule : Rule)
| rowMissing (base : String)
| written (path : Path)
| applied (filter : Filter) (count : Nat)
| failed (texts : List String)
deriving DecidableEq, Repr

namespace Event

/- How much an event matters. -/
def level : Event → Level
| .codelessRow _ => .warn
| .ruleResolved _ => .debug
| .rowMissing _ => .debug
| .failed _ => .error
| _ => .info

/- What an event says. -/
def message : Event → String
| .restored path => "removed filter rules in " ++ path.text
| .restoredCount count =>
    "restored " ++ toString count ++ " files"
| .codelessRow _ => "skipping table row without a code"
| .catalogLoaded dir _ _ _ =>
    "loaded game catalog from " ++ dir.text
| .ruleResolved _ => "resolved rule"
| .filterRead filter path =>
    filter.summary ++ " from " ++ path.text
| .ruleChecked rule => rule.summary
| .rowMissing _ => "no string table entry to rename"
| .written path => "wrote new rules to " ++ path.text
| .applied filter count =>
    "applied " ++ filter.summary ++ ", " ++ toString count ++
      " files written"
| .failed texts => ": ".intercalate texts

/- What an event is about, by name. -/
def fields : Event → List (String × String)
| .codelessRow k => [("class", k.label)]
| .catalogLoaded _ names runes assets =>
    [ ("names", toString names), ("runes", toString runes),
      ("assets", toString assets) ]
| .ruleResolved rule => [("rule", rule.summary)]
| .rowMissing base => [("base", Text.quote base)]
| _ => []

/-
  A character of a message.  Characters that could steer the
  terminal are shown by their numbers.
-/
def showChar (c : Char) : List Char :=
  if c = '\x1b' then ['\\', 'x', '1', 'b']
  else if c = '\x07' then ['\\', 'x', '0', '7']
  else if c = '\x08' then ['\\', 'x', '0', '8']
  else if c = '\x0c' then ['\\', 'x', '0', 'c']
  else if c = '\x7f' then ['\\', 'x', '7', 'f']
  else if 0x80 ≤ c.toNat ∧ c.toNat ≤ 0x9f then
    Text.numberedChar c
  else [c]

/- The line of an event. -/
def line (e : Event) : String :=
  e.level.label ++ " " ++
    String.ofList (e.message.toList.flatMap showChar) ++
    String.join
      (e.fields.map fun (name, value) =>
        " " ++ name ++ "=" ++ value)

/- The lines of the events that a threshold admits. -/
def visible
    (t : Threshold)
    (events : List Event) : List String :=
  (events.filter (t.admits ·.level)).map line

end Event

end LootFilter
