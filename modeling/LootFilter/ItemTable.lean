import LootFilter.Text.Lines

/-
  This file reads tables of items: rows of fields between
  tabs, the first row naming the columns.  Quotes are like
  any other character, and rows may be of any length.

  Key definitions include:
    * `ItemTable.rows`
    * `ItemTable.TableFault`
    * `ItemTable.ItemRow`
    * `ItemTable.read`
-/

namespace LootFilter.ItemTable

------------------------------------------------------------
-- Rows of bytes
------------------------------------------------------------

/- The bytes of the byte order mark. -/
def markBytes : List UInt8 :=
  [0xEF, 0xBB, 0xBF]

/- Bytes without a byte order mark at their front. -/
def dropMarkBytes (bytes : List UInt8) : List UInt8 :=
  if markBytes.isPrefixOf bytes then
    bytes.drop markBytes.length
  else
    bytes

/- Whether a byte ends a row: line feed or carriage return. -/
def endsRow (b : UInt8) : Bool :=
  b == 10 || b == 13

/- The pieces between the bytes that end rows. -/
def pieces : List UInt8 → List (List UInt8)
| [] => [[]]
| b :: bs =>
    if endsRow b then
      [] :: pieces bs
    else
      match pieces bs with
      | [] => [[b]]
      | piece :: rest => (b :: piece) :: rest

/-
  The rows of a table.  Empty rows do not count, so a carriage
  return with a line feed ends a row just once.
-/
def rows (bytes : List UInt8) : List (List UInt8) :=
  (pieces (dropMarkBytes bytes)).filter (· ≠ [])

/- The fields of a row, if the row is UTF-8. -/
def fields? (row : List UInt8) : Option (List String) :=
  (String.fromUTF8? ⟨row.toArray⟩).map fun s =>
    (Text.splitAt '\t' s.toList).map String.ofList

------------------------------------------------------------
-- Items
------------------------------------------------------------

/- Why bytes are no table of items. -/
inductive TableFault where
| notUtf8
| missingColumn (name : String)
deriving DecidableEq, Repr

/- The two fields that are used of each row. -/
structure ItemRow where
  name : String
  code : String
deriving DecidableEq, Repr

/- The position of the first column with a name. -/
def column
    (header : List String)
    (name : String) : Except TableFault Nat :=
  match header.findIdx? (· == name) with
  | some i => .ok i
  | none => .error (.missingColumn name)

/- The item of a row; a field that is missing is empty. -/
def item
    (name code : Nat)
    (row : List UInt8) : Except TableFault ItemRow :=
  match fields? row with
  | none => .error .notUtf8
  | some fields =>
      .ok ⟨fields[name]?.getD "", fields[code]?.getD ""⟩

/- The fields of the first row; a table may be empty. -/
def headerFields
    (table : List (List UInt8)) :
    Except TableFault (List String) :=
  match table with
  | [] => .ok []
  | row :: _ =>
      match fields? row with
      | none => .error .notUtf8
      | some fields => .ok fields

/- The items of a table, row by row. -/
def read
    (bytes : List UInt8) :
    Except TableFault (List ItemRow) := do
  let table := rows bytes
  let header ← headerFields table
  let name ← column header "name"
  let code ← column header "code"
  table.tail.mapM (item name code)

end LootFilter.ItemTable
