/-
  This file defines the ways in which a text can fail to be
  the JSON document that is asked for.

  Key definitions include:
    * `Json.Fault`
-/

namespace LootFilter.Json

/-
  A text is truncated when it ends too early, mismatched when
  it is JSON of another shape than asked for, and malformed
  when it is no JSON at all.
-/
inductive Fault where
| truncated
| malformed
| mismatched
deriving DecidableEq, Repr

end LootFilter.Json
