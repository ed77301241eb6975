import Mathlib.Data.List.Basic

/-!
# Events

What is told of readers and cards. A reader is known by its address.
-/

namespace Libcacard

inductive VEventType
  | readerInsert
  | readerRemove
  | cardInsert
  | cardRemove
  | last
  deriving DecidableEq, Repr

structure VEvent where
  type : VEventType
  reader : ℕ
  deriving DecidableEq, Repr

end Libcacard
