import Libcacard.Common
import Libcacard.Lib.Run
import Mathlib.Logic.Function.Basic

/-!
# The table of PC/SC readers

Each `VReader` that is made for a PC/SC reader points to the slot of the table its reader was given.
When the `VReader` is freed, the slot is deleted, and those behind it move up.
-/

namespace Libcacard

open Machine

/-- `CAPCSC_MAX_READERS` -/
def capcscMaxReaders : ℕ := 16

/-- A slot, as far as it is looked at here: the rest of it is moved with it. A name is known by its
address. -/
structure SCardReader where
  index : ℕ
  name : Option ℕ
  deriving DecidableEq

/-- The table, and the names `g_strdup` made. -/
structure PcscContext where
  readers : Fin capcscMaxReaders → SCardReader
  readerCount : ℕ
  names : Heap Bytes
  readerCount_lt : readerCount < capcscMaxReaders

namespace PcscContext

variable (pc : PcscContext)

def empty : PcscContext := ⟨fun _ => ⟨0, none⟩, 0, [], by decide⟩

def gFree (names : Heap Bytes) : Option ℕ → Except Fault (Heap Bytes)
  | none => .ok names
  | some name => names.free name

/-- `memmove(&readers[i], &readers[i + 1], sizeof(SCardReader) * (reader_count - i - 1))` -/
def moveUp (readers : Fin capcscMaxReaders → SCardReader) (i : ℕ) :
    Fin capcscMaxReaders → SCardReader :=
  fun k =>
    if h : i ≤ k ∧ k + 1 < pc.readerCount then
      readers ⟨k + 1, Nat.lt_trans h.2 pc.readerCount_lt⟩
    else readers k

/-- There is a reader to delete, so the count does not become negative. -/
def deleteReader (i : ℕ) : Except Fault PcscContext :=
  if h : i < capcscMaxReaders then do
    let r := pc.readers ⟨i, h⟩
    let names ← gFree pc.names r.name
    let readers := Function.update pc.readers ⟨i, h⟩ { r with name := none }
    let readers := if i < pc.readerCount - 1 then pc.moveUp readers i else readers
    return ⟨readers, pc.readerCount - 1, names,
      Nat.lt_of_le_of_lt (Nat.sub_le _ _) pc.readerCount_lt⟩
  else throw .outOfBounds

/-- `ve` is the slot the `VReader` points to. -/
def deleteReaderCb (ve : Fin capcscMaxReaders) : Except Fault PcscContext :=
  pc.deleteReader (pc.readers ve).index

/-- The name in a slot. -/
def nameOf (r : Fin capcscMaxReaders) : Option Bytes :=
  (pc.readers r).name.bind fun name => (pc.names[name]?).join

/-- The names in the slots that are in use. -/
def tableNames : List (Option Bytes) :=
  List.ofFn fun i : Fin pc.readerCount => pc.nameOf (i.castLE pc.readerCount_lt.le)

end PcscContext

/-- A `VReader` with its name and `reader_private`. -/
structure PcscVReader where
  name : Bytes
  readerPrivate : Fin capcscMaxReaders
  deriving DecidableEq

/-- The table, and the readers that were added and not deleted, in the order of their addition. -/
structure PcscReaders where
  context : PcscContext
  vreaders : List PcscVReader

def PcscReaders.start : PcscReaders := ⟨.empty, []⟩

/-- What it returns, and what it leaves. -/
def PcscReaders.newReader (s : PcscReaders) (name : Bytes) : ℕ × PcscReaders :=
  if h : capcscMaxReaders - 1 ≤ s.context.readerCount then (1, s)
  else
    let r : Fin capcscMaxReaders := ⟨s.context.readerCount, s.context.readerCount_lt⟩
    let context : PcscContext :=
      { readers := Function.update s.context.readers r
          ⟨s.context.readerCount, some s.context.names.length⟩
        readerCount := s.context.readerCount + 1
        names := s.context.names.alloc name
        readerCount_lt := by omega }
    (0, ⟨context, s.vreaders ++ [⟨name, r⟩]⟩)

inductive PcscOp
  | newReader (name : Bytes)
  /-- The last reference to a reader is freed, which is the one that was added as number `k` of
  those there are. -/
  | deleteReader (k : ℕ)
  deriving DecidableEq

def pcscStep (s : PcscReaders) : PcscOp → Except Fault (ℕ × PcscReaders)
  | .newReader name => .ok (s.newReader name)
  | .deleteReader k =>
    match s.vreaders[k]? with
    | none => .ok (0, s)
    | some vreader => do
      let context ← s.context.deleteReaderCb vreader.readerPrivate
      return (0, ⟨context, s.vreaders.eraseIdx k⟩)

/-! ## What is meant to hold -/

/-- The table is that of the readers there are. -/
structure PcscReaders.Consistent (s : PcscReaders) : Prop where
  index : ∀ r : Fin capcscMaxReaders, r < s.context.readerCount → (s.context.readers r).index = r
  names : s.context.tableNames = s.vreaders.map (some ·.name)
  own : ∀ v ∈ s.vreaders, v.readerPrivate < s.context.readerCount
    ∧ s.context.nameOf v.readerPrivate = some v.name

/-- What is deleted was added last. -/
def PcscOp.LastOnly (s : PcscReaders) : PcscOp → Prop
  | .newReader _ => True
  | .deleteReader k => k < s.vreaders.length → k + 1 = s.vreaders.length

end Libcacard
