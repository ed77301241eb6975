import Libcacard.Lib.Links

/-!
# The list of readers

The entries of the registered list live in a heap, and adding and removing readers frees and
reuses the links between them as the program does. A walk along `next` that takes more steps than
there are entries has come back to one it has seen, and does not end.
-/

namespace Libcacard

open Machine Machine.Link

variable {ρ : Type}

/-- A `struct VReaderListEntryStruct`, the link's item being its `reader`. -/
abbrev VReaderListEntry (ρ : Type) := Link ρ

def VReaderListEntry.reader (e : VReaderListEntry ρ) : ρ := e.item

structure VReaderList where
  head : Option ℕ
  tail : Option ℕ
  deriving DecidableEq, Repr

def vreaderListNew : VReaderList := ⟨none, none⟩

def vreaderListEntryNew (h : Heap (VReaderListEntry ρ)) (reader : ρ) :
    Heap (VReaderListEntry ρ) × ℕ :=
  (h.alloc ⟨none, none, reader⟩, h.length)

def vreaderListEntryDelete (h : Heap (VReaderListEntry ρ)) :
    Option ℕ → Except Fault (Heap (VReaderListEntry ρ))
  | none => .ok h
  | some entry => h.free entry

def vreaderQueue (h : Heap (VReaderListEntry ρ)) (list : VReaderList) (entry : ℕ) :
    Except Fault (Heap (VReaderListEntry ρ) × VReaderList) := do
  let h ← setNext h entry none
  let h ← setPrev h entry list.tail
  match list.head, list.tail with
  | some _, some tail =>
    let h ← setNext h tail (some entry)
    return (h, ⟨list.head, some entry⟩)
  | some _, none => throw .nullPointer
  | none, _ => return (h, ⟨some entry, some entry⟩)

/-- The links and the ends of the list that `vreader_dequeue` sets, by where the entry stands. -/
def unlinkEntry (h : Heap (VReaderListEntry ρ)) (list : VReaderList) (entry : ℕ) :
    Except Fault (Heap (VReaderListEntry ρ) × VReaderList) := do
  let e ← h.read entry
  match e.next, e.prev with
  | none, _ => return (h, ⟨list.head, e.prev⟩)
  | some _, none => return (h, ⟨e.next, list.tail⟩)
  | some _, some prev =>
    let h ← setNext h prev e.next
    let e ← h.read entry
    match e.next with
    | none => throw .nullPointer
    | some next =>
      let h ← setPrev h next e.prev
      return (h, list)

def vreaderDequeue (h : Heap (VReaderListEntry ρ)) (list : VReaderList) :
    Option ℕ → Except Fault (Heap (VReaderListEntry ρ) × VReaderList)
  | none => .ok (h, list)
  | some entry => do
    let (h, list) ← unlinkEntry h list entry
    let list := if list.tail = none ∨ list.head = none then ⟨none, none⟩ else list
    let h ← setNext h entry none
    let h ← setPrev h entry none
    return (h, list)

/-- The entry the loops over the list stop at, from `entry` on. -/
def findEntry (h : Heap (VReaderListEntry ρ)) (p : ρ → Bool) :
    ℕ → Option ℕ → Except Fault (Option ℕ)
  | _, none => .ok none
  | 0, some _ => .error .diverges
  | fuel + 1, some entry => do
    let e ← h.read entry
    if p e.reader then return some entry
    else findEntry h p fuel e.next

/-- The loop of `vreader_copy_list`, from the entry `current` of `list` on. -/
def copyEntries : ℕ → Heap (VReaderListEntry ρ) → Option ℕ → VReaderList →
    Except Fault (Heap (VReaderListEntry ρ) × VReaderList)
  | _, h, none, newList => .ok (h, newList)
  | 0, _, some _, _ => .error .diverges
  | fuel + 1, h, some current, newList => do
    let e ← h.read current
    let (h, newEntry) := vreaderListEntryNew h e.reader
    let (h, newList) ← vreaderQueue h newList newEntry
    let e ← h.read current
    copyEntries fuel h e.next newList

/-- The entries of the program and `vreader_list`. -/
structure Readers (ρ : Type) where
  entries : Heap (VReaderListEntry ρ)
  list : VReaderList

def vreaderListInit : Readers ρ := ⟨[], vreaderListNew⟩

section Operations

variable (s : Readers ρ)

/-- More steps than a walk that ends can take. -/
def Readers.fuel : ℕ := s.entries.length + 1

def vreaderAddReader (reader : ρ) : Except Fault (Readers ρ) := do
  let (h, entry) := vreaderListEntryNew s.entries reader
  let (h, list) ← vreaderQueue h s.list entry
  return ⟨h, list⟩

def vreaderRemoveReader [DecidableEq ρ] (reader : ρ) : Except Fault (Readers ρ) := do
  let entry ← findEntry s.entries (fun r => decide (r = reader)) s.fuel s.list.head
  let (h, list) ← vreaderDequeue s.entries s.list entry
  let h ← vreaderListEntryDelete h entry
  return ⟨h, list⟩

/-- `vreader_get_reader_list`: the copy, which lives beside the registered list. -/
def vreaderGetReaderList : Except Fault (Readers ρ × VReaderList) := do
  let (h, newList) ← copyEntries s.fuel s.entries s.list.head vreaderListNew
  return (⟨h, s.list⟩, newList)

/-- The loop of the two lookups: the reader of the first entry they accept. -/
def getReader (p : ρ → Bool) : Except Fault (Option ρ) := do
  match ← findEntry s.entries p s.fuel s.list.head with
  | none => return none
  | some entry =>
    let e ← s.entries.read entry
    return some e.reader

/-- `(vreader_id_t)-1` -/
def vreaderNoId : UInt32 := 0xffffffff

def vreaderGetReaderById (idOf : ρ → UInt32) (id : UInt32) : Except Fault (Option ρ) :=
  if id = vreaderNoId then .ok none else getReader s fun r => decide (idOf r = id)

def vreaderGetReaderByName (nameOf : ρ → String) (name : String) : Except Fault (Option ρ) :=
  getReader s fun r => decide (nameOf r = name)

end Operations

inductive ReaderOp (ρ : Type)
  | add (reader : ρ)
  | remove (reader : ρ)
  deriving DecidableEq, Repr

variable [DecidableEq ρ]

def ReaderOp.step (s : Readers ρ) : ReaderOp ρ → Except Fault (Readers ρ)
  | add reader => vreaderAddReader s reader
  | remove reader => vreaderRemoveReader s reader

/-- The state a sequence of calls leads to. -/
def runReaders (ops : List (ReaderOp ρ)) : Except Fault (Readers ρ) :=
  ops.foldlM ReaderOp.step vreaderListInit

end Libcacard
