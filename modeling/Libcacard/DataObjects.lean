import Libcacard.EmulNss
import Libcacard.Lib.Links

/-!
# The data objects of a token

A search gives handles, which are linked in both directions until they are destroyed. A destroyed
handle is a cell that was freed.
-/

namespace Libcacard

open Machine

abbrev ObjectHeap := Heap (Link Pk11GenericObject)

/-- The attributes that are read. -/
inductive CkaAttribute
  | label
  | value
  deriving DecidableEq, Repr

def Pk11GenericObject.attribute (obj : Pk11GenericObject) : CkaAttribute → Option Bytes
  | .label => obj.label
  | .value => obj.value

/-- What NSS does with a handle. -/
structure GenericObjects where
  getNext : ObjectHeap → ℕ → Except Fault (Option ℕ)
  readRawAttribute : ObjectHeap → ℕ → CkaAttribute → Except Fault (Option Bytes)
  unlink : ObjectHeap → ℕ → Except Fault ObjectHeap
  destroyObjects : ObjectHeap → Option ℕ → Except Fault ObjectHeap
  destroyObject : ObjectHeap → ℕ → Except Fault ObjectHeap

/-- The handles at `as` were destroyed, and no others. -/
structure Destroyed (h h' : ObjectHeap) (as : List ℕ) : Prop where
  gone : ∀ a ∈ as, h'[a]? = some none
  frame : ∀ a, a ∉ as → h'[a]? = h[a]?

/-- One handle is taken out of its list, or destroyed; or all that are linked to it are. -/
structure GenericObjects.Lawful (nss : GenericObjects) : Prop where
  getNext : ∀ {h : ObjectHeap} {a c}, h.Holds a c → nss.getNext h a = .ok c.next
  readRawAttribute : ∀ {h : ObjectHeap} {a c} attr, h.Holds a c →
    nss.readRawAttribute h a attr = .ok (c.item.attribute attr)
  read_destroyed : ∀ {h : ObjectHeap} {a} attr, h[a]? = some none →
    nss.readRawAttribute h a attr = .error .badAddress
  unlink : ∀ {h : ObjectHeap} {l a x rest}, Link.Linked h none none (l ++ (a, x) :: rest) →
    ((l ++ (a, x) :: rest).map Prod.fst).Nodup →
    ∃ h', nss.unlink h a = .ok h' ∧ Link.Linked h' none none (l ++ rest)
      ∧ h'.Holds a ⟨none, none, x⟩ ∧ ∀ b ∉ (l ++ (a, x) :: rest).map Prod.fst, h'[b]? = h[b]?
  destroyObjects_null : ∀ h, nss.destroyObjects h none = .ok h
  destroyObjects : ∀ {h : ObjectHeap} {l a x rest},
    Link.Linked h none none (l ++ (a, x) :: rest) →
    ((l ++ (a, x) :: rest).map Prod.fst).Nodup →
    ∃ h', nss.destroyObjects h (some a) = .ok h'
      ∧ Destroyed h h' ((l ++ (a, x) :: rest).map Prod.fst)
  destroyObject : ∀ {h : ObjectHeap} {a x}, h.Holds a ⟨none, none, x⟩ →
    ∃ h', nss.destroyObject h a = .ok h' ∧ Destroyed h h' [a]

variable (nss : GenericObjects)

/-! ## Reading an object -/

/-- How the loop ended. -/
inductive ObjectSearch
  | failed
  | absent
  | found (obj : ℕ)

/-- The loop of `vcard_emul_read_object`, at `obj`. -/
def searchObjects (h : ObjectHeap) (label : Bytes) : ℕ → Option ℕ → Except Fault ObjectSearch
  | _, none => .ok .absent
  | 0, some _ => .error .diverges
  | fuel + 1, some obj => do
    match ← nss.readRawAttribute h obj .label with
    | none => return .failed
    | some result =>
      if result = label then return .found obj
      searchObjects h label fuel (← nss.getNext h obj)

/-- What the function returns, and what it stores in `*ret_len`. -/
structure ReadObject where
  ret : Option Bytes
  retLen : Option ℕ
  deriving DecidableEq, Repr

def ReadObject.null : ReadObject := ⟨none, none⟩

/-- `g_memdup2` gives no copy of no bytes. -/
def ReadObject.ofResult (result : Bytes) : ReadObject :=
  ⟨if result = [] then none else some result, some result.length⟩

/-- `vcard_emul_read_object`, with the objects that were found from `firstObj` on -/
def readObjectHandles (h : ObjectHeap) (firstObj : Option ℕ) (label : Bytes) :
    Except Fault (ReadObject × ObjectHeap) := do
  match ← searchObjects nss h label h.length firstObj with
  | .failed => return (.null, ← nss.destroyObjects h firstObj)
  | .absent => return (.null, ← nss.destroyObjects h firstObj)
  | .found myObj =>
    let h ← nss.unlink h myObj
    let h ← nss.destroyObjects h firstObj
    let r ← nss.readRawAttribute h myObj .value
    let h ← nss.destroyObject h myObj
    match r with
    | none => return (.null, h)
    | some result => return (.ofResult result, h)

/-! ## What is to be read -/

/-- The value of the first object that carries the label. Without one there is nothing to read, and
neither is there when a label before it, or the value, cannot be read. -/
def labelledValue (label : Bytes) (objs : List Pk11GenericObject) : Option Bytes :=
  if (objs.takeWhile (·.label ≠ some label)).all (·.label.isSome) then
    (objs.find? (·.label = some label)).bind (·.value)
  else none

/-- The bytes and their number, or NULL. -/
def ReadObject.Gives (r : ReadObject) : Option Bytes → Prop
  | some value => r.ret.getD [] = value ∧ r.retLen = some value.length
  | none => r = .null

/-- The value is read, no destroyed handle is used, and every handle ends destroyed. -/
def ReadsObject (h : ObjectHeap) (es : List (ℕ × Pk11GenericObject)) (label : Bytes) : Prop :=
  ∃ r h', readObjectHandles nss h (Link.firstOr none es) label = .ok (r, h')
    ∧ r.Gives (labelledValue label (es.map Prod.snd)) ∧ ∀ e ∈ es, h'[e.1]? = some none

end Libcacard
