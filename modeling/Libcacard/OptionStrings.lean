import Libcacard.Options

/-!
# Documented option strings

The parameters of `vcard_emul_usage`, the string they make, and what they mean: each sets some of
the options, one after the other. Each parameter has its own rule for where it ends, and
`readParams` says which of the parameters of a string take effect under these rules.
-/

namespace Libcacard

open Machine

variable {pcsc : Bool}

/-! ## The parameters -/

/-- No blank, quote, comma or parenthesis. -/
def PlainChar (c : UInt8) : Prop :=
  ¬isspace c ∧ c ∉ [Text.quote, Text.comma, Text.openParen, Text.closeParen]

instance : DecidablePred PlainChar := fun _ => inferInstanceAs (Decidable (_ ∧ _))

def PlainText : Type := { text : Bytes // ∀ c ∈ text, PlainChar c }

structure CardTypeName (pcsc : Bool) where
  name : PlainText
  valid : vcardEmulTypeFromString pcsc name.1 ≠ .none

def CardTypeName.type (name : CardTypeName pcsc) : VCardEmulType :=
  vcardEmulTypeFromString pcsc name.name.1

inductive Param (pcsc : Bool)
  | db (path : PlainText)
  | useHw (use : UseHw)
  | hwType (name : CardTypeName pcsc)
  | hwParams (params : PlainText)
  | nssemul
  | soft (slot vname : PlainText) (name : CardTypeName pcsc) (params cert : PlainText)
    (certs : List PlainText)

/-- `yes`, `no` and `removable` -/
def UseHw.text : UseHw → Bytes
  | .yes => [0x79, 0x65, 0x73]
  | .no => [0x6e, 0x6f]
  | .removable => Text.removable

def certsText (cert : PlainText) : List PlainText → Bytes
  | [] => cert.1 ++ [Text.closeParen]
  | cert' :: certs => cert.1 ++ Text.comma :: certsText cert' certs

namespace Param

def text : Param pcsc → Bytes
  | db path => Text.dbEq ++ Text.quote :: path.1 ++ [Text.quote]
  | useHw use => Text.useHwEq ++ use.text
  | hwType name => Text.hwTypeEq ++ name.name.1
  | hwParams params => Text.hwParamsEq ++ params.1
  | nssemul => Text.nssemul
  | soft slot vname name params cert certs =>
    Text.softEq ++ Text.openParen :: (slot.1 ++ Text.comma :: (vname.1
      ++ Text.comma :: (name.name.1 ++ Text.comma :: (params.1
      ++ Text.comma :: certsText cert certs))))

def apply (opts : VCardEmulOptions) : Param pcsc → VCardEmulOptions
  | db path => { opts with nssDb := some path.1 }
  | useHw use => { opts with useHw := use }
  | hwType name => { opts with hwCardType := name.type }
  | hwParams params => { opts with hwTypeParams := some params.1 }
  | nssemul => { opts with hwCardType := .cac, useHw := .yes }
  | soft slot vname name params cert certs =>
    { opts with vreader := opts.vreader
        ++ [⟨slot.1, vname.1, name.type, params.1, cert.1 :: certs.map (·.1)⟩] }

def isDb : Param pcsc → Bool
  | db _ => true
  | _ => false

def isHwParams : Param pcsc → Bool
  | hwParams _ => true
  | _ => false

/-- A field of the options. -/
inductive Field
  | nssDb
  | vreader
  | hwCardType
  | hwTypeParams
  | useHw

def sets : Param pcsc → List Field
  | db _ => [.nssDb]
  | useHw _ => [.useHw]
  | hwType _ => [.hwCardType]
  | hwParams _ => [.hwTypeParams]
  | nssemul => [.hwCardType, .useHw]
  | soft .. => [.vreader]

end Param

/-! ## The string -/

/-- What stands between two parameters: blanks and commas. -/
def SepChar (c : UInt8) : Prop := isspace c ∨ c = Text.comma

/-- Each parameter with what comes after it, the last with blanks at most. -/
def Separated : List (Param pcsc × Bytes) → Prop
  | [] => True
  | (_, sep) :: items =>
    (if items.isEmpty then ∀ c ∈ sep, isspace c else sep ≠ [] ∧ ∀ c ∈ sep, SepChar c)
      ∧ Separated items

def itemsText : List (Param pcsc × Bytes) → Bytes
  | [] => []
  | (p, sep) :: items => p.text ++ (sep ++ itemsText items)

structure OptionString (pcsc : Bool) where
  lead : Bytes
  items : List (Param pcsc × Bytes)
  blanks : ∀ c ∈ lead, isspace c
  separated : Separated items
  oneDb : (items.map Prod.fst).countP Param.isDb ≤ 1
  oneHwParams : (items.map Prod.fst).countP Param.isHwParams ≤ 1

namespace OptionString

def text (str : OptionString pcsc) : Bytes := str.lead ++ itemsText str.items

def params (str : OptionString pcsc) : List (Param pcsc) := str.items.map Prod.fst

/-- `vcard_emul_options` applies the parameters to the default options, one after the other. -/
def MeansParams (str : OptionString pcsc) : Prop :=
  vcardEmulOptions pcsc str.text = .ok (some (str.params.foldl Param.apply defaultOptions))

end OptionString

/-! ## Which parameters take effect -/

/-- `use_hw=` and `nssemul` are read up to the next blank (`swallowing`), `hw_type=` up to the end,
and `hw_params=` from the next character that is not a blank up to the next blank. -/
def readParams : Bool → List (Param pcsc × Bytes) → Option (List (Param pcsc))
  | swallowing, [] => if swallowing then some [] else none
  | true, (_, sep) :: items => readParams (!sep.any isspace) items
  | false, (p, sep) :: items =>
    match p with
    | .soft .. => if items.isEmpty then some [p] else (p :: ·) <$> readParams false items
    | .db _ =>
      if items.isEmpty && sep.isEmpty then some [p] else (p :: ·) <$> readParams false items
    | .useHw _ => (p :: ·) <$> readParams (!sep.any isspace) items
    | .nssemul => (p :: ·) <$> readParams (!sep.any isspace) items
    | .hwType _ => if items.isEmpty && sep.isEmpty then some [p] else none
    | .hwParams params =>
      if items.isEmpty && (sep.isEmpty || params.1.isEmpty) then some [p]
      else if !params.1.isEmpty && (sep.take 1).any isspace then
        (p :: ·) <$> readParams false items
      else none

/-- The readers, and the certificates of each, can be counted in an `int`. -/
def VCardEmulOptions.Fits (opts : VCardEmulOptions) : Prop :=
  opts.vreader.length ≤ 2 ^ 31 - readerStep ∧ ∀ r ∈ opts.vreader, r.certName.length < 2 ^ 31

/-- The parameters that take effect mean the same as all of them. -/
def OptionString.ReadsAll (str : OptionString pcsc) : Prop :=
  ∃ seen, readParams false str.items = some seen
    ∧ seen.foldl Param.apply defaultOptions = str.params.foldl Param.apply defaultOptions
    ∧ (seen.foldl Param.apply defaultOptions).Fits

end Libcacard
