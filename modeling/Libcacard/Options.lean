import Libcacard.CacInit

/-!
# Options

`vcard_emul_options` reads a string of parameters. A pointer into the string is what it points to,
up to the NUL, so to go past the NUL, or on from a null pointer, is a fault.
-/

namespace Libcacard

open Machine

inductive UseHw
  | no
  | yes
  | removable
  deriving DecidableEq, Repr

structure VirtualReaderOptions where
  name : Bytes
  vname : Bytes
  cardType : VCardEmulType
  typeParams : Bytes
  certName : List Bytes
  deriving DecidableEq, Repr

structure VCardEmulOptions where
  nssDb : Option Bytes
  vreader : List VirtualReaderOptions
  hwCardType : VCardEmulType
  hwTypeParams : Option Bytes
  useHw : UseHw
  deriving DecidableEq, Repr

def defaultOptions : VCardEmulOptions := ⟨none, [], .cac, none, .yes⟩

/-! ## Strings -/

namespace Text

def comma : UInt8 := 0x2c
def openParen : UInt8 := 0x28
def closeParen : UInt8 := 0x29
def quote : UInt8 := 0x22
def newline : UInt8 := 0x0a

/-- `soft=` -/
def softEq : Bytes := [0x73, 0x6f, 0x66, 0x74, 0x3d]

/-- `use_hw=` -/
def useHwEq : Bytes := [0x75, 0x73, 0x65, 0x5f, 0x68, 0x77, 0x3d]

/-- `hw_type=` -/
def hwTypeEq : Bytes := [0x68, 0x77, 0x5f, 0x74, 0x79, 0x70, 0x65, 0x3d]

/-- `hw_params=` -/
def hwParamsEq : Bytes := [0x68, 0x77, 0x5f, 0x70, 0x61, 0x72, 0x61, 0x6d, 0x73, 0x3d]

/-- `db=` -/
def dbEq : Bytes := [0x64, 0x62, 0x3d]

/-- `nssemul` -/
def nssemul : Bytes := [0x6e, 0x73, 0x73, 0x65, 0x6d, 0x75, 0x6c]

/-- `passthru` -/
def passthru : Bytes := [0x70, 0x61, 0x73, 0x73, 0x74, 0x68, 0x72, 0x75]

/-- `cac` -/
def cac : Bytes := [0x63, 0x61, 0x63]

/-- `removable` -/
def removable : Bytes := [0x72, 0x65, 0x6d, 0x6f, 0x76, 0x61, 0x62, 0x6c, 0x65]

end Text

def isspace (c : UInt8) : Bool := c = 0x20 || (0x09 ≤ c && c ≤ 0x0d)

def tolower (c : UInt8) : UInt8 := if 0x41 ≤ c ∧ c ≤ 0x5a then c + 0x20 else c

def strcasecmpEq (s t : Bytes) : Bool := s.map tolower = t.map tolower

/-- From the first of the characters in the string on. -/
def strpbrk (s accept : Bytes) : Option Bytes :=
  let rest := s.dropWhile (fun c => c ∉ accept)
  if rest = [] then none else some rest

def countTokens (token tokenEnd : UInt8) : Bytes → ℕ
  | [] => 0
  | c :: str =>
    (if c = token then 1 else 0) + if c = tokenEnd then 0 else countTokens token tokenEnd str

def strip (str : Bytes) : Bytes := str.dropWhile isspace

def findBlank (str : Bytes) : Bytes := str.dropWhile (fun c => !isspace c)

/-- `g_strndup(from, to - from)` -/
def strndupTo (s rest : Bytes) : Bytes := s.take (s.length - rest.length)

def vcardEmulTypeFromString (pcsc : Bool) (typeString : Bytes) : VCardEmulType :=
  if strcasecmpEq typeString Text.cac then .cac
  else if pcsc && strcasecmpEq typeString Text.passthru then .passthru
  else .none

/-! ## One parameter -/

def readerStep : ℕ := 4

/-- `reader_count` is how many readers there is room for. -/
structure Parsing where
  opts : VCardEmulOptions
  readerCount : ℕ
  args : Bytes
  deriving DecidableEq, Repr

/-- `NEXT_TOKEN`; it fails where a specification ends too early. -/
def nextToken (args : Bytes) : Option (Bytes × Bytes) :=
  match strpbrk args [Text.comma, Text.closeParen] with
  | none => none
  | some rest =>
    if rest.head? = some Text.closeParen then none
    else some (strndupTo args rest, strip (rest.drop 1))

/-- What comes before the certificates, and what follows it. -/
def softFields (pcsc : Bool) (args : Bytes) : Option (VirtualReaderOptions × Bytes) :=
  let args := strip (args.drop Text.softEq.length)
  if args.head? ≠ some Text.openParen then none
  else do
    let (name, args) ← nextToken (strip (args.drop 1))
    let (vname, args) ← nextToken args
    let (typeStr, args) ← nextToken args
    -- the string has room for 99 characters
    let type := vcardEmulTypeFromString pcsc (typeStr.take 99)
    if type = .none then none
    else do
      let (typeParams, args) ← nextToken args
      if args = [] then none else some (⟨name, vname, type, typeParams, []⟩, args)

/-- The loop over the certificates, `count` of them. -/
def certNames : ℕ → Bytes → Except Fault (List Bytes × Bytes)
  | 0, args => .ok ([], args)
  | count + 1, cert =>
    match strpbrk cert [Text.comma, Text.closeParen] with
    | none => .error .nullPointer
    | some args => do
      let (names, args') ← certNames count (strip (args.drop 1))
      return (strndupTo cert args :: names, args')

/-- Room for one more reader. -/
def growReaders (readerCount vreaderCount : ℕ) : Except Fault ℕ := do
  let readerCount ←
    if readerCount ≤ vreaderCount then
      if 2 ^ 31 ≤ readerCount + readerStep then throw Fault.overflow
      else pure (readerCount + readerStep)
    else pure readerCount
  if vreaderCount < readerCount then return readerCount else throw .outOfBounds

def parseSoft (pcsc : Bool) (s : Parsing) (args : Bytes) : Except Fault (Option Parsing) :=
  match softFields pcsc args with
  | none => .ok none
  | some (vreaderOpt, args) => do
    let readerCount ← growReaders s.readerCount s.opts.vreader.length
    let count := countTokens Text.comma Text.closeParen args + 1
    if 2 ^ 31 ≤ count then throw .overflow
    let (certName, args) ← certNames count args
    let args := if args.head? = some Text.closeParen then args.drop 1 else args
    let vreader := s.opts.vreader ++ [{ vreaderOpt with certName := certName }]
    return some ⟨{ s.opts with vreader := vreader }, readerCount, args⟩

def parseUseHw (s : Parsing) (args : Bytes) : Parsing :=
  let args := strip (args.drop Text.useHwEq.length)
  let useHw :=
    if args.head? ∈ [some 0x30, some 0x4e, some 0x6e, some 0x46] then UseHw.no
    else if Text.removable <+: args then .removable
    else .yes
  { s with opts := { s.opts with useHw := useHw }, args := findBlank args }

/-- The type is all that is left of the string. -/
def parseHwType (pcsc : Bool) (s : Parsing) (args : Bytes) : Option Parsing :=
  let args := strip (args.drop Text.hwTypeEq.length)
  let type := vcardEmulTypeFromString pcsc args
  if type = .none then none
  else some { s with opts := { s.opts with hwCardType := type }, args := findBlank args }

def parseHwParams (s : Parsing) (args : Bytes) : Option Parsing :=
  if s.opts.hwTypeParams ≠ none then none
  else
    let params := strip (args.drop Text.hwParamsEq.length)
    let args := findBlank params
    some { s with
      opts := { s.opts with hwTypeParams := some (strndupTo params args) }, args := args }

def parseDb (s : Parsing) (args : Bytes) : Option Parsing :=
  if s.opts.nssDb ≠ none then none
  else
    let args := strip (args.drop Text.dbEq.length)
    if args.head? ≠ some Text.quote then none
    else do
      let db := args.drop 1
      let args ← strpbrk db [Text.quote, Text.newline]
      return { s with
        opts := { s.opts with nssDb := some (strndupTo db args) }
        args := args.drop 1 }

def parseHw (s : Parsing) (type : VCardEmulType) (args : Bytes) : Parsing :=
  { s with opts := { s.opts with hwCardType := type, useHw := .yes }, args := findBlank args }

/-- One pass through the loop of `vcard_emul_options`; it fails where the code goes to `fail`. -/
def parseParam (pcsc : Bool) (s : Parsing) : Except Fault (Option Parsing) :=
  -- strip off the leading spaces
  let args := strip s.args
  if args.head? = some Text.comma then .ok (some { s with args := args.drop 1 })
  else if Text.softEq <+: args then parseSoft pcsc s args
  else if Text.useHwEq <+: args then .ok (some (parseUseHw s args))
  else if Text.hwTypeEq <+: args then .ok (parseHwType pcsc s args)
  else if Text.hwParamsEq <+: args then .ok (parseHwParams s args)
  else if Text.dbEq <+: args then .ok (parseDb s args)
  else if Text.nssemul <+: args then
    .ok (some (parseHw s .cac (args.drop Text.nssemul.length)))
  else if pcsc ∧ Text.passthru <+: args then
    .ok (some (parseHw s .passthru (args.drop Text.passthru.length)))
  -- unknown smartcard specification
  else .ok none

/-- The loop, `fuel` times at most. -/
def parseParams (pcsc : Bool) : ℕ → Parsing → Except Fault (Option VCardEmulOptions)
  | 0, _ => .error .diverges
  | fuel + 1, s => do
    match ← parseParam pcsc s with
    | none => return none
    | some s => if s.args ≠ [] then parseParams pcsc fuel s else return some s.opts

/-- `vcard_emul_options`; `pcsc` is `ENABLE_PCSC`. -/
def vcardEmulOptions (pcsc : Bool) (args : Bytes) : Except Fault (Option VCardEmulOptions) :=
  parseParams pcsc (args.length + 1) ⟨defaultOptions, 0, args⟩

/-! ## What is meant to hold -/

def VCardEmulOptions.strings (opts : VCardEmulOptions) : List Bytes :=
  opts.nssDb.toList ++ opts.hwTypeParams.toList
    ++ opts.vreader.flatMap fun r => r.name :: r.vname :: r.typeParams :: r.certName

/-- The parser stays in its input, and so do the strings it stores. -/
def StaysInside (pcsc : Bool) (args : Bytes) : Prop :=
  ∃ r, vcardEmulOptions pcsc args = .ok r ∧ ∀ opts ∈ r, ∀ str ∈ opts.strings, str <:+: args

/-- What the parser has when it looks for a parameter. -/
inductive ComesTo (pcsc : Bool) (args : Bytes) : Parsing → Prop
  | start : ComesTo pcsc args ⟨defaultOptions, 0, args⟩
  | next {s s' : Parsing} (h : ComesTo pcsc args s) (hp : parseParam pcsc s = .ok (some s'))
    (hne : s'.args ≠ []) : ComesTo pcsc args s'

/-- A `soft=` that is good up to its certificates has a closing parenthesis after them, and the
certificates and readers can be counted in an `int`. -/
def Parsing.Closed (pcsc : Bool) (s : Parsing) : Prop :=
  ∀ vreaderOpt certs, Text.softEq <+: strip s.args →
    softFields pcsc (strip s.args) = some (vreaderOpt, certs) →
    Text.closeParen ∈ certs ∧ countTokens Text.comma Text.closeParen certs + 1 < 2 ^ 31
      ∧ s.opts.vreader.length < 2 ^ 31 - readerStep

end Libcacard
