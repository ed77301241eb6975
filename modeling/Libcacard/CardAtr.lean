import Libcacard.VscSystem

/-!
# The ATR of an inserted card

The event thread that takes the event of a card's insertion powers the reader on, and sends what
that leaves in its buffer in a `VSC_ATR`. By then the card may have gone.
-/

namespace Libcacard

open Machine

variable {γ : Type}

/-! ## The ATRs of cards -/

def atrTsDirectConvention : UInt8 := 0x3b
def atrTdPresent : UInt8 := 0x80

/-- `VCARD_` with a postfix, which is `DEFAULT` if none is given. -/
def vcardAllocAtr (atrPostfix : Option Bytes) : Bytes :=
  let before : Bytes := [0x56, 0x43, 0x41, 0x52, 0x44, 0x5f]
  let after := atrPostfix.getD [0x44, 0x45, 0x46, 0x41, 0x55, 0x4c, 0x54]
  [atrTsDirectConvention, atrTdPresent + UInt8.ofNat (before.length + after.length), 0x00]
    ++ before ++ after

/-- `vcard_alloc_atr("NSS")` -/
def nssAtr : Bytes := vcardAllocAtr (some [0x4e, 0x53, 0x53])

def cacAtr : Bytes :=
  [0x3b, 0x7a, 0x18, 0x00, 0x00, 0x73, 0x66, 0x74, 0x65, 0x20, 0x63, 0x64, 0x31, 0x34, 0x34]

/-- `MAX_ATR_SIZE` of PC/SC -/
def maxAtrSize : ℕ := 33

/-- The ATR in an `SCardReader`, of the length that PC/SC gave with it. -/
structure PcscAtr where
  atr : ByteArr maxAtrSize
  atrlen : ℕ
  atrlen_le : atrlen ≤ maxAtrSize

/-- The functions `vcard_set_atr_func` is called with, and what they read. -/
inductive VCardGetAtr
  | cac
  | pcsc (r : PcscAtr)

/-- A card in a reader. `state` is what a reset may change. -/
structure InsertedCard (γ : Type) where
  state : γ
  vcardGetAtr : Option VCardGetAtr

/-- The card in each reader. -/
abbrev CardSlots (γ : Type) := ℕ → Option (InsertedCard γ)

/-- The bytes of the card's ATR. -/
def InsertedCard.atr (card : InsertedCard γ) : Bytes :=
  match card.vcardGetAtr with
  | none => nssAtr
  | some .cac => cacAtr
  | some (.pcsc r) => r.atr.1.take r.atrlen

/-! Each of the functions copies some bytes into a buffer, and their number into `*atr_len`. -/

def vcardEmulGetAtr (atrLen : ℕ) : Bytes := nssAtr.take (min nssAtr.length atrLen)

def cacGetAtr (atrLen : ℕ) : Bytes := cacAtr.take (min cacAtr.length atrLen)

/-- The room in the buffer is not looked at. -/
def getAtrCb (r : PcscAtr) : Bytes := r.atr.1.take r.atrlen

def vcardGetAtr (card : InsertedCard γ) (atrLen : ℕ) : Bytes :=
  match card.vcardGetAtr with
  | some .cac => cacGetAtr atrLen
  | some (.pcsc r) => getAtrCb r
  | none => vcardEmulGetAtr atrLen

/-- `MAX_ATR_LEN` of the client -/
def maxAtrLen : ℕ := 40

theorem length_vcardGetAtr_le (card : InsertedCard γ) (atrLen : ℕ) :
    (vcardGetAtr card atrLen).length ≤ maxAtrLen := by
  unfold vcardGetAtr
  split
  · exact (List.length_take_le' ..).trans (by decide)
  · exact (List.length_take_le' ..).trans (by rw [PcscAtr.atr _ |>.2]; decide)
  · exact (List.length_take_le' ..).trans (by decide)

/-- `vreader_power_on`: the status, the cards, the buffer and `*len`. -/
def vreaderPowerOn (reset : γ → γ) (cards : CardSlots γ) (reader : ℕ) (atr : ByteArr maxAtrLen)
    (len : ℕ) : VReaderStatus × CardSlots γ × ByteArr maxAtrLen × ℕ :=
  match cards reader with
  | none => (.noCard, cards, atr, len)
  | some card =>
    let card := { card with state := reset card.state }
    let copied := vcardGetAtr card len
    (.ok, Function.update cards reader (some card),
      atr.write 0 copied (by rw [Nat.zero_add]; exact length_vcardGetAtr_le card len),
      copied.length)

/-! ## Readers and event threads -/

/-- `vreader_queue_card_event`: the event, of the card that is in the reader now. -/
def vreaderQueueCardEvent (cards : CardSlots γ) (reader : ℕ) : VEvent :=
  ⟨if (cards reader).isSome then .cardInsert else .cardRemove, reader⟩

/-- A power-on for the event of a card's insertion: the reader, the card that was in it, and what
`atr_len` is after it. -/
structure PowerOn (γ : Type) where
  reader : ℕ
  card : Option (InsertedCard γ)
  atrLen : ℕ

/-- Each event thread has a buffer `atr`. It has `poweredOn` a reader if it has not yet sent the ATR
then, and `powerOns` are those whose ATR was sent. -/
structure AtrSystem (γ : Type) where
  system : VscSystem (CardSlots γ)
  atr : ℕ → ByteArr maxAtrLen
  poweredOn : ℕ → Option (PowerOn γ)
  powerOns : List (PowerOn γ)

/-- What the buffers hold at first is not specified. -/
def AtrSystem.start (cards : CardSlots γ) (atr : ℕ → ByteArr maxAtrLen) : AtrSystem γ :=
  ⟨.start cards, atr, fun _ => none, []⟩

/-- The reader of the insertion a thread has got to. -/
def EventThread.inserted : EventThread → Option ℕ
  | .forwarding event _ => if event.type = .cardInsert then some event.reader else none
  | _ => none

namespace AtrSystem

variable (readers : CardReaders (CardSlots γ)) (reset : γ → γ) (s : AtrSystem γ)

def cards : CardSlots γ := s.system.client.world

def inserted (i : ℕ) : Option ℕ := s.system.client.threads[i]?.bind (·.inserted)

/-- The reader a thread powers on next. -/
def powersOn (i : ℕ) : Option ℕ := if (s.poweredOn i).isNone then s.inserted i else none

/-- A thread that sends an ATR powers the reader on first. -/
def mustPowerOn : VscAction (CardSlots γ) → Bool
  | .thread i _ => (s.inserted i).isSome
  | _ => false

end AtrSystem

inductive AtrAction (γ : Type)
  /-- whatever goes on besides -/
  | act (action : VscAction (CardSlots γ))
  /-- `vreader_insert_card` while it has the lock; a card is removed by `none` -/
  | insertCard (reader : ℕ) (card : Option (InsertedCard γ))
  | queueCardEvent (reader : ℕ)
  /-- a thread calls `vreader_power_on` -/
  | powerOn (i : ℕ)
  /-- a thread sends what is in its buffer -/
  | sendAtr (i : ℕ)

namespace AtrSystem

variable (readers : CardReaders (CardSlots γ)) (reset : γ → γ)

/-- `atr_len = MAX_ATR_LEN; vreader_power_on(event->reader, atr, &atr_len);` -/
def powerOn (s : AtrSystem γ) (i reader : ℕ) : AtrSystem γ :=
  let (_, cards, atr, atrLen) := vreaderPowerOn reset s.cards reader (s.atr i) maxAtrLen
  { s with
    system := { s.system with client := { s.system.client with world := cards } }
    atr := Function.update s.atr i atr
    poweredOn := Function.update s.poweredOn i (some ⟨reader, s.cards reader, atrLen⟩) }

def other (s : AtrSystem γ) (action : VscAction (CardSlots γ)) : Option (AtrSystem γ) := do
  return { s with system := ← s.system.step readers action }

/-- An action there is no way to take now has no result. -/
def step (s : AtrSystem γ) : AtrAction γ → Option (AtrSystem γ)
  | .act action => if s.mustPowerOn action then none else s.other readers action
  | .insertCard reader card => s.other readers (.world (Function.update s.cards reader card))
  | .queueCardEvent reader => s.other readers (.event (vreaderQueueCardEvent s.cards reader))
  | .powerOn i => do return s.powerOn reset i (← s.powersOn i)
  | .sendAtr i => do
    let p ← s.poweredOn i
    return { s with
      system := ← s.system.step readers (.thread i ((s.atr i).1.take p.atrLen))
      poweredOn := Function.update s.poweredOn i none
      powerOns := s.powerOns ++ [p] }

/-- An action there is no way to take is passed over. -/
def next (s : AtrSystem γ) (a : AtrAction γ) : AtrSystem γ := (s.step readers reset a).getD s

def run (s : AtrSystem γ) (as : List (AtrAction γ)) : AtrSystem γ :=
  as.foldl (next readers reset) s

end AtrSystem

/-! ## What is meant to hold -/

def Sent.IsAtr (m : Sent) : Prop := m.header.type = VSCMsgType.atr.value

instance (m : Sent) : Decidable m.IsAtr := inferInstanceAs (Decidable (_ = _))

/-- Every `VSC_ATR` that was sent. -/
def Client.atrs {σ : Type} (c : Client σ) : List Sent := c.sent.filter fun m => m.IsAtr

/-- The message is about the reader and has the ATR of the card in it. -/
def PowerOn.GaveAtr (p : PowerOn γ) (m : Sent) : Prop :=
  m.about = some p.reader ∧ ∃ card, p.card = some card ∧ m.payload = card.atr

/-- Each `VSC_ATR` has the ATR of the card that was in the reader at the power-on for it. -/
def AtrSystem.AtrsReal (s : AtrSystem γ) : Prop :=
  List.Forall₂ PowerOn.GaveAtr s.powerOns s.system.client.atrs

/-- A card is in the reader at each power-on whose ATR is sent later in the run. -/
def AtrSystem.PowerOnsFind (readers : CardReaders (CardSlots γ)) (reset : γ → γ) :
    AtrSystem γ → List (AtrAction γ) → Prop
  | _, [] => True
  | s, a :: as =>
    (∀ i reader, a = .powerOn i → s.powersOn i = some reader → .sendAtr i ∈ as →
      s.cards reader ≠ none)
    ∧ (s.next readers reset a).PowerOnsFind readers reset as

end Libcacard
