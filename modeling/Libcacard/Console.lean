import Libcacard.Options
import Libcacard.ReaderCards
import Libcacard.SocketRead
import Libcacard.VReaderRefs

/-!
# The console of vscclient

A line of the console inserts or removes a card, selects a reader, lists the readers, or ends the
program. What the console prints, leaves for the main loop to send and keeps of references is kept
here beside the readers; everyone else in the program calls on the readers between two lines.
-/

namespace Libcacard

open Machine

namespace Text

/-- `exit` -/
def exit : Bytes := [0x65, 0x78, 0x69, 0x74]

/-- `insert` -/
def insert : Bytes := [0x69, 0x6e, 0x73, 0x65, 0x72, 0x74]

/-- `remove` -/
def remove : Bytes := [0x72, 0x65, 0x6d, 0x6f, 0x76, 0x65]

/-- `select` -/
def select : Bytes := [0x73, 0x65, 0x6c, 0x65, 0x63, 0x74]

/-- `debug` -/
def debug : Bytes := [0x64, 0x65, 0x62, 0x75, 0x67]

/-- `list` -/
def list : Bytes := [0x6c, 0x69, 0x73, 0x74]

def space : UInt8 := 0x20
def zero : UInt8 := 0x30
def plus : UInt8 := 0x2b
def minus : UInt8 := 0x2d

end Text

def isdigit (c : UInt8) : Bool := 0x30 ≤ c && c ≤ 0x39

/-- What digits stand for. -/
def digitsValue (s : Bytes) : ℕ := s.foldl (fun n c => 10 * n + (c.toNat - 0x30)) 0

/-- `atoi`, which has no defined result when the number is no `int`. -/
def atoi (s : Bytes) : Except Fault ℤ :=
  let s := s.dropWhile isspace
  let minus := s.head? = some Text.minus
  let s := if minus ∨ s.head? = some Text.plus then s.drop 1 else s
  let n : ℤ := digitsValue (s.takeWhile isdigit)
  let n := if minus then -n else n
  if -2 ^ 31 ≤ n ∧ n < 2 ^ 31 then .ok n else .error .overflow

def getIdFromString (string : Bytes) (defaultId : UInt32) : Except Fault UInt32 := do
  let id := UInt32.ofInt (← atoi string)
  -- don't accidentally switch to zero because no numbers have been supplied
  if id = 0 ∧ string.head? ≠ some Text.zero then return defaultId
  return id

/-- `%3u` -/
def printId (id : UInt32) : String :=
  let digits := toString id.toNat
  "".pushn ' ' (3 - digits.length) ++ digits

def vreaderGetId : Option VReaderData → UInt32
  | none => vreaderNoId
  | some reader => reader.id

def printPresent (reader : VReaderData) : String :=
  if reader.hasCard then "CARD_PRESENT" else "            "

/-- What `list` prints of a reader among the active ones. -/
def activeLine (reader : VReaderData) : List String :=
  let id := vreaderGetId (some reader)
  if id = vreaderNoId then []
  else [printId id ++ " " ++ printPresent reader ++ " " ++ reader.name ++ "\n"]

/-- And among the inactive ones, where the id is that of the `NULL` reader. -/
def inactiveLine (reader : VReaderData) : List String :=
  let id := vreaderGetId none
  if id ≠ vreaderNoId then []
  else ["INA " ++ printPresent reader ++ " " ++ reader.name ++ "\n"]

/-- What `send_msg` puts behind the bytes to send: the number for the reader is 0, whatever it was
given. -/
def sentMessage (type : VSCMsgType) (_readerId : UInt32) (msg : Bytes) : Message :=
  ⟨⟨type.value, 0, UInt32.ofNat msg.length⟩, msg⟩

/-- What `exit` gives to `send_msg` for a reader: be nice and signal card removal first. -/
def farewell (reader : VReaderData) : List Message :=
  let id := vreaderGetId (some reader)
  if id = vreaderNoId then []
  else (if reader.hasCard then [sentMessage .cardRemove id []] else [])
    ++ [sentMessage .readerRemove id []]

/-- What is found of a reader whose card is to be inserted or removed: `nss_emul_init`, whether a
card is saved, whether the slot has a token, and whether a card can be made of that. -/
structure CardNow where
  nssEmulInit : Bool
  saved : Bool
  isPresent : Bool
  mirrored : Bool

def VCardEmulError.value : VCardEmulError → ℕ
  | ok => 0
  | fail => 1

namespace ReaderProgram

variable (s : ReaderProgram)

/-- `vcard_emul_force_card_remove` -/
def vcardEmulForceCardRemove (now : CardNow) (vreader : ℕ) :
    Except Fault (ReaderProgram × VCardEmulError) := do
  let c ← s.readers.read vreader
  if ¬ now.nssEmulInit ∨ ¬ c.item.hasCard then return (s, .fail)
  return (← s.vreaderInsertCard vreader false, .ok)

/-- `vcard_emul_force_card_insert` -/
def vcardEmulForceCardInsert (now : CardNow) (vreader : ℕ) :
    Except Fault (ReaderProgram × VCardEmulError) := do
  let c ← s.readers.read vreader
  if ¬ now.nssEmulInit ∨ c.item.hasCard then return (s, .fail)
  if now.saved then return (← s.vreaderInsertCard vreader true, .ok)
  -- physical card has been removed, not way to reinsert it
  if ¬ now.isPresent then return (s, .fail)
  return (← s.vreaderInsertCard vreader now.mirrored, .ok)

/-- The loops of `exit` and `list`: what is done with each reader, and the readers that were taken
a reference of, which is not given back. -/
def forEach {α : Type} (f : VReaderData → List α) :
    ℕ → ReaderProgram → Option ℕ → Except Fault (ReaderProgram × List ℕ × List α)
  | _, s, none => .ok (s, [], [])
  | 0, _, some _ => .error .diverges
  | fuel + 1, s, some readerEntry => do
    let (s, r) ← s.vreaderListGetReader readerEntry
    let c ← s.readers.read r
    let (s, rs, out) ← forEach f fuel s (← s.next readerEntry)
    return (s, r :: rs, f c.item ++ out)

end ReaderProgram

/-- The client as its console has it. `lost` are the references to readers that nobody gives back,
which are among those held, and `socketToSend` has what the console itself gave to `send_msg`, which
only the main loop writes to the socket. -/
structure Console where
  system : ReaderSystem
  lost : List ℕ
  defaultReaderId : UInt32
  verbose : Int32
  socketToSend : List Message
  printed : List String
  exited : Bool

def Console.start : Console := ⟨.start, [], 0, 0, [], [], false⟩

namespace Console

variable (y : Console)

def print (lines : List String) : Console := { y with printed := y.printed ++ lines }

/-- The program and what callers hold change. -/
def goOn (s : ReaderProgram) (held : List ℕ) : Console :=
  { y with system := { y.system with program := s, held := held } }

/-- The reader a line names behind the command, if it does. -/
def readerIdIn (string : Bytes) (defaultId readerId : UInt32) : Except Fault UInt32 :=
  if string[6]? = some Text.space then getIdFromString (string.drop 7) defaultId
  else .ok readerId

/-- `insert` and `remove` -/
def doForce (word : String)
    (force : ReaderProgram → ℕ → Except Fault (ReaderProgram × VCardEmulError)) (string : Bytes) :
    Except Fault Console := do
  let readerId ← readerIdIn string y.defaultReaderId y.defaultReaderId
  let (s, reader) ← y.system.program.vreaderGetReaderById readerId
  match reader with
  | some r =>
    let (s, error) ← force s r
    let c ← s.readers.read r
    let s ← s.vreaderFree (some r)
    return (y.goOn s y.system.held).print
      [word ++ " " ++ c.item.name ++ ", returned " ++ toString error.value ++ "\n"]
  | none =>
    return (y.goOn s y.system.held).print
      ["no reader by id " ++ toString readerId.toNat ++ " found\n"]

/-- No reader is looked up when the line names none. -/
def selected (readerId : UInt32) : Except Fault (ReaderProgram × Option ℕ) :=
  if readerId ≠ vscardUndefinedReaderId then y.system.program.vreaderGetReaderById readerId
  else .ok (y.system.program, none)

/-- `select` -/
def doSelect (string : Bytes) : Except Fault Console := do
  let readerId ← readerIdIn string vscardUndefinedReaderId y.defaultReaderId
  let (s, reader) ← y.selected readerId
  match reader with
  | some r =>
    let c ← s.readers.read r
    let s ← s.vreaderFree (some r)
    return { (y.goOn s y.system.held).print
      ["Selecting reader " ++ toString readerId.toNat ++ ", " ++ c.item.name ++ "\n"] with
        defaultReaderId := readerId }
  | none =>
    return (y.goOn s y.system.held).print
      ["Reader with id " ++ toString readerId.toNat ++ " not found\n"]

/-- `debug` -/
def doDebug (string : Bytes) : Except Fault Console := do
  let verbose ←
    if string[5]? = some Text.space then (getIdFromString (string.drop 6) 0).map UInt32.toInt32
    else pure y.verbose
  return { y.print ["debug level = " ++ toString verbose.toInt ++ "\n"] with verbose := verbose }

/-- `list` -/
def doList : Except Fault Console := do
  let (s, list) ← y.system.program.vreaderGetReaderList
  let (s, taken, active) ← s.forEach activeLine s.fuel list.head
  let (s, taken', inactive) ← s.forEach inactiveLine s.fuel list.head
  let s ← s.vreaderListDelete list
  return { (y.goOn s (taken' ++ taken ++ y.system.held)).print
    ("Active Readers:\n" :: active ++ "Inactive Readers:\n" :: inactive) with
      lost := taken' ++ taken ++ y.lost }

/-- `exit`, whose list is not deleted. The program ends within it, so what was given to `send_msg`
stays in `socketToSend`. -/
def doExit : Except Fault Console := do
  let (s, list) ← y.system.program.vreaderGetReaderList
  let (s, taken, messages) ← s.forEach farewell s.fuel list.head
  let y := (y.goOn s (taken ++ y.system.held)).print ["Active Readers:\n"]
  return { y with
    system := { y.system with copies := y.system.copies ++ [list] }
    lost := taken ++ y.lost
    socketToSend := y.socketToSend ++ messages
    exited := true }

def validCommands : List String :=
  ["valid commands:\n", "insert [reader_id]\n", "remove [reader_id]\n", "select reader_id\n",
    "list\n", "debug [level]\n", "exit\n"]

/-- The branches of `do_command` after which the program goes on. -/
def doBranch (now : CardNow) (string : Bytes) : Except Fault Console :=
  if Text.insert.isPrefixOf string then
    y.doForce "insert" (·.vcardEmulForceCardInsert now) string
  else if Text.remove.isPrefixOf string then
    y.doForce "remove" (·.vcardEmulForceCardRemove now) string
  else if Text.select.isPrefixOf string then y.doSelect string
  else if Text.debug.isPrefixOf string then y.doDebug string
  else if Text.list.isPrefixOf string then y.doList
  else if string ≠ [] then .ok (y.print validCommands)
  else .ok y

/-- `do_command`, for a line that was read, or `NULL`. -/
def doCommand (now : CardNow) : Option Bytes → Except Fault Console
  | none => .ok (y.print ["> "])
  | some string =>
    if Text.exit.isPrefixOf string then y.doExit
    else do return (← y.doBranch now string).print ["> "]

end Console

/-- A line of the console, or a call of someone else. -/
inductive ConsoleCall
  | line (now : CardNow) (string : Option Bytes)
  | call (c : ReaderCall)

/-- After `exit` nothing happens. -/
def Console.step (y : Console) (c : ConsoleCall) : Except Fault (Unit × Console) :=
  if y.exited then .ok ((), y)
  else
    match c with
    | .line now string => do return ((), ← y.doCommand now string)
    | .call c => do
      let (_, system) ← y.system.step c
      return ((), { y with system := system })

/-- The number on a line, where one is read. -/
def Console.numberIn (string : Bytes) : Option Bytes :=
  if Text.insert.isPrefixOf string ∨ Text.remove.isPrefixOf string
      ∨ Text.select.isPrefixOf string then
    if string[6]? = some Text.space then some (string.drop 7) else none
  else if Text.debug.isPrefixOf string then
    if string[5]? = some Text.space then some (string.drop 6) else none
  else none

/-- No caller gives back a reference that the console took. -/
def Console.KeepsLost (y : Console) : ReaderCall → Prop
  | .free (some r) => y.lost.count r < y.system.held.count r
  | _ => True

/-- A call that names only what is there, keeps the counts and gives back no reference that the
console took. A number on a line is an `int`. -/
def Console.Proper (y : Console) : ConsoleCall → Prop
  | .line _ string => ∀ t ∈ string.bind Console.numberIn, ∃ n, atoi t = .ok n
  | .call c => y.system.Proper c ∧ y.system.KeepsCounts c ∧ y.KeepsLost c

instance Console.decidableKeepsLost (y : Console) (c : ReaderCall) : Decidable (y.KeepsLost c) := by
  unfold Console.KeepsLost
  split <;> infer_instance

instance Console.decidableProper (y : Console) (c : ConsoleCall) : Decidable (y.Proper c) :=
  match c with
  | .line _ string =>
    match h : string.bind Console.numberIn with
    | none => .isTrue fun t ht => by rw [h] at ht; cases ht
    | some t =>
      match hn : atoi t with
      | .ok n => .isTrue fun t' ht => by rw [h] at ht; cases ht; exact ⟨n, hn⟩
      | .error _ => .isFalse fun hall => by
        obtain ⟨n, hn'⟩ := hall t h
        rw [hn] at hn'
        cases hn'
  | .call c =>
    inferInstanceAs (Decidable (y.system.Proper c ∧ y.system.KeepsCounts c ∧ y.KeepsLost c))

/-- The counts are exact, and the references that nobody gives back are among those held. -/
structure Console.Exact (y : Console) : Prop where
  counts : y.system.CountsExact
  lost : ∀ r, y.lost.count r ≤ y.system.held.count r

/-! ## What the user sees -/

/-- The registered readers, in order. -/
def readersFrom (entries : Heap (VReaderListEntry ℕ)) : ℕ → Option ℕ → List ℕ
  | _, none => []
  | 0, some _ => []
  | fuel + 1, some entry =>
    match entries.read entry with
    | .ok e => e.reader :: readersFrom entries fuel e.next
    | .error _ => []

def ReaderProgram.registered (s : ReaderProgram) : List ℕ :=
  readersFrom s.entries s.fuel s.list.head

/-- What a reader has. -/
def ReaderProgram.data (s : ReaderProgram) (r : ℕ) : Option VReaderData :=
  match s.readers.read r with
  | .ok c => some c.item
  | .error _ => none

/-- The registered readers, each with what it has. -/
def ReaderProgram.seen (s : ReaderProgram) : List (ℕ × VReaderData) :=
  s.registered.filterMap fun r => (s.data r).map (r, ·)

/-- The console without the lists and the references behind it: the registered readers in order,
each with what it has, the events, and the messages that were never sent. -/
@[ext]
structure Desk where
  readers : List (ℕ × VReaderData)
  queue : List VEvent
  defaultReaderId : UInt32
  verbose : Int32
  unsent : List Message
  printed : List String
  exited : Bool
  deriving DecidableEq

def Console.desk (y : Console) : Desk where
  readers := y.system.program.seen
  queue := y.system.program.queue
  defaultReaderId := y.defaultReaderId
  verbose := y.verbose
  unsent := y.socketToSend
  printed := y.printed
  exited := y.exited

/-- What becomes of a reader's card on `insert`, if anything does. -/
def CardNow.inserted (now : CardNow) (reader : VReaderData) : Option Bool :=
  if now.nssEmulInit ∧ ¬ reader.hasCard then
    if now.saved then some true else if now.isPresent then some now.mirrored else none
  else none

/-- And on `remove`. -/
def CardNow.removed (now : CardNow) (reader : VReaderData) : Option Bool :=
  if now.nssEmulInit ∧ reader.hasCard then some false else none

namespace Desk

variable (d : Desk)

def print (lines : List String) : Desk := { d with printed := d.printed ++ lines }

/-- The first reader that has an id. -/
def named (id : UInt32) : Option (ℕ × VReaderData) :=
  if id = vreaderNoId then none else d.readers.find? fun e => e.2.id = id

/-- A card comes or goes, and the event about it is queued. -/
def setCard (reader : ℕ) (hasCard : Bool) : Desk :=
  { d with
    readers := d.readers.map fun e =>
      (e.1, if e.1 = reader then { e.2 with hasCard := hasCard } else e.2)
    queue := d.queue ++ [⟨if hasCard then .cardInsert else .cardRemove, reader⟩] }

def force (word : String) (becomes : VReaderData → Option Bool) (id : UInt32) : Desk :=
  match d.named id with
  | none => d.print ["no reader by id " ++ toString id.toNat ++ " found\n"]
  | some (r, reader) =>
    let (d, error) : Desk × VCardEmulError :=
      match becomes reader with
      | none => (d, .fail)
      | some hasCard => (d.setCard r hasCard, .ok)
    d.print [word ++ " " ++ reader.name ++ ", returned " ++ toString error.value ++ "\n"]

def select (id : UInt32) : Desk :=
  match d.named id with
  | none => d.print ["Reader with id " ++ toString id.toNat ++ " not found\n"]
  | some (_, reader) =>
    { d.print ["Selecting reader " ++ toString id.toNat ++ ", " ++ reader.name ++ "\n"] with
      defaultReaderId := id }

def debug (level : Int32) : Desk :=
  { d.print ["debug level = " ++ toString level.toInt ++ "\n"] with verbose := level }

def present (reader : VReaderData) : String :=
  if reader.hasCard then "CARD_PRESENT" else "            "

/-- The readers with an id are active, and every reader is listed as inactive. -/
def list : Desk :=
  d.print <|
    ["Active Readers:\n"]
    ++ ((d.readers.map Prod.snd).filter fun reader => reader.id ≠ vreaderNoId).map (fun reader =>
      printId reader.id ++ " " ++ present reader ++ " " ++ reader.name ++ "\n")
    ++ ["Inactive Readers:\n"]
    ++ (d.readers.map Prod.snd).map fun reader =>
      "INA " ++ present reader ++ " " ++ reader.name ++ "\n"

/-- The removal of each reader with an id, and before it of its card, is made ready, without the id,
and the program ends before it is sent. -/
def exit : Desk :=
  { d.print ["Active Readers:\n"] with
    unsent := d.unsent ++ ((d.readers.map Prod.snd).filter fun reader =>
      reader.id ≠ vreaderNoId).flatMap fun reader =>
        (if reader.hasCard then [⟨⟨VSCMsgType.cardRemove.value, 0, 0⟩, []⟩] else [])
          ++ [⟨⟨VSCMsgType.readerRemove.value, 0, 0⟩, []⟩]
    exited := true }

/-- The reader that a line names, or else `id`. -/
def idOr (id : UInt32) (number : Option Bytes) (supplied : UInt32) : Except Fault UInt32 :=
  number.elim (.ok id) (getIdFromString · supplied)

/-- A line after which the program goes on. -/
def branch (now : CardNow) (string : Bytes) : Except Fault Desk :=
  let number := Console.numberIn string
  if Text.insert.isPrefixOf string then
    (idOr d.defaultReaderId number d.defaultReaderId).map (d.force "insert" now.inserted)
  else if Text.remove.isPrefixOf string then
    (idOr d.defaultReaderId number d.defaultReaderId).map (d.force "remove" now.removed)
  else if Text.select.isPrefixOf string then
    (idOr d.defaultReaderId number vscardUndefinedReaderId).map d.select
  else if Text.debug.isPrefixOf string then
    (number.elim (.ok d.verbose) fun t => (getIdFromString t 0).map UInt32.toInt32).map d.debug
  else if Text.list.isPrefixOf string then .ok d.list
  else if string = [] then .ok d
  else .ok (d.print Console.validCommands)

/-- A line. -/
def command (now : CardNow) : Option Bytes → Except Fault Desk
  | none => .ok (d.print ["> "])
  | some string =>
    if Text.exit.isPrefixOf string then .ok d.exit
    else do return (← d.branch now string).print ["> "]

/-- The references to readers a line takes and does not give back. -/
def takes : Option Bytes → List ℕ
  | none => []
  | some string =>
    if Text.exit.isPrefixOf string then d.readers.map Prod.fst
    else if Text.list.isPrefixOf string then d.readers.map Prod.fst ++ d.readers.map Prod.fst
    else []

end Desk

/-- And a line before `exit`, or a call. -/
def Console.takes (y : Console) : ConsoleCall → List ℕ
  | .line _ string => if y.exited then [] else y.desk.takes string
  | .call _ => []

/-- The references that a run takes and does not give back. -/
def Console.taken : Console → List ConsoleCall → List ℕ
  | _, [] => []
  | y, c :: calls =>
    y.takes c ++ match y.step c with
      | .ok (_, y) => y.taken calls
      | .error _ => []

end Libcacard
