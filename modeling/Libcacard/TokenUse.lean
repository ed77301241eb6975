import Libcacard.Login
import Libcacard.Program

/-!
# What a card has its token do

Of the applets of a card some have a key, and keep the input of its next operation, some read an
object of the token, and keep it until they are selected again, and the others leave the token
alone. `CardUse` is a card without its files and responses: what is selected, what the applets
keep, and the token. It says which logins, operations and reads of objects are called for, one
command after the other; whether someone is logged in and how long a key is are asked besides.

A token is not the card's alone: another card or another program can use it between two commands.
-/

namespace Libcacard

open Machine

variable {τ : Type}

/-- What an applet has the token do, and what it keeps for that. -/
inductive AppletUse
  | nothing
  | signs (key : VCardKey) (input : Bytes)
  | reads (label : String) (held : Bool)
  deriving DecidableEq, Repr

/-- What it keeps is given up when it is selected. -/
def AppletUse.clear : AppletUse → AppletUse
  | nothing => nothing
  | signs key _ => signs key []
  | reads label _ => reads label false

structure CardUse (τ : Type) where
  applets : List (Bytes × AppletUse)
  selected : Fin maxChannel → Option ℕ
  token : τ

/-- An object of which both files could be made. -/
def holds (object : Option Bytes) : Bool :=
  match passthroughFiles object with
  | .ok (some _, some _) => true
  | _ => false

namespace CardUse

variable (emul : Emul τ) (u : CardUse τ) (apdu : VCardAPDU)

/-- The applet with this AID that was added last. -/
def find (aid : Bytes) : Option ℕ :=
  (List.range u.applets.length).reverse.find? fun i => u.applets[i]?.any (·.1 = aid)

def put (i : ℕ) (use : AppletUse) : CardUse τ :=
  { u with applets := u.applets.modify i fun a => (a.1, use) }

/-- What the current applet of a channel does. -/
def current (channel : Fin maxChannel) : Option (ℕ × AppletUse) :=
  (u.selected channel).bind fun i => u.applets[i]?.map fun a => (i, a.2)

def select (channel : Fin maxChannel) (aid : Bytes) : CardUse τ :=
  { u with
    selected := Function.update u.selected channel (u.find aid)
    applets := match u.find aid with
      | none => u.applets
      | some i => u.applets.modify i fun a => (a.1, a.2.clear) }

/-- A part of an input is kept, the last one has the operation done. -/
def sign (i : ℕ) (key : VCardKey) (input : Bytes) : List Call × CardUse τ :=
  let input := input ++ apdu.body
  if apdu.aP1 = 0x80 then ([], u.put i (.signs key input))
  else if apdu.aP1 = 0x00 then
    ([.rsaOp key input],
      { u.put i (.signs key []) with token := (emul.rsaOp u.token key input).2.2 })
  else ([], u.put i (.signs key []))

def fetch (i : ℕ) (label : String) : List Call × CardUse τ :=
  let (object, token) := emul.readObject u.token label
  ([.readObject label], { u.put i (.reads label (holds object)) with token := token })

/-- What no applet takes. -/
def iso : List Call × CardUse τ :=
  if apdu.GivesPin then
    let (status, token) := emul.login u.token apdu.body
    ([.login apdu.body status], { u with token := token })
  else if apdu.AsksLogin then ([], { u with token := (emul.isLoggedIn u.token).2 })
  else if apdu.Selects apdu.body then ([], u.select apdu.channel apdu.body)
  else ([], u)

/-- One command: the calls it has made, and what they leave. -/
def command : List Call × CardUse τ :=
  match u.current apdu.channel with
  | some (i, .signs key input) =>
    if apdu.Signs then u.sign emul apdu i key input else u.iso emul apdu
  | some (i, .reads label false) =>
    if apdu.aIns = Ins.cacReadBuffer then u.fetch emul i label else u.iso emul apdu
  | _ => u.iso emul apdu

/-- A step of the card, or a change of the token that it has no part in. -/
inductive Op (τ : Type)
  | card (op : CardOp)
  | token (t : τ)

def step : Op τ → List Call × CardUse τ
  | .card (.apdu apdu) => u.command emul apdu
  | .card (.reset power) =>
    ([], { u with selected := fun _ => none, token := emul.reset u.token power })
  | .token t => ([], { u with token := t })

/-- The calls of some steps, one after the other. -/
def trace (u : CardUse τ) : List (Op τ) → List Call × CardUse τ
  | [] => ([], u)
  | op :: ops =>
    let (calls, u) := u.step emul op
    let (more, u) := trace u ops
    (calls ++ more, u)

end CardUse

/-! ## Cards -/

/-- What an applet of a card has the token do. -/
def VCardApplet.use (a : VCardApplet) : AppletUse :=
  match a.processApdu, a.appletPrivate with
  | .cacPki, some p =>
    match p.u with
    | .pkiData input key => .signs key input
    | _ => .nothing
  | .cacPassthrough, some p =>
    match p.u with
    | .ptData label => .reads label (p.tagBuffer.isSome && p.valBuffer.isSome)
    | _ => .nothing
  | _, _ => .nothing

def VCard.use (card : VCard τ) : CardUse τ :=
  ⟨card.applets.map fun a => (a.aid, a.use), card.currentApplet, card.token⟩

/-- The logins, operations and reads among some calls. -/
def tokenCalls (calls : List Call) : List Call :=
  calls.filter fun c => match c with
    | .response _ _ => false
    | _ => true

/-- A new card, whatever the statics of its program. -/
def CardUse.new (emul : Emul τ) (digest : Bytes → Option Bytes) (new : NewCard τ) : CardUse τ :=
  match vcardEmulMakeCard emul digest new.token .initial new.certs with
  | .ok (_, card) => card.use
  | .error _ => ⟨[], fun _ => none, new.token⟩

/-! ## What belongs to a card -/

/-- The objects a card reads, by the AIDs of their applets. -/
def objectLabels : List (Bytes × String) :=
  [(cacPersonInstanceAid, "Person Instance"), (cacPersonnelAid, "Personnel")]

/-- An applet's key is that of the certificate its AID has the number of, its object is its own. -/
def AppletUse.OfCerts (certs : List (Bytes × VCardKey)) (aid : Bytes) : AppletUse → Prop
  | nothing => True
  | signs key _ => ∃ i cert, certs[i]? = some (cert, key) ∧ aid = pkiAid i
  | reads label _ => (aid, label) ∈ objectLabels

def CardUse.OfCerts (certs : List (Bytes × VCardKey)) (u : CardUse τ) : Prop :=
  ∀ a ∈ u.applets, a.2.OfCerts certs a.1

/-- A call that may be made for a step of a card made of `certs`: a login with what VERIFY has; an
operation with the key of the selected applet, for the last part of an input and all before it; an
object, for READ BUFFER to the applet that it is the object of. -/
def CardUse.Allowed (certs : List (Bytes × VCardKey)) (u : CardUse τ) (op : Op τ) :
    Call → Prop
  | .response _ _ => False
  | .login pin _ => ∃ apdu : VCardAPDU, op = .card (.apdu apdu) ∧ apdu.GivesPin ∧ pin = apdu.body
  | .rsaOp key input => ∃ (apdu : VCardAPDU) (j i : ℕ) (cert kept : Bytes),
    op = .card (.apdu apdu) ∧ apdu.Signs ∧ apdu.aP1 = 0x00 ∧ certs[i]? = some (cert, key)
      ∧ u.selected apdu.channel = some j ∧ u.applets[j]? = some (pkiAid i, .signs key kept)
      ∧ input = kept ++ apdu.body
  | .readObject label => ∃ (apdu : VCardAPDU) (j : ℕ) (aid : Bytes), op = .card (.apdu apdu)
    ∧ apdu.aIns = Ins.cacReadBuffer ∧ u.selected apdu.channel = some j
    ∧ u.applets[j]? = some (aid, .reads label false) ∧ (aid, label) ∈ objectLabels

/-- What `vcard_emul_login` is called with, whose trailing FF bytes it makes zeros. -/
def Call.pin? : Call → Option Bytes
  | login pin _ => some pin
  | _ => none

/-- What it is to be called with for a step: the body of a VERIFY. -/
def CardUse.Op.pin? : Op τ → Option Bytes
  | .card (.apdu apdu) => if apdu.GivesPin then some apdu.body else none
  | _ => none

/-! ## Programs -/

/-- A step of a program, or a change of the token of one of its cards by someone else. -/
inductive SharedOp (τ : Type)
  | program (op : ProgramOp τ)
  | token (k : ℕ) (t : τ)

namespace Program

variable (emul : Emul τ) (digest : Bytes → Option Bytes) (y : Program τ)

/-- The calls that were made for card `k` at its last command. -/
def callsAt (k : ℕ) : List (ℕ × Call) :=
  match y.cards[k]? with
  | none => []
  | some card => (tokenCalls card.calls).map (k, ·)

/-- A step, with the calls made for it and the cards they are for. -/
def asks (y : Program τ) : SharedOp τ → Except Fault (List (ℕ × Call) × Program τ)
  | .program op => do
    let (_, y) ← y.step emul digest op
    match op with
    | .card k (.apdu _) => return (y.callsAt k, y)
    | .card _ (.reset _) | .make _ => return ([], y)
  | .token k t =>
    match y.cards[k]? with
    | none => .error .badAddress
    | some card => .ok ([], { y with cards := y.cards.set k { card with token := t } })

end Program

/-- The cards some steps make, in order. -/
def SharedOp.made (ops : List (SharedOp τ)) : List (NewCard τ) :=
  ops.filterMap fun op => match op with
    | .program (.make new) => some new
    | _ => none

/-- What happens to card `k`. -/
def SharedOp.ofCard (k : ℕ) (ops : List (SharedOp τ)) : List (CardUse.Op τ) :=
  ops.filterMap fun op => match op with
    | .program (.card j op) => if j = k then some (.card op) else none
    | .token j t => if j = k then some (.token t) else none
    | .program (.make _) => none

/-- The calls that are for card `k`. -/
def callsOf (k : ℕ) (calls : List (List (ℕ × Call))) : List Call :=
  calls.flatten.filterMap fun c => if c.1 = k then some c.2 else none

end Libcacard
