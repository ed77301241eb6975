import Libcacard.Apdu

/-!
# The token behind a card

What a card asks of the token is answered by functions on the token's state, so a token can
answer every command in its own way. The calls one command made are kept beside the card's state;
nothing the card does depends on them.
-/

namespace Libcacard

open Machine

/-- A key of the token, by its address. -/
abbrev VCardKey := ℕ

inductive VCardPower
  | on
  | off
  deriving DecidableEq, Repr

/-- The functions of `vcard_emul.h` a card calls. `vcard_emul_rsa_op` works in place, and the
length of an object is an `unsigned int`. -/
structure Emul (τ : Type) where
  getLoginCount : τ → ℤ
  login : τ → Bytes → UInt16 × τ
  isLoggedIn : τ → ℤ × τ
  reset : τ → VCardPower → τ
  rsaBits : VCardKey → ℤ
  rsaOp : τ → VCardKey → Bytes → UInt16 × Bytes × τ
  readObject : τ → String → Option Bytes × τ
  rsaOp_length : ∀ t key b, (rsaOp t key b).2.1.length = b.length
  readObject_length : ∀ t label b, (readObject t label).1 = some b → b.length < 2 ^ 32

/-- A token that needs no PIN, has one object under every label or none, and whose operation gives
its input back. -/
def Emul.plain (object : Option Bytes) (h : ∀ b, object = some b → b.length < 2 ^ 32) :
    Emul Unit where
  getLoginCount _ := -1
  login _ _ := (Status.success, ())
  isLoggedIn _ := (1, ())
  reset _ _ := ()
  rsaBits _ := 2048
  rsaOp _ _ b := (Status.success, b, ())
  readObject _ _ := (object, ())
  rsaOp_length _ _ _ := rfl
  readObject_length _ _ := h

theorem Emul.plain_none : ∀ b, (none : Option Bytes) = some b → b.length < 2 ^ 32 := by simp

/-- A call a command made. -/
inductive Call
  | response (payload : Bytes) (Le : ℕ)
  | login (pin : Bytes) (status : UInt16)
  | rsaOp (key : VCardKey) (input : Bytes)
  | readObject (label : String)
  deriving DecidableEq, Repr

end Libcacard
