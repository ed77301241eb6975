import Libcacard.Lib.Memory

/-!
# Reading records back

A decoder takes a record off the front of its input and gives the rest, or fails. It reads an
encoding when it gives back what was written, whatever follows.
-/

namespace Machine

abbrev Decoder (β : Type*) := Bytes → Option (β × Bytes)

namespace Decoder

variable {α β γ : Type*}

def map (f : β → γ) (d : Decoder β) : Decoder γ := fun bs => (d bs).map fun r => (f r.1, r.2)

/-- A value that `f` reads from as many bytes as the first byte says. -/
def sized (f : Bytes → Option β) : Decoder β
  | [] => none
  | n :: bs => if bs.length < n.toNat then none else (f (bs.take n.toNat)).map (·, bs.drop n.toNat)

/-- As many records as asked for. -/
def many (d : Decoder β) : ℕ → Decoder (List β)
  | 0, bs => some ([], bs)
  | n + 1, bs => do
    let (b, bs) ← d bs
    let (l, bs) ← many d n bs
    return (b :: l, bs)

/-- At most `fuel` records, and nothing behind them. -/
def upTo (d : Decoder β) : ℕ → Bytes → Option (List β)
  | _, [] => some []
  | 0, _ :: _ => none
  | fuel + 1, b :: bs => do
    let (x, bs) ← d (b :: bs)
    let l ← upTo d fuel bs
    return x :: l

/-- Records up to the end of the input. -/
def toEnd (d : Decoder β) (bs : Bytes) : Option (List β) := d.upTo bs.length bs

/-- One record and nothing behind it. -/
def only (d : Decoder β) (bs : Bytes) : Option β :=
  (d bs).bind fun r => if r.2 = [] then some r.1 else none

/-- `d` reads what `enc` writes for `a` as `view a`. -/
def Reads (d : Decoder β) (enc : α → Bytes) (view : α → β) : Prop :=
  ∀ a rest, d (enc a ++ rest) = some (view a, rest)

variable {d : Decoder β} {enc : α → Bytes} {view : α → β}

theorem Reads.only (h : Reads d enc view) (a : α) : d.only (enc a) = some (view a) := by
  have := h a []
  rw [List.append_nil] at this
  rw [Decoder.only, this]
  rfl

theorem Reads.map (h : Reads d enc view) (f : β → γ) : Reads (d.map f) enc (f ∘ view) :=
  fun a rest => by rw [Decoder.map, h]; rfl

theorem sized_reads (enc : α → Bytes) {f : Bytes → Option β} (hf : ∀ a, f (enc a) = some (view a))
    (hlen : ∀ a, (enc a).length < 256) :
    Reads (sized f) (fun a => UInt8.ofNat (enc a).length :: enc a) view := by
  intro a rest
  have hn : (UInt8.ofNat (enc a).length).toNat = (enc a).length := by
    rw [UInt8.toNat_ofNat']
    exact Nat.mod_eq_of_lt (hlen a)
  rw [List.cons_append, sized, hn, if_neg (by simp), List.take_left, hf, List.drop_left]
  rfl

theorem Reads.many (h : Reads d enc view) : ∀ (as : List α) (rest : Bytes),
    d.many as.length (as.flatMap enc ++ rest) = some (as.map view, rest)
  | [], _ => rfl
  | a :: as, rest => by
    rw [List.length_cons, List.flatMap_cons, List.append_assoc, Decoder.many, h]
    simp only [h.many as rest, Option.bind_eq_bind, Option.bind_some]
    rfl

theorem Reads.upTo (h : Reads d enc view) (hne : ∀ a, enc a ≠ []) : ∀ {fuel : ℕ} (as : List α),
    as.length ≤ fuel → d.upTo fuel (as.flatMap enc) = some (as.map view)
  | fuel, [], _ => by rcases fuel <;> rfl
  | fuel + 1, a :: as, hf => by
    obtain ⟨b, bs, hb⟩ := List.exists_cons_of_ne_nil (hne a)
    have ha := h a (as.flatMap enc)
    rw [hb, List.cons_append] at ha
    rw [List.flatMap_cons, hb, List.cons_append, Decoder.upTo, ha]
    simp only [h.upTo hne as (Nat.le_of_succ_le_succ hf), Option.bind_eq_bind, Option.bind_some]
    rfl

theorem Reads.toEnd (h : Reads d enc view) (hne : ∀ a, enc a ≠ []) (as : List α) :
    d.toEnd (as.flatMap enc) = some (as.map view) := by
  refine h.upTo hne as ?_
  induction as with
  | nil => exact Nat.zero_le _
  | cons a as ih =>
    have := List.length_pos_iff.2 (hne a)
    rw [List.flatMap_cons, List.length_append, List.length_cons]
    omega

end Decoder

end Machine
