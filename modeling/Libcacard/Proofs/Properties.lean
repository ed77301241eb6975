import Libcacard.Proofs.Answer
import Libcacard.Proofs.EncodeExact
import Libcacard.CacFiles

/-!
# Lists of short records

Everything a CAC applet encodes is made of records of a few bytes, so no answer comes near the
limits of the encoder, however many of them a command asks for.
-/

namespace Libcacard

open Machine

/-- A record that can be encoded and takes at most 256 bytes. -/
def Short (m : SimpletlvMember) : Prop := Encodable [m] ∧ (record m).length ≤ 256

instance (m : SimpletlvMember) : Decidable (Short m) := inferInstanceAs (Decidable (_ ∧ _))

theorem short_leaf {tag : UInt8} {v : Bytes} (ht : TagOk tag) (hv : v.length ≤ 252) :
    Short (.leaf tag v) := by
  refine ⟨⟨⟨ht, by omega⟩, trivial⟩, ?_⟩
  rw [record, List.length_append, length_header]
  split_ifs <;> omega

theorem encodable_of_short : ∀ {ms : List SimpletlvMember}, (∀ m ∈ ms, Short m) → Encodable ms
  | [], _ => trivial
  | m :: ms, h => by
    obtain ⟨⟨hm, -⟩, hms⟩ := List.forall_mem_cons.1 h
    exact ⟨hm.1, encodable_of_short hms⟩

theorem length_serialise_le : ∀ {ms : List SimpletlvMember}, (∀ m ∈ ms, Short m) →
    (serialise ms).length ≤ 256 * ms.length
  | [], _ => by simp [serialise]
  | m :: ms, h => by
    obtain ⟨⟨-, hm⟩, hms⟩ := List.forall_mem_cons.1 h
    have := length_serialise_le hms
    rw [serialise, List.length_append, List.length_cons]
    omega

/-- Encoding into a new buffer. -/
theorem simpletlvEncodeNew_eq {ms : List SimpletlvMember} (h : Encodable ms)
    (hlen : (serialise ms).length < 2 ^ 31) :
    simpletlvEncodeNew ms = .ok ((serialise ms).length,
      if serialise ms = [] then none else some (serialise ms)) := by
  rcases Nat.eq_zero_or_pos (serialise ms).length with h0 | h0
  · have hnil : serialise ms = [] := List.length_eq_zero_iff.1 h0
    rw [simpletlvEncodeNew, simpletlvEncode_nil h0, if_pos hnil, h0]
    rfl
  · have hne : serialise ms ≠ [] := List.length_pos_iff.1 h0
    rcases simpletlvEncode_new hlen h0 with
      ⟨-, heq⟩ | ⟨hnot, -⟩
    · rw [simpletlvEncodeNew, heq, if_neg hne]
      rfl
    · exact absurd h hnot

variable {τ : Type} {s : Session τ}

theorem matchingMembers_mem {properties : List SimpletlvMember} : ∀ {tags : Bytes}
    {cp : List SimpletlvMember}, matchingMembers properties tags = some cp →
      cp.length = tags.length ∧ ∀ m ∈ cp, m ∈ properties
  | [], cp, h => by
    obtain rfl : [] = cp := by simpa [matchingMembers] using h
    simp
  | t :: tags, cp, h => by
    unfold matchingMembers at h
    split at h
    · rename_i m cp' hm hcp
      obtain rfl : m :: cp' = cp := by simpa using h
      obtain ⟨hlen, hmem⟩ := matchingMembers_mem hcp
      exact ⟨by simp [hlen], List.forall_mem_cons.2 ⟨List.mem_of_find?_eq_some hm, hmem⟩⟩
    · simp at h

/-- The encoding of properties is sent, unless more bytes than it has were asked for. -/
def propertiesReply (s : Session τ) (payload : Bytes) (aLe : ℕ) : VCardResponse × Session τ :=
  if payload.length < aLe then
    (vcardResponseNewStatusBytes 0x6c (UInt8.ofNat payload.length), s)
  else respond s payload aLe Status.success

theorem getProperties_none {properties : List SimpletlvMember} {n : ℕ} {tags : Bytes} (aLe : ℕ)
    (hn : n ≤ properties.length) (hasked : askedProperties properties n tags = none) :
    getProperties s properties n tags aLe
      = .ok (vcardMakeResponse Status.errorDataNotFound, s) := by
  unfold askedProperties at hasked
  simp only [getProperties, firstMembers, if_pos hn, ok_bind, hasked]
  rfl

theorem getProperties_encodable {properties cp : List SimpletlvMember} {n : ℕ} {tags : Bytes}
    (aLe : ℕ) (hn : n ≤ properties.length) (henc : Encodable cp)
    (hbytes : (serialise cp).length < 2 ^ 31)
    (hasked : askedProperties properties n tags = some cp) :
    getProperties s properties n tags aLe =
      if serialise cp = [] then .ok (vcardMakeResponse Status.errorGeneral, s)
      else .ok (propertiesReply s (serialise cp) aLe) := by
  have hunsigned : (((serialise cp).length : ℤ) % 2 ^ 32).toNat = (serialise cp).length := by
    omega
  have hint : toInt32 (serialise cp).length = (serialise cp).length := toInt32_natCast hbytes
  unfold askedProperties at hasked
  simp only [getProperties, firstMembers, if_pos hn, ok_bind, hasked,
    simpletlvEncodeNew_eq henc hbytes, hunsigned, hint]
  by_cases h0 : serialise cp = []
  · rw [if_pos (by rw [h0]; rfl), if_pos h0]
    rfl
  rw [if_neg (mt List.length_eq_zero_iff.1 h0), if_neg h0]
  unfold propertiesReply
  split_ifs with hLe
  · rfl
  · rw [Option.getD_some, vcardResponseNew_all]

theorem getProperties_eq {properties cp : List SimpletlvMember} {n : ℕ} {tags : Bytes} (aLe : ℕ)
    (hn : n ≤ properties.length) (hshort : ∀ m ∈ cp, Short m) (hlen : cp.length < 2 ^ 16)
    (hasked : askedProperties properties n tags = some cp) :
    getProperties s properties n tags aLe =
      if serialise cp = [] then .ok (vcardMakeResponse Status.errorGeneral, s)
      else .ok (propertiesReply s (serialise cp) aLe) := by
  have hle := length_serialise_le hshort
  exact getProperties_encodable aLe hn (encodable_of_short hshort) (by omega) hasked

theorem askedProperties_mem {properties cp : List SimpletlvMember} {n : ℕ} {tags : Bytes}
    (hasked : askedProperties properties n tags = some cp) :
    (cp.length ≤ n ∨ cp.length = tags.length) ∧ ∀ m ∈ cp, m ∈ properties := by
  unfold askedProperties at hasked
  split_ifs at hasked
  · obtain rfl := Option.some.inj hasked
    exact ⟨.inl (List.length_take_le n properties), fun m hm => List.mem_of_mem_take hm⟩
  · obtain ⟨hlen, hsub⟩ := matchingMembers_mem hasked
    exact ⟨.inr hlen, fun m hm => List.mem_of_mem_take (hsub m hm)⟩

/-- Asking for properties is answered, whatever tags are asked for. -/
theorem getProperties_answered {properties : List SimpletlvMember} {n : ℕ} {tags : Bytes}
    (aLe : ℕ) (hn : n ≤ properties.length) (hshort : ∀ m ∈ properties, Short m)
    (hprops : n < 2 ^ 16) (htags : tags.length < 2 ^ 16) :
    ∃ r, getProperties s properties n tags aLe = .ok r ∧ Answered s aLe r := by
  rcases hasked : askedProperties properties n tags with _ | cp
  · exact ⟨_, getProperties_none aLe hn hasked, .status _⟩
  · obtain ⟨hlen, hmem⟩ := askedProperties_mem hasked
    have heq := getProperties_eq (s := s) aLe hn (fun m hm => hshort m (hmem m hm))
      (by omega) hasked
    unfold propertiesReply at heq
    split_ifs at heq with h0 hLe
    · exact ⟨_, heq, .status _⟩
    · exact ⟨_, heq, .statusBytes _ _⟩
    · exact ⟨_, heq, .payload _ _⟩

end Libcacard
