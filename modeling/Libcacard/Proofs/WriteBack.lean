import Libcacard.Proofs.Halves
import Libcacard.Proofs.RoundTrip
import Mathlib.Data.List.Forall2

/-!
# Writing parsed data back

The parser takes any tag and any length of two bytes, and the encoder does not. What was parsed can
be written back, and is read back then, if and only if every record has a tag and a length of the
encoder's.
-/

namespace Libcacard

open Machine

/-- What is parsed is nothing, or is encoded to bytes that are parsed to it again, and so are its
tags and lengths. -/
def WrittenBack (d : Bytes) : Prop :=
  ∃ ms, simpletlvParse d = .ok ms ∧ (ms ≠ [] → ∃ e tl, EncodesTo simpletlvEncode ms e
    ∧ EncodesTo simpletlvEncodeTl ms tl ∧ simpletlvParse e = .ok ms)

variable {ms : List SimpletlvMember}

theorem leaves_of_parsed : ∀ {ms : List SimpletlvMember}, Parsed ms → leaves ms = ms
  | [], _ => rfl
  | m :: ms, h => by
    obtain ⟨tag, v, rfl, -⟩ := h m List.mem_cons_self
    rw [leaves, leaves_of_parsed fun m hm => h m (List.mem_cons_of_mem _ hm)]

theorem serialise_ne_nil (h : Parsed ms) (hne : ms ≠ []) : serialise ms ≠ [] := by
  obtain ⟨m, ms, rfl⟩ := List.exists_cons_of_ne_nil hne
  obtain ⟨tag, v, rfl, -⟩ := h m List.mem_cons_self
  simp [serialise, record, header]

/-- The records a byte string begins with are the first that are parsed. -/
theorem records_subset {d rest : Bytes} {raws : List Bytes} {ms all : List SimpletlvMember}
    (hraws : List.Forall₂ RawRecord raws ms) (hd : d = raws.flatten ++ rest)
    (hall : simpletlvParse d = .ok all) : ms ⊆ all := by
  obtain ⟨raws', ms', rest', hraws', rfl, hrest'⟩ := exists_records rest
  have hparse := simpletlvParse_flatten (List.rel_append hraws hraws') hrest'
  rw [List.flatten_append, List.append_assoc, ← hd, hall] at hparse
  rw [Except.ok.inj hparse]
  exact List.subset_append_left _ _

/-- The records of a byte string can be written if and only if what is parsed can. -/
theorem recordsWritable_iff {d : Bytes} (hparse : simpletlvParse d = .ok ms) :
    RecordsWritable d ↔ Encodable ms := by
  rw [encodable_iff_forall]
  constructor
  · intro h
    obtain ⟨tlv, raws, rest, htlv, hraws, hd, -⟩ := simpletlvParse_records d
    obtain rfl := Except.ok.inj (hparse.symm.trans htlv)
    exact h raws ms rest hraws hd
  · exact fun h raws ms' rest hraws hd m hm => h m (records_subset hraws hd hparse hm)

/-- An encoder that does not take a list does not write it. -/
theorem not_encodesTo (hnot : ¬ Encodable ms) (hlen : (serialise ms).length < 2 ^ 31)
    (hne : serialise ms ≠ []) (e : Bytes) : ¬ EncodesTo simpletlvEncode ms e := by
  intro h
  obtain ⟨mem', r, hr, hrv, -⟩ := h [] none 0 none ⟨by decide, fun h => nomatch h⟩
    fun h => nomatch h
  rcases @simpletlvEncode_new [] ms none none hlen (List.length_pos_iff.2 hne) with
    ⟨henc, -⟩ | ⟨-, heq⟩
  · exact hnot henc
  · obtain ⟨-, rfl⟩ := Prod.mk.inj (Except.ok.inj (heq.symm.trans hr))
    change (-1 : ℤ) = e.length at hrv
    omega

theorem writtenBack_iff_encodable {d : Bytes} (hd : d.length < 2 ^ 31)
    (hparse : simpletlvParse d = .ok ms) : WrittenBack d ↔ Encodable ms := by
  obtain ⟨ms', hparse', hparsed, hhalf⟩ := exists_parsed d
  obtain rfl := Except.ok.inj (hparse.symm.trans hparse')
  have hboth : half .both ms = serialise ms := half_both hparsed.flat
  have hlen : (serialise ms).length < 2 ^ 31 := by
    rw [← hboth]
    exact Nat.lt_of_le_of_lt (hhalf .both) hd
  constructor
  · rintro ⟨all, hall, h⟩
    obtain rfl := Except.ok.inj (hparse.symm.trans hall)
    by_contra hnot
    have hne : ms ≠ [] := by
      rintro rfl
      exact hnot trivial
    obtain ⟨e, tl, he, -⟩ := h hne
    exact not_encodesTo hnot hlen (serialise_ne_nil hparsed hne) e he
  · intro henc
    refine ⟨ms, hparse, fun _ => ⟨half .both ms, half .tl ms,
      encodesTo_half hparsed.flat hparsed.sized (fun _ => henc) (hboth ▸ hlen),
      encodesTo_half hparsed.flat hparsed.sized (fun _ => henc)
        (Nat.lt_of_le_of_lt (hhalf .tl) hd), ?_⟩⟩
    rw [hboth, simpletlvParse_serialise henc, leaves_of_parsed hparsed]

/-- Which byte strings are written back when they are parsed. -/
theorem writtenBack_iff (d : Bytes) (hd : d.length < 2 ^ 31) :
    WrittenBack d ↔ RecordsWritable d := by
  obtain ⟨ms, hparse, -⟩ := exists_parsed d
  rw [writtenBack_iff_encodable hd hparse, recordsWritable_iff hparse]

theorem writtenBack_long : WrittenBack [0x01, 0xff, 0x02, 0x00, 0x07, 0x07] := by
  have hparse : simpletlvParse [0x01, 0xff, 0x02, 0x00, 0x07, 0x07]
      = .ok [.leaf 0x01 [0x07, 0x07]] :=
    simpletlvParse_flatten (.cons (.long 0x01 [0x07, 0x07] (by decide)) .nil) trivial
  exact (writtenBack_iff _ (by decide)).2 ((recordsWritable_iff hparse).2 (by decide))

/-- A record with the tag 00, and one with a value of 65535 bytes. -/
theorem unwritable_records :
    ¬ WrittenBack [0x00, 0x01, 0x41]
      ∧ ¬ WrittenBack (0x01 :: 0xff :: 0xff :: 0xff :: List.replicate 65535 0) := by
  constructor
  · have hparse : simpletlvParse [0x00, 0x01, 0x41] = .ok [.leaf 0x00 [0x41]] :=
      simpletlvParse_flatten (.cons (.short 0x00 [0x41] (by decide)) .nil) trivial
    rw [writtenBack_iff_encodable (by decide) hparse]
    decide
  · have hraw : RawRecord (0x01 :: 0xff :: (ushort2lebytes 65535 ++ List.replicate 65535 0))
        (.leaf 0x01 (List.replicate 65535 0)) := by
      have := RawRecord.long 0x01 (List.replicate 65535 0)
      rw [List.length_replicate] at this
      exact this (by decide)
    have hparse := simpletlvParse_flatten (.cons hraw .nil) (show Incomplete [] from trivial)
    rw [List.append_nil, List.flatten_cons, List.flatten_nil, List.append_nil] at hparse
    change ¬ WrittenBack (0x01 :: 0xff :: (ushort2lebytes 65535 ++ List.replicate 65535 0))
    rw [writtenBack_iff_encodable _ hparse]
    · rintro ⟨⟨-, hle⟩, -⟩
      rw [List.length_replicate] at hle
      omega
    · simp only [List.length_cons, List.length_append, List.length_replicate,
        length_ushort2lebytes]
      omega

end Libcacard
