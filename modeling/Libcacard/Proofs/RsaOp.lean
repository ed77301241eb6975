import Libcacard.RsaOp

/-!
# The fallback agrees with the raw operation

By index the operation does what `vcardEmulRsaOp` does (`rsaOpBytes_eq`), so it stays inside the
buffer. A signature is looked for and found where `pkcs1Hash` finds it, and the hash padded again is
the buffer; a plaintext is packed the way it was before it was decrypted, but for the padding.
-/

namespace Libcacard

open Machine

variable {σ : Type} {nss : Pk11 σ} {raw : VCardKey → Bytes → Bytes} {buffer hash payload : Bytes}

section Signature

theorem bufferGet_eq {i : ℕ} (hi : i < buffer.length) : bufferGet buffer i = .ok buffer[i] := by
  rw [bufferGet, List.getElem?_eq_getElem hi]

theorem bufferGet_append (xs ys : Bytes) (c : UInt8) :
    bufferGet (xs ++ c :: ys) xs.length = .ok c := by
  simp [bufferGet]

theorem scanPad_eq (i rest : ℕ) (h : i + rest = buffer.length) :
    scanPad buffer i rest = .ok (i + ((buffer.drop i).takeWhile (· = 0xff)).length) := by
  induction rest generalizing i with
  | zero =>
    rw [scanPad, List.drop_eq_nil_of_le (by omega)]
    rfl
  | succ rest ih =>
    have hi : i < buffer.length := by omega
    rw [scanPad, bufferGet_eq hi, ok_bind, List.drop_eq_getElem_cons hi]
    split_ifs with hpad
    · rw [List.takeWhile_cons_of_neg (by simpa using hpad)]
      rfl
    · rw [List.takeWhile_cons_of_pos (by simpa using hpad), ih (i + 1) (by omega),
        List.length_cons]
      congr 1
      omega

theorem pkcs1Hash_unmarked {a b : UInt8} {block : Bytes} (h : ¬ (a = 0 ∧ b = 1)) :
    pkcs1Hash (a :: b :: block) = none := by
  unfold pkcs1Hash
  split
  · rename_i heq
    cases heq
    exact absurd ⟨rfl, rfl⟩ h
  · rfl

/-- Behind the pad stands a zero and the hash. -/
theorem pkcs1Hash_padded {block tail : Bytes} {c : UInt8}
    (h : block.dropWhile (· = 0xff) = c :: tail) :
    pkcs1Hash (0 :: 1 :: block) = if c = 0 then some tail else none := by
  rw [pkcs1Hash, h]
  by_cases hc : c = 0
  · rw [if_pos hc, hc]
    rfl
  · rw [if_neg hc]
    split
    · rename_i heq
      cases heq
      exact absurd rfl hc
    · rfl

theorem signatureHash_eq (h : 2 ≤ buffer.length) :
    signatureHash buffer = .ok (pkcs1Hash buffer) := by
  obtain ⟨a, b, block, rfl⟩ : ∃ a b block, buffer = a :: b :: block := by
    rcases buffer with _ | ⟨a, _ | ⟨b, block⟩⟩
    · simp at h
    · simp at h
    · exact ⟨a, b, block, rfl⟩
  have hscan := @scanPad_eq (a :: b :: block) 2 block.length (by rw [List.length_cons,
    List.length_cons, Nat.add_comm])
  have hsplit := @List.takeWhile_append_dropWhile _ (· = 0xff) block
  rw [List.drop_succ_cons, List.drop_succ_cons, List.drop_zero] at hscan
  unfold signatureHash
  rw [show (a :: b :: block).length - 2 = block.length from rfl]
  simp only [bufferGet_eq (show 0 < (a :: b :: block).length by simp),
    bufferGet_eq (show 1 < (a :: b :: block).length by simp), ok_bind, hscan,
    List.getElem_cons_zero, List.getElem_cons_succ]
  by_cases ha : a = 0
  swap
  · rw [if_pos ha, pkcs1Hash_unmarked fun hmarked => ha hmarked.1]
    rfl
  by_cases hb : b = 1
  swap
  · rw [if_neg (not_not.2 ha), if_pos hb, pkcs1Hash_unmarked fun hmarked => hb hmarked.2]
    rfl
  subst ha hb
  rw [if_neg (not_not.2 rfl), if_neg (not_not.2 rfl)]
  rcases htail : block.dropWhile (· = 0xff) with _ | ⟨c, tail⟩
  · rw [htail, List.append_nil] at hsplit
    rw [pkcs1Hash, htail, hsplit,
      if_pos (by rw [List.length_cons, List.length_cons]; omega)]
    rfl
  · rw [pkcs1Hash_padded htail]
    rw [htail] at hsplit
    generalize block.takeWhile (· = 0xff) = pads at hsplit ⊢
    have hbuffer : (0 : UInt8) :: 1 :: block = (0 :: 1 :: pads) ++ c :: tail := by
      rw [← hsplit, List.cons_append, List.cons_append]
    have hlen : 2 + pads.length = (0 :: 1 :: pads : Bytes).length := by
      rw [List.length_cons, List.length_cons, Nat.add_comm]
    have hdrop : (0 :: 1 :: block : Bytes).drop (2 + pads.length + 1) = tail := by
      rw [hbuffer, hlen, ← List.drop_drop, List.drop_left, List.drop_one, List.tail_cons]
    have hinside : 2 + pads.length < (0 :: 1 :: block : Bytes).length := by
      rw [hbuffer, hlen, List.length_append]
      exact Nat.lt_add_of_pos_right (Nat.succ_pos _)
    rw [if_neg (not_not.2 hinside), hdrop, hbuffer, hlen, bufferGet_append, ok_bind]
    by_cases hc : c = 0
    · rw [if_neg (not_not.2 hc), if_pos hc]
      rfl
    · rw [if_pos hc, if_neg hc]
      rfl

theorem pkcs1Hash_eq_some_iff : pkcs1Hash buffer = some hash
    ↔ ∃ n, buffer = [0x00, 0x01] ++ List.replicate n 0xff ++ 0x00 :: hash := by
  constructor
  · intro h
    unfold pkcs1Hash at h
    split at h
    · rename_i block
      split at h
      · rename_i hdrop
        obtain rfl := Option.some.inj h
        have hsplit := @List.takeWhile_append_dropWhile _ (· = 0xff) block
        have hpads : block.takeWhile (· = 0xff)
            = List.replicate (block.takeWhile (· = 0xff)).length 0xff :=
          List.eq_replicate_iff.2 ⟨rfl, fun c hc => by simpa using List.mem_takeWhile_imp hc⟩
        refine ⟨(block.takeWhile (· = 0xff)).length, ?_⟩
        rw [← hpads, ← hdrop, List.append_assoc, hsplit]
        rfl
      · cases h
    · cases h
  · rintro ⟨n, rfl⟩
    have hdrop : (List.replicate n (0xff : UInt8) ++ 0x00 :: hash).dropWhile (· = 0xff)
        = 0x00 :: hash := by
      rw [List.dropWhile_append_of_pos (fun c hc => by simpa using List.eq_of_mem_replicate hc),
        List.dropWhile_cons_of_neg (by decide)]
    simp only [List.cons_append, List.nil_append, pkcs1Hash, hdrop]

end Signature

section Packing

theorem bufferPut_eq {i : ℕ} {xs : Bytes} (h : i + xs.length ≤ buffer.length) :
    bufferPut buffer i xs = .ok (splice buffer i xs) := if_pos h

theorem length_packedPads (n : ℕ) :
    ([0x00, 0x02] ++ List.replicate n 0x03 : Bytes).length = n + 2 := by
  rw [List.length_append, List.length_replicate, Nat.add_comm]
  rfl

theorem length_packedEnd (n : ℕ) :
    ([0x00, 0x02] ++ List.replicate n 0x03 ++ [0x00] : Bytes).length = n + 3 := by
  rw [List.length_append, length_packedPads, List.length_singleton]

theorem packPayload_eq (buffer payload : Bytes) : packPayload buffer payload
    = .ok (if buffer.length < payload.length + 4 then none
      else some (pkcs1Payload buffer.length payload)) := by
  unfold packPayload
  dsimp only
  split_ifs with hint hshort hshort
  · rfl
  · omega
  · omega
  obtain ⟨n, hn⟩ : ∃ n, buffer.length = n + payload.length + 3 :=
    ⟨buffer.length - payload.length - 3, by omega⟩
  have hpad : ((buffer.length : ℤ) - payload.length - 3).toNat = n := by omega
  -- each write goes on where the one before it stopped
  have hput {i : ℕ} {xs ys : Bytes} (hi : xs.length = i) (hys : i + ys.length ≤ buffer.length) :
      bufferPut (splice buffer 0 xs) i ys = .ok (splice buffer 0 (xs ++ ys)) := by
    subst hi
    have hsplice := @splice_splice _ buffer xs ys 0 (by omega)
    rw [Nat.zero_add] at hsplice
    rw [bufferPut_eq (by rw [length_splice (by omega)]; exact hys), hsplice]
  have hfirst : bufferPut buffer 0 [0x00] = .ok (splice buffer 0 [0x00]) :=
    bufferPut_eq (by rw [List.length_singleton]; omega)
  have hsecond := hput (show [(0x00 : UInt8)].length = 1 from rfl)
    (show 1 + [(0x02 : UInt8)].length ≤ buffer.length by rw [List.length_singleton]; omega)
  have hpads := hput (show [(0x00 : UInt8), 0x02].length = 2 from rfl)
    (show 2 + (List.replicate n (0x03 : UInt8)).length ≤ buffer.length by
      rw [List.length_replicate]; omega)
  have hend := hput (length_packedPads n)
    (show n + 2 + [(0x00 : UInt8)].length ≤ buffer.length by rw [List.length_singleton]; omega)
  have hdata := hput (length_packedEnd n)
    (show n + 3 + payload.length ≤ buffer.length by omega)
  rw [hpad, hfirst, ok_bind, hsecond, ok_bind, List.singleton_append, hpads, ok_bind, hend, ok_bind,
    hdata, ok_bind, splice_whole (by rw [List.length_append, length_packedEnd]; omega),
    pkcs1Payload, show buffer.length - payload.length - 3 = n by omega]
  rfl

end Packing

section ByPattern

theorem rsaFallback_eq {t : NssToken σ} {key : VCardKey} (htwo : 2 ≤ buffer.length)
    (hlen : buffer.length = nss.signatureLen key) :
    rsaFallback nss t key buffer = .ok (rsaPkcs1 nss t key buffer) := by
  rw [rsaFallback, signatureHash_eq htwo, ok_bind, rsaPkcs1]
  rcases pkcs1Hash buffer with _ | hash
  · rcases nss.privDecryptPkcs1 t.slot key buffer with ⟨e | payload, slot⟩
    · simp only [pure_eq]
    · simp only [packPayload_eq, ok_bind]
      split_ifs <;> rfl
  · rcases hsign : nss.sign t.slot key hash with ⟨e | signature, slot⟩
    · simp only [hsign, pure_eq]
    · have hsize : signature.length = buffer.length := by
        rw [hlen]
        exact nss.sign_length t.slot key hash signature (by rw [hsign])
      simp only [hsign, hsize, ne_eq, not_true, if_false, ok_bind, pure_eq,
        bufferPut_eq (show 0 + signature.length ≤ buffer.length by omega), splice_whole hsize]

/-- No index is outside the buffer. -/
theorem rsaOpBytes_eq (t : NssToken σ) (key : VCardKey) (buffer : Bytes)
    (htwo : 2 ≤ nss.signatureLen key) :
    rsaOpBytes nss t key buffer = .ok (vcardEmulRsaOp nss t key buffer) := by
  unfold rsaOpBytes vcardEmulRsaOp
  rcases nss.findPrivateKeyFromCert t.slot key with ⟨found, slot⟩
  dsimp only
  by_cases hinit : t.nssEmulInit
  swap
  · rw [if_pos hinit, if_pos hinit]
  rw [if_neg (not_not.2 hinit), if_neg (not_not.2 hinit)]
  by_cases hfound : found
  swap
  · rw [if_pos hfound, if_pos hfound]
  rw [if_neg (not_not.2 hfound), if_neg (not_not.2 hfound)]
  by_cases hlen : buffer.length = nss.signatureLen key
  swap
  · rw [if_pos hlen, if_pos hlen]
  rw [if_neg (not_not.2 hlen), if_neg (not_not.2 hlen)]
  rcases rsaRaw nss { t with slot := slot } key buffer with ⟨_ | ⟨status, out⟩, t⟩
  · exact rsaFallback_eq (by omega) hlen
  · rfl

end ByPattern

section Pkcs1

theorem pkcs1Hash_isSome_iff : (pkcs1Hash buffer).isSome ↔ SignatureShaped buffer := by
  rw [Option.isSome_iff_exists]
  constructor
  · rintro ⟨hash, h⟩
    obtain ⟨n, hn⟩ := pkcs1Hash_eq_some_iff.1 h
    exact ⟨n, hash, hn⟩
  · rintro ⟨n, hash, hn⟩
    exact ⟨hash, pkcs1Hash_eq_some_iff.2 ⟨n, hn⟩⟩

/-- The padding is as long as it was. -/
theorem signatureBlock_of_pkcs1Hash (h : pkcs1Hash buffer = some hash) :
    signatureBlock buffer.length hash = buffer := by
  obtain ⟨n, rfl⟩ := pkcs1Hash_eq_some_iff.1 h
  rw [signatureBlock]
  congr 3
  simp only [List.length_append, List.length_cons, List.length_nil, List.length_replicate]
  omega

theorem pkcs1Unpad_block {block : Bytes} (h : Pkcs1Block block payload) :
    pkcs1Unpad block = some payload := by
  obtain ⟨pad, rfl, hpad, hnonzero⟩ := h
  have hall : ∀ c ∈ pad, decide (c ≠ 0x00) = true := fun c hc => decide_eq_true (hnonzero c hc)
  have htake : (pad ++ 0x00 :: payload).takeWhile (· ≠ 0x00) = pad := by
    rw [List.takeWhile_append_of_pos hall, List.takeWhile_cons_of_neg (by decide), List.append_nil]
  have hdrop : (pad ++ 0x00 :: payload).dropWhile (· ≠ 0x00) = 0x00 :: payload := by
    rw [List.dropWhile_append_of_pos hall, List.dropWhile_cons_of_neg (by decide)]
  simp only [List.cons_append, List.nil_append]
  rw [pkcs1Unpad, htake, hdrop, if_pos ⟨hpad, List.cons_ne_nil _ _⟩, List.drop_one, List.tail_cons]

theorem Pkcs1Block.length_le {block : Bytes} (h : Pkcs1Block block payload) :
    payload.length + 11 ≤ block.length := by
  obtain ⟨pad, rfl, hpad, -⟩ := h
  simp only [List.length_append, List.length_cons, List.length_nil]
  omega

theorem pkcs1Payload_block {k : ℕ} (h : payload.length + 11 ≤ k) :
    Pkcs1Block (pkcs1Payload k payload) payload := by
  refine ⟨List.replicate (k - payload.length - 3) 0x03, ?_, ?_, ?_⟩
  · rw [pkcs1Payload, List.append_assoc, List.append_assoc, List.append_assoc,
      List.singleton_append]
  · rw [List.length_replicate]
    omega
  · intro c hc
    rw [List.eq_of_mem_replicate hc]
    decide

theorem pkcs1Unpad_eq_some_iff {block : Bytes} :
    pkcs1Unpad block = some payload ↔ Pkcs1Block block payload := by
  refine ⟨fun h => ?_, pkcs1Unpad_block⟩
  unfold pkcs1Unpad at h
  split at h
  swap
  · cases h
  rename_i block
  split_ifs at h with hpad
  obtain rfl := Option.some.inj h
  refine ⟨block.takeWhile (· ≠ 0x00), ?_, hpad.1, fun c hc => by
    simpa using List.mem_takeWhile_imp hc⟩
  have hsplit := @List.takeWhile_append_dropWhile _ (· ≠ 0x00) block
  rcases hdrop : block.dropWhile (· ≠ 0x00) with _ | ⟨c, tail⟩
  · exact absurd hdrop hpad.2
  · have hc : c = 0x00 := by
      have hhead := @List.head?_dropWhile_not _ (· ≠ 0x00) block
      rw [hdrop] at hhead
      simpa using hhead
    rw [hdrop, hc] at hsplit
    rw [List.append_assoc, hdrop, List.drop_one, List.tail_cons, hsplit]
    rfl

end Pkcs1

section Fallback

theorem vcardEmulMapError_ne_success (e : SecError) : vcardEmulMapError e ≠ Status.success := by
  cases e <;> decide

theorem rsaPkcs1_agrees (hnss : nss.Pkcs1 raw) {t : NssToken σ} {key : VCardKey}
    (hlen : buffer.length = nss.signatureLen key)
    (hsuccess : (rsaPkcs1 nss t key buffer).1 = Status.success) :
    AgreesWithRaw (nss.signatureLen key) buffer (rsaPkcs1 nss t key buffer).2.1
      (raw key buffer) := by
  rw [rsaPkcs1] at hsuccess ⊢
  rcases hhash : pkcs1Hash buffer with _ | hash
  · have hplain : ¬ SignatureShaped buffer := by
      rw [← pkcs1Hash_isSome_iff, hhash]
      exact Bool.false_ne_true
    rcases hdecrypt : nss.privDecryptPkcs1 t.slot key buffer with ⟨e | payload, slot⟩
    · simp only [hhash, hdecrypt] at hsuccess
      exact absurd hsuccess (vcardEmulMapError_ne_success e)
    · have hblock := hnss.decrypt t.slot key buffer payload (by rw [hdecrypt])
      have hroom : payload.length + 11 ≤ nss.signatureLen key :=
        le_of_le_of_eq hblock.length_le (hnss.length key buffer hlen)
      have hpacked := pkcs1Payload_block hroom
      simp only [if_neg (show ¬ buffer.length < payload.length + 4 by omega)]
      refine ⟨fun h => absurd h hplain, fun _ => ⟨?_, payload, ?_⟩⟩
      · rw [length_pkcs1Payload (by omega), hlen]
      · rw [hlen]
        exact ⟨hpacked, hblock, pkcs1Unpad_block hpacked, pkcs1Unpad_block hblock⟩
  · have hshaped : SignatureShaped buffer := by
      rw [← pkcs1Hash_isSome_iff, hhash]
      rfl
    rcases hsign : nss.sign t.slot key hash with ⟨e | signature, slot⟩
    · simp only [hhash, hsign] at hsuccess
      exact absurd hsuccess (vcardEmulMapError_ne_success e)
    · obtain ⟨-, hsignature⟩ := hnss.sign t.slot key hash signature (by rw [hsign])
      rw [← hlen, signatureBlock_of_pkcs1Hash hhash] at hsignature
      simp only [hsign]
      exact ⟨fun _ => hsignature, fun h => absurd hshaped h⟩

theorem vcardEmulRsaOp_fallsBack {t : NssToken σ} {key : VCardKey}
    (hlen : buffer.length = nss.signatureLen key) (h : FallsBack nss t key buffer) :
    ∃ t', vcardEmulRsaOp nss t key buffer = rsaPkcs1 nss t' key buffer := by
  obtain ⟨hinit, hfound, hraw⟩ := h
  unfold vcardEmulRsaOp
  dsimp only
  rw [if_neg (not_not.2 hinit), if_neg (not_not.2 hfound), if_neg (not_not.2 hlen)]
  rcases hr : rsaRaw nss { t with slot := (nss.findPrivateKeyFromCert t.slot key).2 } key buffer
    with ⟨r, t'⟩
  rw [hr] at hraw
  obtain rfl : r = none := hraw
  exact ⟨t', rfl⟩

theorem rsaOp_agrees (hnss : nss.Pkcs1 raw) (t : NssToken σ) (key : VCardKey) (buffer : Bytes)
    (hk : 64 ≤ nss.signatureLen key) (hlen : buffer.length = nss.signatureLen key) :
    ∃ status out t', rsaOpBytes nss t key buffer = .ok (status, out, t')
      ∧ (FallsBack nss t key buffer → status = Status.success →
        AgreesWithRaw (nss.signatureLen key) buffer out (raw key buffer)) := by
  refine ⟨(vcardEmulRsaOp nss t key buffer).1, (vcardEmulRsaOp nss t key buffer).2.1,
    (vcardEmulRsaOp nss t key buffer).2.2, rsaOpBytes_eq t key buffer (by omega),
    fun hfalls hsuccess => ?_⟩
  obtain ⟨t', ht'⟩ := vcardEmulRsaOp_fallsBack hlen hfalls
  rw [ht'] at hsuccess ⊢
  exact rsaPkcs1_agrees hnss hlen hsuccess

/-- A token that does not do the raw operation, whose keys of 64 bytes give their input back. -/
def Pk11.textbook : Pk11 Unit where
  needLogin _ := false
  isLoggedIn _ := true
  authenticate s _ := (true, s)
  logout s := s
  publicKeyStrengthInBits _ := some 512
  findPrivateKeyFromCert s _ := (true, s)
  signatureLen _ := 64
  doesMechanism _ := false
  privDecryptRaw s _ _ := (.error .invalidAlgorithm, s)
  sign s _ hash :=
    (if hash.length + 11 ≤ 64 then .ok (signatureBlock 64 hash) else .error .inputLen, s)
  privDecryptPkcs1 s _ c := ((pkcs1Unpad c).elim (.error .badData) .ok, s)
  findGenericObjects s := ([], s)
  privDecryptRaw_length _ _ _ _ h := by cases h
  sign_length _ _ hash _ h := by
    split_ifs at h with hroom
    obtain rfl := Except.ok.inj h
    simp only [signatureBlock, List.length_append, List.length_cons, List.length_nil,
      List.length_replicate]
    omega
  value_length _ _ _ h := by cases h

theorem Pk11.pkcs1_textbook : Pk11.textbook.Pkcs1 (fun _ c => c) where
  length _ _ h := h
  decryptRaw _ _ _ _ h := by cases h
  sign _ _ hash _ h := by
    change (if hash.length + 11 ≤ 64 then _ else _) = _ at h
    split_ifs at h with hroom
    exact ⟨hroom, (Except.ok.inj h).symm⟩
  decrypt _ _ c payload h := by
    change (pkcs1Unpad c).elim _ _ = _ at h
    rcases hunpad : pkcs1Unpad c with _ | found <;> rw [hunpad] at h
    · cases h
    · exact Except.ok.inj h ▸ pkcs1Unpad_eq_some_iff.1 hunpad

def softToken : NssToken Unit := ⟨true, (), fun _ => .unknown⟩

/-- A signature, and a plaintext that is decrypted. -/
theorem rsaOp_agrees_textbook :
    (∃ out t', rsaOpBytes Pk11.textbook softToken 0 (signatureBlock 64 [0x2a])
        = .ok (Status.success, out, t')
      ∧ AgreesWithRaw 64 (signatureBlock 64 [0x2a]) out (signatureBlock 64 [0x2a]))
    ∧ ∃ out t', rsaOpBytes Pk11.textbook softToken 0 (pkcs1Payload 64 [0x2a])
        = .ok (Status.success, out, t')
      ∧ AgreesWithRaw 64 (pkcs1Payload 64 [0x2a]) out (pkcs1Payload 64 [0x2a]) := by
  have hfalls : ∀ buffer, FallsBack Pk11.textbook softToken 0 buffer := fun _ => ⟨rfl, rfl, rfl⟩
  have hagrees : ∀ buffer : Bytes, buffer.length = 64 →
      (rsaOpBytes Pk11.textbook softToken 0 buffer).toOption.map Prod.fst = some Status.success →
      ∃ out t', rsaOpBytes Pk11.textbook softToken 0 buffer = .ok (Status.success, out, t')
        ∧ AgreesWithRaw 64 buffer out buffer := by
    intro buffer hlen hdone
    obtain ⟨status, out, t', hrun, h⟩ := rsaOp_agrees Pk11.pkcs1_textbook softToken 0 buffer
      (by decide) hlen
    rw [hrun] at hdone
    obtain rfl : status = Status.success := Option.some.inj hdone
    exact ⟨out, t', hrun, h (hfalls buffer) rfl⟩
  exact ⟨hagrees _ (by decide) (by decide +kernel), hagrees _ (by decide) (by decide +kernel)⟩

end Fallback

end Libcacard
