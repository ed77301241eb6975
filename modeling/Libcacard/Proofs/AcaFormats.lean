import Libcacard.AcaFormats
import Libcacard.Proofs.Aca
import Mathlib.Data.List.Induction
import Mathlib.Data.List.Nodup

/-!
# The two formats of the tables of the ACA applet

Both formats of the applets and their objects read back to the table. In the SimpleTLV format of
the applets by AID an entry carries the first bytes of its structure for the AID, so the two
formats agree only on entries whose AIDs are those bytes.
-/

namespace Libcacard

open Machine

theorem mapM_map_some {α β γ : Type} {g : β → Option γ} {m : α → β} {f : α → γ}
    (h : ∀ x, g (m x) = some (f x)) : ∀ xs : List α, (xs.map m).mapM g = some (xs.map f)
  | [] => rfl
  | x :: xs => by simp [List.mapM_cons, h, mapM_map_some h xs]

theorem acrEntryMember_documented {e : AcrEntry} :
    acrEntryMember e = .leaf Tag.acrEntry e.documented ↔ e.DocumentedInMemory := by
  obtain ⟨acrid, acrtype, appletId, methods, hle⟩ := e
  rcases methods with _ | ⟨⟨p, k⟩, _ | ⟨⟨p', k'⟩, _ | ⟨m, ms⟩⟩⟩
  · simp [acrEntryMember, AcrEntry.documented, AcrEntry.DocumentedInMemory, AcrEntry.toBytes,
      uintBytes]
  · simp [acrEntryMember, AcrEntry.documented, AcrEntry.DocumentedInMemory, AcrEntry.toBytes,
      uintBytes, AcrAccessMethod.toBytes]
    grind
  · simp [acrEntryMember, AcrEntry.documented, AcrEntry.DocumentedInMemory, AcrEntry.toBytes,
      uintBytes, AcrAccessMethod.toBytes]
    grind
  · simp [maxAccessMethods] at hle

theorem readAccessMethod_reads :
    Decoder.Reads readAccessMethod AcrAccessMethod.toBytes id := fun _ _ => rfl

theorem readAcrEntry_reads (e : AcrEntry) : readAcrEntry e.documented = some e.sent := by
  have hle : e.accessMethods.length ≤ 2 := e.accessMethods_le
  have hn : (UInt8.ofNat e.accessMethods.length).toNat = e.accessMethods.length := by
    rw [UInt8.toNat_ofNat']
    exact Nat.mod_eq_of_lt (by omega)
  have hmany := readAccessMethod_reads.many e.accessMethods []
  rw [List.append_nil, List.map_id] at hmany
  rw [AcrEntry.documented, List.cons_append, List.cons_append, List.cons_append, List.nil_append,
    readAcrEntry, hn, Decoder.only, hmany]
  rfl

/-- In the compressed form one access method of zeros is none. -/
def AcrEntry.sentExtended (e : AcrEntry) : SentAcr :=
  ⟨e.acrid, e.acrtype, if e.accessMethods = [⟨0, 0⟩] then [] else e.accessMethods⟩

theorem readAcrEntryExtended_reads : Decoder.Reads (Decoder.sized readAcrEntryExtended)
    acrEntryExtended AcrEntry.sentExtended := by
  rintro ⟨acrid, acrtype, appletId, methods, hle⟩ rest
  rcases methods with _ | ⟨⟨p, k⟩, _ | ⟨⟨p', k'⟩, _ | ⟨m, ms⟩⟩⟩
  · simp [acrEntryExtended, Decoder.sized, readAcrEntryExtended, readMethodsExtended,
      AcrEntry.sentExtended]
  · simp [acrEntryExtended, Decoder.sized, readAcrEntryExtended, readMethodsExtended,
      AcrAccessMethod.toBytes, AcrEntry.sentExtended]
  · simp [acrEntryExtended, Decoder.sized, readAcrEntryExtended, readMethodsExtended,
      AcrAccessMethod.toBytes, AcrEntry.sentExtended]
  · simp [maxAccessMethods] at hle

theorem AcrEntry.DocumentedInMemory.sentExtended {e : AcrEntry} (h : e.DocumentedInMemory) :
    e.sentExtended = e.sent := by
  rcases h with ⟨hm, -⟩ | ⟨hm, -⟩ | ⟨hm, -⟩ <;> rw [AcrEntry.sentExtended, AcrEntry.sent, hm] <;>
    rfl

section Rules

variable {table : List AcrEntry}

theorem cacAcaGetAcr_none (hlen : table.length ≤ 255) : cacAcaGetAcr table none
    = .ok (some (.leaf Tag.acrNumEntries [UInt8.ofNat table.length]
      :: table.map acrEntryMember)) := by
  have hn : (UInt8.ofNat table.length).toNat = table.length := by
    rw [UInt8.toNat_ofNat']
    exact Nat.mod_eq_of_lt (by omega)
  rw [cacAcaGetAcr]
  dsimp only
  rw [hn, fitting_eq (by rw [List.length_cons, List.length_map]), ok_bind, if_neg (by simp)]
  rfl

/-- A filter has room for one rule. -/
theorem cacAcaGetAcr_some (acrid : UInt8) : cacAcaGetAcr table (some acrid)
    = if 1 < (table.filter fun e => e.acrid = acrid).length then .error .outOfBounds
      else .ok (if (table.filter fun e => e.acrid = acrid) = [] then none
        else some ((table.filter fun e => e.acrid = acrid).map acrEntryMember)) := by
  rw [cacAcaGetAcr]
  dsimp only
  split_ifs with h hnil
  · rw [fitting, List.length_map, if_neg (by omega)]
    rfl
  · rw [hnil]
    rfl
  · rw [fitting_eq (by rw [List.length_map]; omega), ok_bind, if_neg (by simpa using hnil)]
    rfl

theorem acrTableExtended_eq (table : List AcrEntry) :
    acrTableExtended table = .ok (table.flatMap acrEntryExtended) := by
  have hmax : ¬ ∃ e ∈ table, maxAccessMethods < e.accessMethods.length := by
    rintro ⟨e, -, he⟩
    exact absurd e.accessMethods_le (Nat.not_le.2 he)
  rw [acrTableExtended, if_neg hmax, fitting_eq]
  have hsum := sum_map_le (f := fun e => (acrEntryExtended e).length) (k := 9) (fun e => by
    obtain ⟨acrid, acrtype, appletId, methods, hle⟩ := e
    rcases methods with _ | ⟨m, _ | ⟨m', _ | ⟨m'', ms⟩⟩⟩
    · simp [acrEntryExtended]
    · simp [acrEntryExtended, AcrAccessMethod.toBytes]
    · simp [acrEntryExtended, AcrAccessMethod.toBytes]
    · simp [maxAccessMethods] at hle) table
  rw [List.length_flatMap, Nat.mul_comm]
  exact hsum

theorem length_filter_acrid (acrid : UInt8) :
    (table.filter fun e => e.acrid = acrid).length = (table.map AcrEntry.acrid).count acrid := by
  rw [List.count, List.countP_map, List.countP_eq_length_filter]
  congr 2

theorem AcrFormatsAgree.inMemory (hlen : table.length ≤ 255) (h : AcrFormatsAgree table) :
    (table.map AcrEntry.acrid).Nodup ∧ ∀ e ∈ table, e.DocumentedInMemory := by
  constructor
  · refine List.nodup_iff_count_le_one.2 fun acrid => ?_
    by_contra hmore
    have hfiltered := h.filtered acrid
    rw [cacAcaGetAcr_some, if_pos (by rw [length_filter_acrid]; omega)] at hfiltered
    cases hfiltered
  · intro e he
    have hlisted := (cacAcaGetAcr_none hlen).symm.trans h.listed
    simp only [Except.ok.injEq, Option.some.injEq, List.cons.injEq, true_and] at hlisted
    exact acrEntryMember_documented.1 (List.map_inj_left.1 hlisted e he)

theorem map_acrEntryMember {es : List AcrEntry} (h : ∀ e ∈ es, e.DocumentedInMemory) :
    es.map acrEntryMember = es.map fun e => .leaf Tag.acrEntry e.documented :=
  List.map_congr_left fun e he => acrEntryMember_documented.2 (h e he)

end Rules

/-- Both formats say the same if and only if no identifier is given twice and the structure of
each rule begins with its documented encoding. -/
theorem acrFormats_agree_iff (table : List AcrEntry) (hlen : table.length ≤ 255) :
    AcrFormatsAgree table
      ↔ (table.map AcrEntry.acrid).Nodup ∧ ∀ e ∈ table, e.DocumentedInMemory := by
  refine ⟨fun h => h.inMemory hlen, fun ⟨hnodup, hmem⟩ => ?_⟩
  have hlisted := cacAcaGetAcr_none hlen
  rw [map_acrEntryMember hmem] at hlisted
  refine ⟨hlisted, fun acrid => ?_, _, _, hlisted, acrTableExtended_eq table, ?_, ?_⟩
  · have hone := List.nodup_iff_count_le_one.1 hnodup acrid
    rw [← length_filter_acrid] at hone
    rw [cacAcaGetAcr_some, if_neg (by omega),
      map_acrEntryMember fun e he => hmem e (List.mem_of_mem_filter he)]
  · have hread : ∀ e : AcrEntry, readLeaf Tag.acrEntry readAcrEntry
        (.leaf Tag.acrEntry e.documented) = some e.sent := readAcrEntry_reads
    rw [readAcrTable, List.length_map, if_pos ⟨rfl, by omega⟩]
    exact mapM_map_some hread table
  · refine (readAcrEntryExtended_reads.toEnd (fun _ => List.cons_ne_nil _ _) table).trans ?_
    rw [List.map_congr_left fun e he => (hmem e he).sentExtended]

theorem acrFormats_agree_iff_two : AcrFormatsAgree [⟨0x00, 0x00, 0x00, [], by decide⟩,
    ⟨0x06, 0x06, 0x01, [⟨0x00, 0x01⟩], by decide⟩] :=
  (acrFormats_agree_iff _ (by decide)).2
    ⟨by decide, by simp only [AcrEntry.DocumentedInMemory]; decide⟩

/-- The rule `02` is sent as `02 00 1F`, which says that it has 31 access methods. -/
theorem acrTable_formats_disagree :
    cacAcaGetAcr acrTable (some 0x02) = .ok (some [.leaf Tag.acrEntry [0x02, 0x00, 0x1f]])
      ∧ ¬ AcrFormatsAgree acrTable := by
  refine ⟨by rw [cacAcaGetAcr_some]; rfl, fun h => ?_⟩
  have hrule := (h.inMemory (by decide)).2 ⟨0x02, 0x00, 0x1f, [], by decide⟩ (by decide)
  exact absurd hrule (by unfold AcrEntry.DocumentedInMemory; decide)

section Active

variable {α : Type} {table : AppletTable α} {pkiApplets : ℕ}

theorem filter_zipIdx {n m : ℕ} (h : n ≤ m) : ∀ (xs : List α) (k : ℕ),
    ((xs.zipIdx k).filter fun (_, i) => ¬ (n ≤ i ∧ i < m)).map Prod.fst
      = xs.take (n - k) ++ xs.drop (m - k)
  | [], k => by simp
  | x :: xs, k => by
    have ih := filter_zipIdx h xs (k + 1)
    rw [List.zipIdx_cons, List.filter_cons]
    rcases Nat.lt_or_ge k n with hkn | hkn
    · rw [show n - k = n - (k + 1) + 1 by omega, show m - k = m - (k + 1) + 1 by omega]
      simpa [Nat.not_le.2 hkn] using ih
    · rcases Nat.lt_or_ge k m with hkm | hkm
      · rw [show n - k = 0 by omega, show m - k = m - (k + 1) + 1 by omega]
        simpa [hkn, hkm, show n - (k + 1) = 0 by omega] using ih
      · rw [show n - k = 0 by omega, show m - k = 0 by omega]
        simpa [Nat.not_lt.2 hkm, show n - (k + 1) = 0 by omega, show m - (k + 1) = 0 by omega]
          using ih

theorem active_eq_listed (h : pkiApplets ≤ 10) :
    table.active pkiApplets = table.listed pkiApplets :=
  filter_zipIdx h table.entries 0

theorem length_listed (h : pkiApplets ≤ 10)
    (htable : table.entries.length = 10 + table.numStatic) :
    (table.listed pkiApplets).length = table.numStatic + pkiApplets := by
  rw [AppletTable.listed, List.length_append, List.length_take, List.length_drop]
  omega

end Active

/-- The bytes of an entry's structure as far as an AID reaches. -/
def AidEntry.structure (e : AidEntry) : Bytes := [e.id, 0, 0, 0, UInt8.ofNat e.aid.length, 0, 0]

theorem take_toBytes (e : AidEntry) :
    e.toBytes.take e.aid.length = e.structure.take e.aid.length := by
  have hle : e.aid.length ≤ 7 := e.aid_le
  have hhigh : ∀ k, 8 ≤ k → e.aid.length / 2 ^ k = 0 := fun k hk =>
    Nat.div_eq_of_lt (Nat.lt_of_lt_of_le (by omega) (Nat.pow_le_pow_right (by decide) hk))
  have hbytes : e.toBytes = e.structure ++ ([0] ++ zeroPadded (maxAidLen + 1) e.aid) := by
    simp only [AidEntry.toBytes, AidEntry.structure, uintBytes, hhigh 8 (by decide),
      hhigh 16 (by decide), hhigh 24 (by decide)]
    rfl
  rw [hbytes, List.take_append_of_le_length hle]

theorem length_take_structure (e : AidEntry) :
    (e.structure.take e.aid.length).length = e.aid.length := by
  rw [List.length_take]
  exact Nat.min_eq_left e.aid_le

theorem readAid_reads (sep : UInt8) (enc : AidEntry → Bytes)
    (hlen : ∀ e, (enc e).length < 256) :
    Decoder.Reads (readAid sep) (fun e => e.id :: sep :: UInt8.ofNat (enc e).length :: enc e)
      fun e => (e.id, enc e) := by
  intro e rest
  have hread := Decoder.sized_reads enc (f := some) (fun _ => rfl) hlen e rest
  rw [List.cons_append, List.cons_append, readAid, if_pos rfl, Decoder.map, hread]
  rfl

theorem aidEntryMember_read (tag : UInt8) (e : AidEntry) :
    readLeaf tag (readAid Tag.acrAid).only (aidEntryMember tag e)
      = some (e.id, e.structure.take e.aid.length) := by
  have hread := (readAid_reads Tag.acrAid (fun e => e.structure.take e.aid.length) (fun e => by
      have hle : e.aid.length ≤ 7 := e.aid_le
      rw [length_take_structure]
      omega)).only e
  rw [length_take_structure] at hread
  rw [aidEntryMember, readLeaf, if_pos rfl, take_toBytes]
  exact hread

theorem readServiceExtended_reads (es : List AidEntry) :
    readServiceExtended (es.flatMap aidEntryExtended) = some (es.map AidEntry.sent) :=
  (readAid_reads 0 AidEntry.aid fun e => by
    have hle : e.aid.length ≤ 7 := e.aid_le
    omega).toEnd (fun _ => List.cons_ne_nil _ _) es

section Services

variable {table : AppletTable AidEntry} {pkiApplets : ℕ} (hpki : pkiApplets ≤ 10)
  (htable : table.entries.length = 10 + table.numStatic)

include hpki htable

theorem cacAcaGetServiceTable_eq : cacAcaGetServiceTable table pkiApplets
    = .ok (.leaf Tag.acrServiceNumEntries [UInt8.ofNat (table.numStatic + pkiApplets)]
      :: (table.listed pkiApplets).map (aidEntryMember Tag.acrServiceEntry)) := by
  have hlen : (SimpletlvMember.leaf Tag.acrServiceNumEntries
      [UInt8.ofNat (table.numStatic + pkiApplets)]
      :: (table.listed pkiApplets).map (aidEntryMember Tag.acrServiceEntry)).length
      = table.numStatic + pkiApplets + 1 := by
    rw [List.length_cons, List.length_map, length_listed hpki htable]
  simp only [cacAcaGetServiceTable, active_eq_listed hpki, fitting_eq (Nat.le_of_eq hlen), ok_bind,
    hlen, if_true, pure_eq]

theorem serviceTableExtended_eq : serviceTableExtended table pkiApplets
    = .ok ((table.listed pkiApplets).flatMap aidEntryExtended) := by
  rw [serviceTableExtended, active_eq_listed hpki, fitting_eq]
  have hsum := sum_map_le (f := fun e => (aidEntryExtended e).length) (k := 10) (fun e => by
    have hle : e.aid.length ≤ 7 := e.aid_le
    simp only [aidEntryExtended, List.length_append, List.length_cons, List.length_nil]
    omega) (table.listed pkiApplets)
  rw [length_listed hpki htable] at hsum
  rw [List.length_flatMap, Nat.mul_comm]
  exact hsum

/-- The SimpleTLV answer lists the entries, each with the first bytes of its structure. -/
theorem readServiceTable_eq {l : List (UInt8 × Bytes)} {ms : List SimpletlvMember}
    (hms : cacAcaGetServiceTable table pkiApplets = .ok ms) :
    readServiceTable ms = some l ↔ table.numStatic + pkiApplets < 256
      ∧ (table.listed pkiApplets).map (fun e => (e.id, e.structure.take e.aid.length)) = l := by
  have hlen := length_listed hpki htable
  rw [cacAcaGetServiceTable_eq hpki htable] at hms
  obtain rfl := Except.ok.inj hms
  have hcount : readLeaf Tag.acrServiceNumEntries some (.leaf Tag.acrServiceNumEntries
      [UInt8.ofNat (table.numStatic + pkiApplets)])
      = some [UInt8.ofNat (table.numStatic + pkiApplets)] := rfl
  rw [readServiceTable, List.length_map, hlen, hcount, mapM_map_some (aidEntryMember_read _)]
  simp only [true_and]
  split_ifs with h
  · simp only [Option.some.injEq, h, true_and]
  · simp only [h, false_and]

theorem ServiceFormatsAgree.structure (h : ServiceFormatsAgree table pkiApplets) :
    table.numStatic + pkiApplets < 256
      ∧ ∀ e ∈ table.listed pkiApplets, e.aid <+: e.structure := by
  obtain ⟨ms, buffer, hms, -, hread, -⟩ := h
  obtain ⟨hcount, hlist⟩ := (readServiceTable_eq hpki htable hms).1 hread
  refine ⟨hcount, fun e he => ?_⟩
  rw [List.prefix_iff_eq_take]
  exact (Prod.mk.inj (List.map_inj_left.1 hlist e he)).2.symm

end Services

/-- The two answers list the same AIDs if and only if the count fits into its byte and each active
entry's AID is what its structure begins with. -/
theorem serviceFormats_agree_iff (table : AppletTable AidEntry) (pkiApplets : ℕ)
    (hpki : pkiApplets ≤ 10) (htable : table.entries.length = 10 + table.numStatic) :
    ServiceFormatsAgree table pkiApplets ↔ table.numStatic + pkiApplets < 256
      ∧ ∀ e ∈ table.listed pkiApplets,
        e.aid <+: [e.id, 0, 0, 0, UInt8.ofNat e.aid.length, 0, 0] := by
  refine ⟨fun h => h.structure hpki htable, fun ⟨hcount, hbegins⟩ => ?_⟩
  refine ⟨_, _, cacAcaGetServiceTable_eq hpki htable, serviceTableExtended_eq hpki htable, ?_,
    readServiceExtended_reads _⟩
  refine (readServiceTable_eq hpki htable (cacAcaGetServiceTable_eq hpki htable)).2 ⟨hcount, ?_⟩
  refine List.map_congr_left fun e he => ?_
  exact Prod.ext rfl (List.prefix_iff_eq_take.1 (hbegins e he)).symm

theorem serviceFormats_agree_iff_three : ServiceFormatsAgree serviceTable 3
    ↔ serviceTable.numStatic + 3 < 256 ∧ ∀ e ∈ serviceTable.listed 3,
      e.aid <+: [e.id, 0, 0, 0, UInt8.ofNat e.aid.length, 0, 0] :=
  serviceFormats_agree_iff serviceTable 3 (by decide) (by decide)

/-- Of the applet `40`, the SimpleTLV answer gives the AID `40 00 00 00 07 00 00`, and the other one
`A0 00 00 01 16 30 00`. -/
theorem serviceTable_formats_disagree : ¬ ServiceFormatsAgree serviceTable 0 := by
  intro h
  have hbegins := (h.structure (by decide) (by decide)).2
    ⟨0x40, [0xa0, 0x00, 0x00, 0x01, 0x16, 0x30, 0x00], by decide⟩ (by decide)
  exact absurd hbegins (by decide)

section Providers

theorem mapM_range_eq {β : Type} {f : ℕ → Except Fault β} {n : ℕ} {ys : List β}
    (hlen : ys.length = n) (h : ∀ i (hi : i < ys.length), f i = .ok ys[i]) :
    (List.range n).mapM f = .ok ys := by
  subst hlen
  induction ys using List.reverseRecOn with
  | nil => rfl
  | append_singleton ys y ih =>
    have hinit := ih fun i hi => by
      rw [h i (by rw [List.length_append]; omega), List.getElem_append_left hi]
    have hlast := h ys.length (by simp)
    rw [List.getElem_concat_length rfl] at hlast
    rw [List.length_append, List.length_singleton, List.range_succ, List.mapM_append, hinit, ok_bind,
      List.mapM_cons, hlast]
    rfl

/-- What is listed are the entries from the second on, each with the first bytes of its structure
for the AID. -/
theorem cacAcaGetAmp_eq {table : AmpTable} (hn : table.numEntries < table.entries.length) :
    cacAcaGetAmp table = .ok (.leaf Tag.acrAmpNumEntries [UInt8.ofNat table.numEntries]
      :: ((table.entries.drop 1).take table.numEntries).map (aidEntryMember Tag.acrAmpEntry)) := by
  have hlen : (((table.entries.drop 1).take table.numEntries).map
      (aidEntryMember Tag.acrAmpEntry)).length = table.numEntries := by
    rw [List.length_map, List.length_take, List.length_drop]
    omega
  rw [cacAcaGetAmp, mapM_range_eq hlen fun i hi => ?_]
  · rfl
  · rw [hlen] at hi
    rw [List.getElem?_eq_getElem (by omega), List.getElem_map, List.getElem_take,
      List.getElem_drop]
    simp only [Nat.add_comm]

theorem readAmpTable_eq {table : AmpTable} (hn : table.numEntries < table.entries.length)
    (hbyte : table.numEntries < 256) {ms : List SimpletlvMember}
    (hms : cacAcaGetAmp table = .ok ms) :
    readAmpTable ms = some (((table.entries.drop 1).take table.numEntries).map
      fun e => (e.id, e.structure.take e.aid.length)) := by
  have hlen : ((table.entries.drop 1).take table.numEntries).length = table.numEntries := by
    rw [List.length_take, List.length_drop]
    omega
  rw [cacAcaGetAmp_eq hn] at hms
  obtain rfl := Except.ok.inj hms
  rw [readAmpTable, List.length_map, hlen, if_pos ⟨rfl, hbyte⟩]
  exact mapM_map_some (aidEntryMember_read _) _

/-- No table lists its own entries: the one behind those it announces is always listed. -/
theorem ampListsEntries_never (table : AmpTable) (hlen : table.entries.length = 5)
    (hpos : 1 ≤ table.numEntries) (hle : table.numEntries ≤ 4) :
    ¬ AmpListsEntries table
      ∧ ∃ ms, cacAcaGetAmp table = .ok ms
        ∧ readAmpTable ms = some (((table.entries.drop 1).take table.numEntries).map
          fun e => (e.id, e.structure.take e.aid.length)) := by
  have hn : table.numEntries < table.entries.length := by omega
  refine ⟨fun h => ?_, _, cacAcaGetAmp_eq hn, readAmpTable_eq hn (by omega) (cacAcaGetAmp_eq hn)⟩
  -- the table with another identifier in the entry behind the announced ones
  obtain ⟨k, hk⟩ : ∃ k, table.numEntries = k + 1 := ⟨table.numEntries - 1, by omega⟩
  obtain ⟨e, he⟩ : ∃ e, table.entries[k + 1]? = some e :=
    ⟨_, List.getElem?_eq_getElem (by omega)⟩
  obtain ⟨other, hother⟩ : ∃ other : AmpTable,
      other = { table with entries := table.entries.set (k + 1) { e with id := e.id + 1 } } :=
    ⟨_, rfl⟩
  have hnum : other.numEntries = table.numEntries := by rw [hother]
  have hn' : other.numEntries < other.entries.length := by
    rw [hother, List.length_set]
    exact hn
  have hsame : cacAcaGetAmp other = cacAcaGetAmp table := by
    rw [hother]
    refine h.within _ List.length_set ?_
    rw [hk, List.take_set_of_le (Nat.le_refl _)]
  have hread := readAmpTable_eq hn (by omega) (cacAcaGetAmp_eq hn)
  have hread' := readAmpTable_eq hn' (by omega) (hsame.trans (cacAcaGetAmp_eq hn))
  have hlast := congrArg (·[k]?) (Option.some.inj (hread.symm.trans hread'))
  have he' : other.entries[k + 1]? = some { e with id := e.id + 1 } := by
    rw [hother, List.getElem?_set_self (by omega)]
  simp [hnum, hk, he, he'] at hlast

theorem ampListsEntries_never_three : ¬ AmpListsEntries ampTable :=
  (ampListsEntries_never ampTable (by decide) (by decide) (by decide)).1

/-- The table of three announces the entries `1F`, `1E` and `1D`, and lists `1E`, `1D` and an empty
one, with the first bytes of their structures. -/
theorem ampTable_lists_others :
    cacAcaGetAmp ampTable = .ok [.leaf Tag.acrAmpNumEntries [3],
        .leaf Tag.acrAmpEntry [0x1e, 0x92, 7, 0x1e, 0, 0, 0, 7, 0, 0],
        .leaf Tag.acrAmpEntry [0x1d, 0x92, 7, 0x1d, 0, 0, 0, 7, 0, 0],
        .leaf Tag.acrAmpEntry [0x00, 0x92, 0]]
      ∧ ¬ AmpListsEntries ampTable := by
  refine ⟨rfl, fun h => ?_⟩
  obtain ⟨ms, hms, hread⟩ := h.listed
  rw [readAmpTable_eq (by decide) (by decide) hms] at hread
  exact absurd hread (by decide)

end Providers

section Objects

theorem readArg_reads (has : Bool) (b : UInt8) (rest : Bytes) :
    readArg has ((if has then [b] else []) ++ rest) = some (if has then some b else none, rest) := by
  cases has <;> rfl

theorem readIns_reads : Decoder.Reads readIns acrInsBytes CacIns.sent := by
  intro i rest
  have h₁ := readArg_reads i.hasP1 i.p1
  have h₂ := readArg_reads i.hasP2 i.p2
  have h₃ := readArg_reads i.hasData1 i.data1
  simp only [acrInsBytes, List.append_assoc, List.cons_append, List.nil_append, readIns,
    Option.bind_eq_bind]
  rw [show decide (i.config &&& 0x01 ≠ 0) = i.hasP1 from rfl, h₁, Option.bind_some,
    show decide (i.config &&& 0x02 ≠ 0) = i.hasP2 from rfl, h₂, Option.bind_some,
    show decide (i.config &&& 0x04 ≠ 0) = i.hasData1 from rfl, h₃]
  rfl

theorem readObject_reads (o : AcrObject) : readObject (acrObjectBytes o) = some o.sent := by
  have hread := readIns_reads.toEnd (fun _ => List.cons_ne_nil _ _) o.ins
  rw [acrObjectBytes, List.cons_append, List.cons_append, List.nil_append, readObject, hread]
  rfl

theorem readObject_sized : Decoder.Reads (Decoder.sized readObject)
    (fun o => UInt8.ofNat (acrObjectBytes o).length :: acrObjectBytes o) AcrObject.sent :=
  Decoder.sized_reads acrObjectBytes readObject_reads fun o => by
    have := length_acrObjectBytes_le o
    omega

theorem readObjectRecord_reads : Decoder.Reads readObjectRecord
    (fun o => [Tag.acrObjectAcr, UInt8.ofNat (acrObjectBytes o).length] ++ acrObjectBytes o)
    AcrObject.sent :=
  fun o rest => readObject_sized o rest

/-- An applet, in a format of its objects. -/
theorem readApplet_reads {object : Decoder SentObject} {enc : AcrObject → Bytes}
    (h : Decoder.Reads object enc AcrObject.sent) (a : AcrApplet) :
    readApplet object ([a.id, UInt8.ofNat a.objects.length] ++ a.objects.flatMap enc)
      = some a.sent := by
  have hle : a.objects.length ≤ 5 := a.objects_le
  have hn : (UInt8.ofNat a.objects.length).toNat = a.objects.length := by
    rw [UInt8.toNat_ofNat']
    exact Nat.mod_eq_of_lt (by omega)
  have hmany := h.many a.objects []
  rw [List.append_nil] at hmany
  rw [List.cons_append, List.cons_append, List.nil_append, readApplet, hn, Decoder.only, hmany]
  rfl

theorem readAppletAcr_reads (a : AcrApplet) : readAppletAcr (acrAppletBytes a) = some a.sent :=
  readApplet_reads readObjectRecord_reads a

theorem readAppletsExtended_reads (as : List AcrApplet) :
    readAppletsExtended (as.flatMap appletRecordBytes) = some (as.map AcrApplet.sent) :=
  (Decoder.sized_reads appletExtendedBytes (readApplet_reads readObject_sized) fun a => by
    have := length_appletExtendedBytes_le a
    omega).toEnd (fun _ => List.cons_ne_nil _ _) as

theorem findSome_findSome {α β γ : Type} {f : α → List β} {p : β → Bool} {g : β → γ} :
    ∀ as : List α,
      (as.findSome? fun a => (f a).findSome? fun b => if p b then some (g b) else none)
        = ((as.flatMap f).find? p).map g
  | [] => rfl
  | a :: as => by
    have hobjects : ∀ bs : List β, (bs.findSome? fun b => if p b then some (g b) else none)
        = (bs.find? p).map g := fun bs => by
      induction bs with
      | nil => rfl
      | cons b bs ih => by_cases hp : p b = true <;> simp [hp, ih]
    rw [List.findSome?_cons, List.flatMap_cons, List.find?_append, hobjects,
      findSome_findSome as]
    rcases (f a).find? p with _ | b <;> rfl

/-- The record of an object is the encoding of the first active object with its identifier. -/
theorem cacAcaGetAppletAcrCoid_eq {table : AppletTable AcrApplet} {pkiApplets : ℕ}
    (hpki : pkiApplets ≤ 10) (id0 id1 : UInt8) :
    cacAcaGetAppletAcrCoid table pkiApplets [id0, id1]
      = (table.firstObject pkiApplets id0 id1).map
        fun o => .leaf Tag.acrObjectAcr (acrObjectBytes o) := by
  have hencode : ∀ o : AcrObject, acrAppletObjectEncode o (acrMaxInstructions * 6 + 2)
      = some (acrObjectBytes o) := fun o => acrAppletObjectEncode_eq (length_acrObjectBytes_le o)
  simp only [cacAcaGetAppletAcrCoid, active_eq_listed hpki, hencode, Option.map_some]
  rw [AppletTable.firstObject, ← findSome_findSome]
  simp only [decide_eq_true_eq, List.cons.injEq, and_true]

/-- Every record is encoded, reads back to what it says, and is no other record's encoding; the
compressed form of the table and the list of its records read back to the active records in
order; and the record of an object is the encoding of the first active object with its
identifier. -/
theorem appletAcr_formats_agree (services : AppletTable AidEntry) (table : AppletTable AcrApplet)
    (pkiApplets : ℕ) (hpki : pkiApplets ≤ 10)
    (htable : table.entries.length = 10 + table.numStatic) :
    (∀ a, ∃ bytes, acrAppletEncode a = .ok (some bytes) ∧ readAppletAcr bytes = some a.sent
        ∧ ∀ b, acrAppletEncode b = .ok (some bytes) → b.sent = a.sent)
      ∧ (∃ count ms, cacAcaGetAppletAcr services table pkiApplets [] = .ok (some (count :: ms))
        ∧ ms.mapM (readLeaf Tag.acrAppletAcr readAppletAcr)
          = some ((table.listed pkiApplets).map AcrApplet.sent))
      ∧ (∃ buffer, appletsTableExtended table pkiApplets = .ok (some buffer)
        ∧ readAppletsExtended buffer = some ((table.listed pkiApplets).map AcrApplet.sent))
      ∧ (∀ id0 id1, table.firstObject pkiApplets id0 id1 = none →
        cacAcaGetAppletAcrCoid table pkiApplets [id0, id1] = none)
      ∧ ∀ id0 id1 o, table.firstObject pkiApplets id0 id1 = some o →
        ∃ bytes, acrAppletObjectEncode o bytes.length = some bytes
          ∧ readObject bytes = some o.sent
          ∧ cacAcaGetAppletAcrCoid table pkiApplets [id0, id1]
            = some (.leaf Tag.acrObjectAcr bytes) := by
  have hlen := length_listed hpki htable
  refine ⟨fun a => ⟨_, acrAppletEncode_eq a, readAppletAcr_reads a, fun b hb => ?_⟩,
    ⟨.leaf Tag.acrNumApplets [UInt8.ofNat (table.numStatic + pkiApplets)],
      (table.listed pkiApplets).map fun a => .leaf Tag.acrAppletAcr (acrAppletBytes a), ?_, ?_⟩,
    ⟨(table.listed pkiApplets).flatMap appletRecordBytes, ?_, readAppletsExtended_reads _⟩,
    fun id0 id1 hnone => ?_, fun id0 id1 o ho => ?_⟩
  · rw [acrAppletEncode_eq b] at hb
    have hread := readAppletAcr_reads b
    rw [Option.some.inj (Except.ok.inj hb), readAppletAcr_reads a] at hread
    exact (Option.some.inj hread).symm
  · simp only [cacAcaGetAppletAcr, ne_eq, not_true, if_false, acrAppletMembers_eq, ok_bind,
      active_eq_listed hpki]
    rw [fitting_eq (by rw [List.length_cons, List.length_map, hlen])]
    rfl
  · have hread : ∀ a, readLeaf Tag.acrAppletAcr readAppletAcr
        (.leaf Tag.acrAppletAcr (acrAppletBytes a)) = some a.sent := readAppletAcr_reads
    exact mapM_map_some hread _
  · rw [← active_eq_listed hpki] at hlen ⊢
    exact appletsTableExtended_eq (Nat.le_of_eq hlen)
  · rw [cacAcaGetAppletAcrCoid_eq hpki, hnone]
    rfl
  · refine ⟨_, acrAppletObjectEncode_eq (Nat.le_refl _), readObject_reads o, ?_⟩
    rw [cacAcaGetAppletAcrCoid_eq hpki, ho]
    rfl

theorem appletAcr_formats_agree_three :
    ∃ buffer, appletsTableExtended appletsTable 3 = .ok (some buffer)
      ∧ readAppletsExtended buffer = some ((appletsTable.listed 3).map AcrApplet.sent) :=
  (appletAcr_formats_agree serviceTable appletsTable 3 (by decide) (by decide)).2.2.1

end Objects

end Libcacard
