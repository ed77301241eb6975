import Libcacard.Aca
import Libcacard.Proofs.Properties

/-!
# The tables of the ACA fit their buffers

What the encoders of the object table write is as long as was counted for it, so they never run
out of space, and the lists and buffers allocated for a table have room for its entries.
-/

namespace Libcacard

open Machine

section Objects

/-- What is written for an instruction. -/
def acrInsBytes (i : CacIns) : Bytes :=
  [i.code, i.config] ++ (if i.hasP1 then [i.p1] else []) ++ (if i.hasP2 then [i.p2] else [])
    ++ (if i.hasData1 then [i.data1] else []) ++ [i.acrid]

/-- What is written for an object. -/
def acrObjectBytes (o : AcrObject) : Bytes := [o.id0, o.id1] ++ o.ins.flatMap acrInsBytes

/-- What is written for an applet. -/
def acrAppletBytes (a : AcrApplet) : Bytes :=
  [a.id, UInt8.ofNat a.objects.length] ++ a.objects.flatMap fun o =>
    [Tag.acrObjectAcr, UInt8.ofNat (acrObjectBytes o).length] ++ acrObjectBytes o

theorem length_acrInsBytes (i : CacIns) : (acrInsBytes i).length = acrInsLength i := by
  unfold acrInsBytes acrInsLength
  cases i.hasP1 <;> cases i.hasP2 <;> cases i.hasData1 <;> rfl

theorem acrInsLength_le (i : CacIns) : acrInsLength i ≤ 6 := by
  unfold acrInsLength
  cases i.hasP1 <;> cases i.hasP2 <;> cases i.hasData1 <;> decide

theorem putBytes_nil (o : Bytes × ℕ) : putBytes [] o = some o := by
  simp [putBytes]

/-- Writing one thing after another is writing both. -/
theorem putBytes_bind (xs ys : Bytes) (o : Bytes × ℕ) :
    (putBytes xs o).bind (putBytes ys) = putBytes (xs ++ ys) o := by
  obtain ⟨p, n⟩ := o
  simp only [putBytes, List.length_append]
  by_cases hx : n < xs.length
  · rw [if_pos hx, if_pos (by omega)]
    rfl
  · rw [if_neg hx, Option.bind_some, putBytes]
    by_cases hy : n - xs.length < ys.length
    · rw [if_pos hy, if_pos (by omega)]
    · rw [if_neg hy, if_neg (by omega), List.append_assoc, Nat.sub_sub]

theorem acrInsEncode_eq (i : CacIns) (o : Bytes × ℕ) :
    acrInsEncode i o = putBytes (acrInsBytes i) o := by
  simp only [acrInsEncode, acrInsBytes, Option.bind_eq_bind, ← putBytes_bind, Option.bind_assoc]
  cases i.hasP1 <;> cases i.hasP2 <;> cases i.hasData1 <;> simp [putBytes_nil]

theorem acrInsListEncode_eq : ∀ (is : List CacIns) (o : Bytes × ℕ),
    acrInsListEncode is o = putBytes (is.flatMap acrInsBytes) o
  | [], o => (putBytes_nil o).symm
  | i :: is, o => by
    rw [acrInsListEncode, acrInsEncode_eq, List.flatMap_cons, ← putBytes_bind]
    congr 1
    exact funext (acrInsListEncode_eq is)

theorem acrAppletObjectEncode_eq {o : AcrObject} {n : ℕ} (h : (acrObjectBytes o).length ≤ n) :
    acrAppletObjectEncode o n = some (acrObjectBytes o) := by
  have hlist : acrInsListEncode o.ins = putBytes (o.ins.flatMap acrInsBytes) :=
    funext (acrInsListEncode_eq o.ins)
  rw [acrAppletObjectEncode, hlist, putBytes_bind, ← acrObjectBytes, putBytes,
    if_neg (by omega)]
  rfl

theorem length_flatMap_acrInsBytes (is : List CacIns) :
    (is.flatMap acrInsBytes).length = (is.map acrInsLength).sum := by
  rw [List.length_flatMap]
  congr 1
  exact List.map_congr_left fun i _ => length_acrInsBytes i

theorem length_acrObjectBytes (o : AcrObject) :
    (acrObjectBytes o).length = 2 + (o.ins.map acrInsLength).sum := by
  rw [acrObjectBytes, List.length_append, length_flatMap_acrInsBytes]
  rfl

theorem sum_map_le {α : Type} {f : α → ℕ} {k : ℕ} (hf : ∀ x, f x ≤ k) :
    ∀ xs : List α, (xs.map f).sum ≤ k * xs.length
  | [] => Nat.le_refl _
  | x :: xs => by
    have := hf x
    have := sum_map_le hf xs
    simp only [List.map_cons, List.sum_cons, List.length_cons, Nat.mul_add]
    omega

theorem length_acrObjectBytes_le (o : AcrObject) : (acrObjectBytes o).length ≤ 32 := by
  have hsum := sum_map_le acrInsLength_le o.ins
  have hins : o.ins.length ≤ 5 := o.ins_le
  rw [length_acrObjectBytes]
  omega

theorem length_acrAppletBytes (a : AcrApplet) :
    (acrAppletBytes a).length = acrAppletLength a := by
  rw [acrAppletBytes, List.length_append, List.length_flatMap, acrAppletLength]
  simp only [List.length_append, length_acrObjectBytes, List.length_cons, List.length_nil]
  congr 3
  funext o
  omega

theorem acrAppletLength_le (a : AcrApplet) : acrAppletLength a ≤ 172 := by
  have hsum := sum_map_le (f := fun o : AcrObject => 4 + (o.ins.map acrInsLength).sum) (k := 34)
    (fun o => by
      have := length_acrObjectBytes_le o
      rw [length_acrObjectBytes] at this
      omega) a.objects
  have hobjects : a.objects.length ≤ 5 := a.objects_le
  rw [acrAppletLength]
  omega

theorem acrObjectsEncode_eq {bufferLen : ℕ} : ∀ {os : List AcrObject} {p : Bytes},
    p.length + (os.map fun o => 4 + (o.ins.map acrInsLength).sum).sum ≤ bufferLen →
      acrObjectsEncode bufferLen os p = .ok (some (p ++ os.flatMap fun o =>
        [Tag.acrObjectAcr, UInt8.ofNat (acrObjectBytes o).length] ++ acrObjectBytes o))
  | [], p, _ => by simp [acrObjectsEncode]
  | o :: os, p, h => by
    have hlen := length_acrObjectBytes o
    simp only [List.map_cons, List.sum_cons] at h
    rw [acrObjectsEncode, if_neg (by omega), acrAppletObjectEncode_eq (by omega)]
    simp only []
    rw [acrObjectsEncode_eq (by
      simp only [List.length_append, List.length_cons, List.length_nil]
      omega)]
    simp

/-- The encoding of an applet is never cut short, and its length is the one counted. -/
theorem acrAppletEncode_eq (a : AcrApplet) : acrAppletEncode a = .ok (some (acrAppletBytes a)) := by
  have hlen := length_acrAppletBytes a
  rw [acrAppletEncode, acrObjectsEncode_eq (by
    rw [acrAppletLength]
    simp only [List.length_cons, List.length_nil]
    omega), ok_bind, ← acrAppletBytes]
  simp only [hlen, if_true]
  rfl

theorem acrAppletMembers_eq : ∀ as : List AcrApplet,
    acrAppletMembers as = .ok (some (as.map fun a => .leaf Tag.acrAppletAcr (acrAppletBytes a)))
  | [] => rfl
  | a :: as => by
    simp [acrAppletMembers, acrAppletEncode_eq, acrAppletMembers_eq as]

/-- What is written for an object in the compressed form. -/
def objectExtendedBytes (o : AcrObject) : Bytes :=
  UInt8.ofNat (acrObjectBytes o).length :: acrObjectBytes o

/-- What is written for an applet in the compressed form, behind its length. -/
def appletExtendedBytes (a : AcrApplet) : Bytes :=
  [a.id, UInt8.ofNat a.objects.length] ++ a.objects.flatMap objectExtendedBytes

/-- The record of an applet in the compressed form. -/
def appletRecordBytes (a : AcrApplet) : Bytes :=
  UInt8.ofNat (appletExtendedBytes a).length :: appletExtendedBytes a

theorem length_objectsExtended_le (os : List AcrObject) :
    (os.flatMap objectExtendedBytes).length ≤ 33 * os.length := by
  rw [List.length_flatMap]
  refine sum_map_le (fun o => ?_) os
  have := length_acrObjectBytes_le o
  rw [objectExtendedBytes, List.length_cons]
  omega

theorem length_appletExtendedBytes_le (a : AcrApplet) : (appletExtendedBytes a).length ≤ 167 := by
  have hobjects : a.objects.length ≤ 5 := a.objects_le
  have := length_objectsExtended_le a.objects
  simp only [appletExtendedBytes, List.length_append, List.length_cons, List.length_nil]
  omega

theorem objectsExtended_eq (bufferLen : ℕ) : ∀ (os : List AcrObject) (p : Bytes) (plen : ℕ),
    p.length + 33 * os.length ≤ bufferLen → bufferLen ≤ plen + p.length →
      ∃ plen', objectsExtended bufferLen os (p, plen)
          = .ok (some (p ++ os.flatMap objectExtendedBytes, plen'))
        ∧ bufferLen ≤ plen' + (p ++ os.flatMap objectExtendedBytes).length
  | [], p, plen, _, h => ⟨plen, by simp [objectsExtended], by simpa using h⟩
  | o :: os, p, plen, hp, hplen => by
    have hlen := length_acrObjectBytes_le o
    rw [List.length_cons] at hp
    have hfit : (p ++ [UInt8.ofNat (acrObjectBytes o).length] ++ acrObjectBytes o).length
        = p.length + 1 + (acrObjectBytes o).length := by simp; omega
    obtain ⟨plen', heq, hleft⟩ := objectsExtended_eq bufferLen os
      (p ++ [UInt8.ofNat (acrObjectBytes o).length] ++ acrObjectBytes o)
      (plen - (acrObjectBytes o).length) (by omega) (by omega)
    have happend : p ++ [UInt8.ofNat (acrObjectBytes o).length] ++ acrObjectBytes o
        ++ os.flatMap objectExtendedBytes = p ++ (o :: os).flatMap objectExtendedBytes := by
      simp [objectExtendedBytes]
    rw [happend] at heq hleft
    refine ⟨plen', ?_, hleft⟩
    rw [objectsExtended, acrAppletObjectEncode_eq (by omega)]
    simp only [fitting, hfit, show p.length + 1 + (acrObjectBytes o).length ≤ bufferLen by omega,
      if_true, ok_bind, heq]

theorem appletsExtended_eq (bufferLen : ℕ) : ∀ (as : List AcrApplet) (p : Bytes) (plen : ℕ),
    p.length + 168 * as.length ≤ bufferLen → bufferLen ≤ plen + p.length →
      ∃ plen', appletsExtended bufferLen as (p, plen)
        = .ok (some (p ++ as.flatMap appletRecordBytes, plen'))
  | [], p, plen, _, _ => ⟨plen, by simp [appletsExtended]⟩
  | a :: as, p, plen, hp, hplen => by
    have hobjects : a.objects.length ≤ 5 := a.objects_le
    have hbody := length_appletExtendedBytes_le a
    rw [List.length_cons] at hp
    have hfit : (p ++ [0x00, a.id, UInt8.ofNat a.objects.length]).length = p.length + 3 := by simp
    obtain ⟨plen', heq, hleft⟩ := objectsExtended_eq bufferLen a.objects
      (p ++ [0x00, a.id, UInt8.ofNat a.objects.length]) (plen - 3) (by omega) (by omega)
    have hrecord : p ++ [0x00, a.id, UInt8.ofNat a.objects.length]
        ++ a.objects.flatMap objectExtendedBytes = p ++ 0x00 :: appletExtendedBytes a := by
      simp [appletExtendedBytes]
    have hlen : (p ++ 0x00 :: appletExtendedBytes a).length - p.length - 1
        = (appletExtendedBytes a).length := by
      simp only [List.length_append, List.length_cons]
      omega
    have hset : (p ++ 0x00 :: appletExtendedBytes a).set p.length
        (UInt8.ofNat (appletExtendedBytes a).length) = p ++ appletRecordBytes a := by
      rw [List.set_append_right _ _ (Nat.le_refl _), Nat.sub_self]
      rfl
    have hlen' : (p ++ appletRecordBytes a).length
        = p.length + 1 + (appletExtendedBytes a).length := by
      simp only [appletRecordBytes, List.length_append, List.length_cons]
      omega
    rw [hrecord] at heq hleft
    simp only [List.length_append, List.length_cons] at hleft
    obtain ⟨plen'', heq'⟩ := appletsExtended_eq bufferLen as (p ++ appletRecordBytes a) plen'
      (by omega) (by omega)
    refine ⟨plen'', ?_⟩
    rw [appletsExtended, if_neg (by omega)]
    simp only [fitting, hfit, show p.length + 3 ≤ bufferLen by omega, if_true, ok_bind, heq, hlen,
      hset, heq', List.flatMap_cons, List.append_assoc]

theorem appletsTableExtended_eq {table : AppletTable AcrApplet} {pkiApplets : ℕ}
    (h : (table.active pkiApplets).length ≤ table.numStatic + pkiApplets) :
    appletsTableExtended table pkiApplets
      = .ok (some ((table.active pkiApplets).flatMap appletRecordBytes)) := by
  have hsize : 168 * (table.active pkiApplets).length ≤ (table.numStatic + pkiApplets)
      * (3 + acrMaxAppletObjects * (3 + acrMaxInstructions * 6)) := by
    rw [Nat.mul_comm]
    exact Nat.mul_le_mul_right 168 h
  obtain ⟨plen', heq⟩ := appletsExtended_eq _ _ []
    ((table.numStatic + pkiApplets)
      * (3 + acrMaxAppletObjects * (3 + acrMaxInstructions * 6)))
    (by simpa using hsize) (by simp)
  simp only [appletsTableExtended, heq, ok_bind]
  rfl

end Objects

section Answers

variable {τ : Type} {s : Session τ} {Le : ℕ}

theorem acaRespond_eq {acr : List SimpletlvMember} (hshort : ∀ m ∈ acr, Short m)
    (hlen : acr.length < 2 ^ 16) : acaRespond s Le acr
      = .ok (respond s (serialise (cacAcaGetProperties ++ acr)) Le Status.success) := by
  have hall : ∀ m ∈ cacAcaGetProperties ++ acr, Short m := by
    intro m hm
    rcases List.mem_append.1 hm with hm | hm
    · have hinfo : ∀ m ∈ cacAcaGetProperties, Short m := by decide
      exact hinfo m hm
    · exact hshort m hm
  have hle := length_serialise_le hall
  rw [List.length_append, show cacAcaGetProperties.length = 1 from rfl] at hle
  have hbytes : (serialise (cacAcaGetProperties ++ acr)).length < 2 ^ 31 := by omega
  have hint := toInt32_natCast hbytes
  have hne : serialise (cacAcaGetProperties ++ acr) ≠ [] := List.cons_ne_nil _ _
  rw [acaRespond, simpletlvEncodeNew_eq (encodable_of_short hall) hbytes, ok_bind]
  simp only [hint, hne, if_false]
  exact vcardResponseNew_all _ _

theorem fitting_eq {α : Type} {n : ℕ} {xs : List α} (h : xs.length ≤ n) :
    fitting n xs = .ok xs := by
  rw [fitting, if_pos h]

/-- At most one entry has a key that all entries have different. -/
theorem length_filter_le_one {α β : Type} [DecidableEq β] {f : α → β} (b : β) :
    ∀ (xs : List α), (xs.map f).Nodup → (xs.filter fun x => f x = b).length ≤ 1
  | [], _ => by simp
  | x :: xs, h => by
    obtain ⟨hx, hxs⟩ := List.nodup_cons.1 h
    by_cases hb : f x = b
    · have hnone : xs.filter (fun x => f x = b) = [] := by
        refine List.filter_eq_nil_iff.2 fun y hy hyb => hx ?_
        rw [hb, ← of_decide_eq_true hyb]
        exact List.mem_map_of_mem hy
      simp [hb, hnone]
    · simpa [hb] using length_filter_le_one b xs hxs

theorem length_serialise_sublist {ms ns : List SimpletlvMember} (h : ms.Sublist ns) :
    (serialise ms).length ≤ (serialise ns).length := by
  induction h with
  | slnil => exact Nat.le_refl _
  | cons _ _ ih =>
    rw [serialise, List.length_append]
    omega
  | cons_cons _ _ ih =>
    rw [serialise, serialise, List.length_append, List.length_append]
    omega

/-- The members of the access control rules. -/
def acrMembers : List SimpletlvMember :=
  .leaf Tag.acrNumEntries [UInt8.ofNat acrTable.length] :: acrTable.map acrEntryMember

theorem cacAcaGetAcr_sublist (acrid : Option UInt8) :
    ∃ acr, cacAcaGetAcr acrTable acrid = .ok acr ∧ ∀ ms, acr = some ms → ms.Sublist acrMembers := by
  cases acrid with
  | none =>
    refine ⟨_, by rw [cacAcaGetAcr, fitting_eq (by decide)]; rfl, fun ms hms => ?_⟩
    rw [← Option.some.inj hms]
    exact List.Sublist.refl _
  | some acrid =>
    have hone := length_filter_le_one acrid (f := AcrEntry.acrid) acrTable (by decide)
    refine ⟨_, by
      rw [cacAcaGetAcr]
      simp only []
      rw [fitting_eq (by simpa using hone)]
      rfl, fun ms hms => ?_⟩
    split_ifs at hms with hnil
    rw [← Option.some.inj hms]
    exact (List.filter_sublist.map acrEntryMember).trans (List.sublist_cons_self _ _)

/-- The access control rules, or one of them, take at most 81 bytes. -/
theorem cacAcaGetAcrResponse_cases (acrid : Option UInt8) (format : AcrFormat) :
    cacAcaGetAcrResponse s Le acrid format = .ok (vcardMakeResponse Status.errorDataNotFound, s)
      ∨ ∃ payload, payload.length ≤ 81
        ∧ cacAcaGetAcrResponse s Le acrid format = .ok (respond s payload Le Status.success) := by
  cases format with
  | extended =>
    obtain ⟨buffer, hbuffer, hlen⟩ : ∃ buffer, acrTableExtended acrTable = .ok buffer
        ∧ buffer.length ≤ 81 :=
      ⟨_, by rw [acrTableExtended, if_neg (by decide), fitting_eq (by decide)], by decide⟩
    refine .inr ⟨buffer, hlen, ?_⟩
    simp only [cacAcaGetAcrResponse, hbuffer, ok_bind]
    exact vcardResponseNew_all _ _
  | simpleTlv =>
    obtain ⟨acr, hacr, hsub⟩ := cacAcaGetAcr_sublist acrid
    simp only [cacAcaGetAcrResponse, hacr, ok_bind]
    rcases acr with _ | ms
    · exact .inl rfl
    · have hsub := hsub ms rfl
      have hshort : ∀ m ∈ acrMembers, Short m := by decide
      have hlen : acrMembers.length < 2 ^ 16 := by decide
      have hbytes : (serialise (cacAcaGetProperties ++ acrMembers)).length ≤ 81 := by decide
      exact .inr ⟨_, (length_serialise_sublist (hsub.append_left _)).trans hbytes,
        acaRespond_eq (fun m hm => hshort m (hsub.subset hm))
          (Nat.lt_of_le_of_lt hsub.length_le hlen)⟩

theorem active_subset {α : Type} {table : AppletTable α} {pkiApplets : ℕ} {a : α}
    (h : a ∈ table.active pkiApplets) : a ∈ table.entries := by
  obtain ⟨⟨x, i⟩, hx, rfl⟩ := List.mem_map.1 h
  exact (List.mem_zipIdx (List.mem_of_mem_filter hx)).2.2 ▸ List.getElem_mem _

theorem active_sublist {α : Type} (table : AppletTable α) (pkiApplets : ℕ) :
    (table.active pkiApplets).Sublist table.entries := by
  have h := (List.filter_sublist (l := table.entries.zipIdx)
    (p := fun (x : α × ℕ) => decide ¬ (pkiApplets ≤ x.2 ∧ x.2 < 10))).map Prod.fst
  simpa [AppletTable.active] using h

/-- What is sent for the service applets. -/
def servicePayload (pkiApplets : ℕ) : AcrFormat → Bytes
  | .extended => (serviceTable.active pkiApplets).flatMap aidEntryExtended
  | .simpleTlv => serialise (cacAcaGetProperties ++ .leaf Tag.acrServiceNumEntries
      [UInt8.ofNat (serviceTable.numStatic + pkiApplets)]
      :: (serviceTable.active pkiApplets).map (aidEntryMember Tag.acrServiceEntry))

theorem cacAcaGetServiceResponse_eq {pkiApplets : ℕ} (h : pkiApplets ≤ 10) (format : AcrFormat) :
    cacAcaGetServiceResponse s Le pkiApplets format
      = .ok (respond s (servicePayload pkiApplets format) Le Status.success) := by
  have hactive : ∀ n ≤ 10, (serviceTable.active n).length = 12 + n := by decide
  cases format with
  | extended =>
    have hfit : ((serviceTable.active pkiApplets).flatMap aidEntryExtended).length
        ≤ (serviceTable.numStatic + pkiApplets) * (3 + maxAidLen) := by
      rw [List.length_flatMap]
      refine Nat.le_trans (sum_map_le (k := 10) (fun e => ?_) _) ?_
      · have := e.aid_le
        simp only [maxAidLen] at this
        simp only [aidEntryExtended, List.length_append, List.length_cons, List.length_nil]
        omega
      · rw [hactive _ h]
        exact Nat.le_of_eq (Nat.mul_comm _ _)
    simp only [cacAcaGetServiceResponse, serviceTableExtended, fitting_eq hfit, ok_bind]
    exact vcardResponseNew_all _ _
  | simpleTlv =>
    have hshort : ∀ e ∈ serviceTable.entries, Short (aidEntryMember Tag.acrServiceEntry e) := by
      decide
    have hlen : (SimpletlvMember.leaf Tag.acrServiceNumEntries
        [UInt8.ofNat (serviceTable.numStatic + pkiApplets)]
        :: (serviceTable.active pkiApplets).map (aidEntryMember Tag.acrServiceEntry)).length
        = serviceTable.numStatic + pkiApplets + 1 := by
      rw [List.length_cons, List.length_map, hactive _ h]
      rfl
    have hnum : serviceTable.numStatic = 12 := rfl
    simp only [cacAcaGetServiceResponse, cacAcaGetServiceTable, fitting_eq (Nat.le_of_eq hlen),
      ok_bind, hlen, if_true, pure_eq]
    exact acaRespond_eq (List.forall_mem_cons.2 ⟨short_leaf (by decide) (by simp),
      List.forall_mem_map.2 fun e he => hshort e (active_subset he)⟩) (by omega)

theorem cacAcaGetAmpResponse_eq (format : AcrFormat) : ∃ payload, payload.length ≤ 42
    ∧ cacAcaGetAmpResponse s Le format = .ok (respond s payload Le Status.success) := by
  cases format with
  | extended => exact ⟨ampTableExtended, by decide, vcardResponseNew_all _ _⟩
  | simpleTlv =>
    obtain ⟨ms, hms, hshort, hlen, hbytes⟩ : ∃ ms, cacAcaGetAmp ampTable = .ok ms
        ∧ (∀ m ∈ ms, Short m) ∧ ms.length < 2 ^ 16
        ∧ (serialise (cacAcaGetProperties ++ ms)).length ≤ 42 :=
      ⟨_, rfl, by decide, by decide, by decide⟩
    refine ⟨_, hbytes, ?_⟩
    simp only [cacAcaGetAmpResponse, hms, ok_bind]
    exact acaRespond_eq hshort hlen

theorem short_appletAcr (a : AcrApplet) : Short (.leaf Tag.acrAppletAcr (acrAppletBytes a)) := by
  have hlen := length_acrAppletBytes a
  have hle := acrAppletLength_le a
  exact short_leaf (by decide) (by omega)

/-- The members of all applets. -/
def appletAcrMembers (pkiApplets : ℕ) : List SimpletlvMember :=
  .leaf Tag.acrNumApplets [UInt8.ofNat (appletsTable.numStatic + pkiApplets)]
    :: (appletsTable.active pkiApplets).map fun a => .leaf Tag.acrAppletAcr (acrAppletBytes a)

theorem length_active {pkiApplets : ℕ} (h : pkiApplets ≤ 10) :
    (appletsTable.active pkiApplets).length = appletsTable.numStatic + pkiApplets :=
  (show ∀ n ≤ 10, (appletsTable.active n).length = 13 + n by decide) _ h

theorem short_appletAcrMembers {pkiApplets : ℕ} : ∀ m ∈ appletAcrMembers pkiApplets, Short m :=
  List.forall_mem_cons.2 ⟨short_leaf (by decide) (by simp),
    List.forall_mem_map.2 fun a _ => short_appletAcr a⟩

theorem cacAcaGetAppletAcr_all {pkiApplets : ℕ} (h : pkiApplets ≤ 10) :
    cacAcaGetAppletAcr serviceTable appletsTable pkiApplets []
      = .ok (some (appletAcrMembers pkiApplets)) := by
  have hfit : (appletAcrMembers pkiApplets).length ≤ appletsTable.numStatic + pkiApplets + 1 := by
    rw [appletAcrMembers, List.length_cons, List.length_map, length_active h]
  simp only [cacAcaGetAppletAcr, ne_eq, not_true, if_false, acrAppletMembers_eq, ok_bind]
  rw [← appletAcrMembers, fitting_eq hfit]
  rfl

/-- The members of the applets with an identifier, of which there is at most one. -/
def appletAcrsOf (pkiApplets : ℕ) (id : UInt8) : List SimpletlvMember :=
  ((appletsTable.active pkiApplets).filter fun a => a.id = id).map
    fun a => .leaf Tag.acrAppletAcr (acrAppletBytes a)

theorem length_appletAcrsOf (pkiApplets : ℕ) (id : UInt8) :
    (appletAcrsOf pkiApplets id).length ≤ 1 := by
  have hids : (appletsTable.entries.map AcrApplet.id).Nodup := by decide
  rw [appletAcrsOf, List.length_map]
  exact length_filter_le_one id _
    (((active_sublist appletsTable pkiApplets).map AcrApplet.id).nodup hids)

theorem mem_appletAcrsOf {pkiApplets : ℕ} {id : UInt8} {m : SimpletlvMember}
    (h : m ∈ appletAcrsOf pkiApplets id) :
    ∃ a, m = .leaf Tag.acrAppletAcr (acrAppletBytes a) := by
  obtain ⟨a, -, rfl⟩ := List.mem_map.1 h
  exact ⟨a, rfl⟩

theorem cacAcaGetAppletAcr_aid (pkiApplets : ℕ) {aid : Bytes} (hne : aid ≠ []) :
    cacAcaGetAppletAcr serviceTable appletsTable pkiApplets aid
      = .ok (if aidToAppletId serviceTable pkiApplets aid = 0 then none
        else some (appletAcrsOf pkiApplets (aidToAppletId serviceTable pkiApplets aid))) := by
  have hone := length_appletAcrsOf pkiApplets (aidToAppletId serviceTable pkiApplets aid)
  simp only [cacAcaGetAppletAcr, ne_eq, hne, not_false_eq_true, if_true, acrAppletMembers_eq,
    ok_bind]
  rw [← appletAcrsOf, fitting_eq hone]
  split_ifs <;> rfl

theorem eq_of_coid {pkiApplets : ℕ} {coid : Bytes} {m : SimpletlvMember}
    (h : cacAcaGetAppletAcrCoid appletsTable pkiApplets coid = some m) :
    ∃ o, m = .leaf Tag.acrObjectAcr (acrObjectBytes o) := by
  obtain ⟨a, -, ha⟩ := List.exists_of_findSome?_eq_some h
  obtain ⟨o, -, ho⟩ := List.exists_of_findSome?_eq_some ha
  have hle := length_acrObjectBytes_le o
  split_ifs at ho
  rw [acrAppletObjectEncode_eq (by simpa [acrMaxInstructions] using hle)] at ho
  obtain rfl : _ = m := by simpa using ho
  exact ⟨o, rfl⟩

/-- What is sent for all applets with their objects. -/
def appletAcrPayload (pkiApplets : ℕ) : AcrFormat → Bytes
  | .extended => (appletsTable.active pkiApplets).flatMap appletRecordBytes
  | .simpleTlv => serialise (cacAcaGetProperties ++ appletAcrMembers pkiApplets)

/-- An answer with a payload, as the functions that may leave a NULL response give it. -/
def respondSome (s : Session τ) (payload : Bytes) (Le : ℕ) : Option VCardResponse × Session τ :=
  (some (respond s payload Le Status.success).1, (respond s payload Le Status.success).2)

theorem cacAcaGetAppletAcrResponse_all {pkiApplets : ℕ} (h : pkiApplets ≤ 10) (format : AcrFormat) :
    cacAcaGetAppletAcrResponse s Le pkiApplets .all format
      = .ok (respondSome s (appletAcrPayload pkiApplets format) Le) := by
  cases format with
  | extended =>
    have hbuffer : appletsTableExtended appletsTable pkiApplets = _ :=
      appletsTableExtended_eq (Nat.le_of_eq (length_active h))
    simp only [cacAcaGetAppletAcrResponse, hbuffer, ok_bind, vcardResponseNew_all]
    rfl
  | simpleTlv =>
    have hlen : (appletAcrMembers pkiApplets).length < 2 ^ 16 := by
      have hnum : appletsTable.numStatic = 13 := rfl
      rw [appletAcrMembers, List.length_cons, List.length_map, length_active h]
      omega
    simp only [cacAcaGetAppletAcrResponse, cacAcaGetAppletAcr_all h, ok_bind,
      acaRespond_eq short_appletAcrMembers hlen]
    rfl

theorem cacAcaGetAppletAcrResponse_aid (pkiApplets : ℕ) {aid : Bytes} (hne : aid ≠ []) :
    cacAcaGetAppletAcrResponse s Le pkiApplets (.aid aid) .simpleTlv
      = .ok (if aidToAppletId serviceTable pkiApplets aid = 0
        then (some (vcardMakeResponse Status.errorDataNotFound), s)
        else respondSome s (serialise (cacAcaGetProperties
          ++ appletAcrsOf pkiApplets (aidToAppletId serviceTable pkiApplets aid))) Le) := by
  have hone := length_appletAcrsOf pkiApplets (aidToAppletId serviceTable pkiApplets aid)
  have hshort : ∀ m ∈ appletAcrsOf pkiApplets (aidToAppletId serviceTable pkiApplets aid),
      Short m := fun m hm => by
    obtain ⟨a, rfl⟩ := mem_appletAcrsOf hm
    exact short_appletAcr a
  simp only [cacAcaGetAppletAcrResponse, cacAcaGetAppletAcr_aid pkiApplets hne, ok_bind]
  split_ifs with h0
  · rfl
  · simp only [acaRespond_eq hshort (Nat.lt_of_le_of_lt hone (by decide))]
    rfl

/-- One applet or one object takes at most 181 bytes. -/
theorem cacAcaGetAppletAcrResponse_one (pkiApplets : ℕ) {query : AcrQuery}
    (hall : query ≠ .all) (hnil : query ≠ .aid []) :
    (∃ status, cacAcaGetAppletAcrResponse s Le pkiApplets query .simpleTlv
        = .ok (some (vcardMakeResponse status), s))
      ∨ ∃ payload, payload.length ≤ 181
        ∧ cacAcaGetAppletAcrResponse s Le pkiApplets query .simpleTlv
          = .ok (respondSome s payload Le) := by
  have hsingle : ∀ (tag : UInt8) (v : Bytes), v.length ≤ 172 →
      (serialise (cacAcaGetProperties ++ [.leaf tag v])).length ≤ 181 := by
    intro tag v hv
    simp only [cacAcaGetProperties, List.cons_append, List.nil_append, serialise, record,
      List.length_append, length_header, List.append_nil]
    simp only [List.length_cons, List.length_nil]
    split_ifs <;> omega
  cases query with
  | all => exact absurd rfl hall
  | coid coid =>
    simp only [cacAcaGetAppletAcrResponse]
    rcases hm : cacAcaGetAppletAcrCoid appletsTable pkiApplets coid with _ | m
    · exact .inl ⟨_, rfl⟩
    · obtain ⟨o, rfl⟩ := eq_of_coid hm
      have hle := length_acrObjectBytes_le o
      have hshort : Short (.leaf Tag.acrObjectAcr (acrObjectBytes o)) :=
        short_leaf (by decide) (by omega)
      refine .inr ⟨_, hsingle Tag.acrObjectAcr (acrObjectBytes o) (by omega), ?_⟩
      simp only [acaRespond_eq (List.forall_mem_singleton.2 hshort) (show 1 < 2 ^ 16 by decide)]
      rfl
  | aid aid =>
    rw [cacAcaGetAppletAcrResponse_aid pkiApplets fun h => hnil (h ▸ rfl)]
    split_ifs with h0
    · exact .inl ⟨_, rfl⟩
    refine .inr ⟨_, ?_, rfl⟩
    have hlen := length_appletAcrsOf pkiApplets (aidToAppletId serviceTable pkiApplets aid)
    have hmem : ∀ m ∈ appletAcrsOf pkiApplets (aidToAppletId serviceTable pkiApplets aid),
        ∃ a, m = .leaf Tag.acrAppletAcr (acrAppletBytes a) := fun m hm => mem_appletAcrsOf hm
    generalize appletAcrsOf pkiApplets (aidToAppletId serviceTable pkiApplets aid) = ms at *
    rcases ms with _ | ⟨m, _ | ⟨m', ms⟩⟩
    · decide
    · obtain ⟨a, rfl⟩ := hmem m List.mem_cons_self
      have hle := acrAppletLength_le a
      exact hsingle _ _ (by rw [length_acrAppletBytes]; exact hle)
    · simp at hlen

end Answers

end Libcacard
