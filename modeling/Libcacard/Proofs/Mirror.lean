import Libcacard.Mirror
import Libcacard.Proofs.MakeCard

/-!
# The arrays of a mirrored token

The four arrays always hold one list of entries, in the cells up to the number of certificates, and
each pass through the loop inserts an entry behind those that are not greater (`mirrorObject_eq`).
-/

namespace Libcacard

open Machine Std

variable {τ κ : Type} {db : CertDb κ} {n : ℕ} {es : List MirrorEntry} {e : MirrorEntry}

instance [TransCmp db.compareItem] : TransCmp (MirrorEntry.compare db) where
  eq_swap := by
    intro e e'
    exact @OrientedCmp.eq_swap _ db.compareItem _ e.id e'.id
  isLE_trans := by
    intro e e' e''
    exact @TransCmp.isLE_trans _ db.compareItem _ e.id e'.id e''.id

section OneObject

theorem mirrorPlace_filled (id : Bytes) (xs : List Bytes) (i rest : ℕ)
    (h : i + rest = xs.length) : mirrorPlace db id (Cells.filled n xs) i rest
      = .ok (i + (xs.drop i).findIdx fun y => db.compareItem id y = .lt) := by
  induction rest generalizing i with
  | zero =>
    rw [mirrorPlace, List.drop_eq_nil_of_le (by omega)]
    rfl
  | succ rest ih =>
    have hi : i < xs.length := by omega
    rw [mirrorPlace, Cells.read_filled (List.getElem?_eq_getElem hi), ok_bind,
      List.drop_eq_getElem_cons hi, List.findIdx_cons]
    split_ifs with hlt
    · simp only [hlt, decide_true, cond_true]
      rfl
    · rw [ih (i + 1) (by omega)]
      simp only [hlt, decide_false, cond_false]
      congr 1
      omega

theorem mirrorPlace_holding (e : MirrorEntry) (es : List MirrorEntry) :
    mirrorPlace db e.id (MirrorArrays.holding n es).ids 0 es.length
      = .ok (stablePlace (MirrorEntry.compare db) e es) := by
  have h := @mirrorPlace_filled _ db n e.id (es.map (·.id)) 0 es.length (by simp)
  rw [List.drop_zero, List.findIdx_map, Nat.zero_add] at h
  exact h

/-- Room is made at a place in all four arrays. -/
theorem mirrorSpace_holding {i : ℕ} (hi : i ≤ es.length) (hn : es.length < n) :
    ∃ a, mirrorSpace i (.holding n es) = .ok a ∧ a.certCount = es.length
      ∧ a.certs.write i e.cert = .ok (Cells.filled n ((es.take i ++ e :: es.drop i).map (·.cert)))
      ∧ a.certLen.write i (toInt32 e.cert.length)
        = .ok (Cells.filled n ((es.take i ++ e :: es.drop i).map fun e => toInt32 e.cert.length))
      ∧ a.keys.write i e.key = .ok (Cells.filled n ((es.take i ++ e :: es.drop i).map (·.key)))
      ∧ a.ids.write i e.id = .ok (Cells.filled n ((es.take i ++ e :: es.drop i).map (·.id))) := by
  have hmap {β : Type} (f : MirrorEntry → β) : (es.take i ++ e :: es.drop i).map f
      = (es.map f).take i ++ f e :: (es.map f).drop i := by
    rw [List.map_append, List.map_cons, List.map_take, List.map_drop]
  rcases Nat.lt_or_eq_of_le hi with hlt | rfl
  · have hmove {β : Type} (f : MirrorEntry → β) : ∃ c,
        (Cells.filled n (es.map f)).move (i + 1) i (es.length - i) = .ok c
          ∧ c.write i (f e) = .ok (Cells.filled n ((es.take i ++ e :: es.drop i).map f)) := by
      have h := @Cells.move_filled _ n i (f e) (es.map f)
        (by rw [List.length_map]; exact hlt) (by rw [List.length_map]; exact hn)
      rwa [List.length_map, ← hmap] at h
    obtain ⟨certs, hcerts, hcerts'⟩ := hmove (·.cert)
    obtain ⟨certLen, hcertLen, hcertLen'⟩ := hmove fun e => toInt32 e.cert.length
    obtain ⟨keys, hkeys, hkeys'⟩ := hmove (·.key)
    obtain ⟨ids, hids, hids'⟩ := hmove (·.id)
    refine ⟨⟨certs, certLen, keys, ids, es.length⟩, ?_, rfl, hcerts', hcertLen', hkeys', hids'⟩
    simp only [mirrorSpace, MirrorArrays.holding, hlt, if_true, hcerts, hcertLen, hkeys, hids,
      ok_bind, pure_eq]
  · have hwrite {β : Type} (f : MirrorEntry → β) : (Cells.filled n (es.map f)).write es.length (f e)
        = .ok (Cells.filled n ((es.take es.length ++ e :: es.drop es.length).map f)) := by
      have h := @Cells.write_filled _ n (f e) (es.map f)
        (by rw [List.length_map]; exact hn)
      rw [List.length_map] at h
      rw [h, List.take_length, List.drop_length, List.map_append]
      rfl
    refine ⟨.holding n es, ?_, rfl, hwrite (·.cert), hwrite fun e => toInt32 e.cert.length,
      hwrite (·.key), hwrite (·.id)⟩
    simp only [mirrorSpace, MirrorArrays.holding, Nat.lt_irrefl, if_false, pure_eq]

/-- An object that is accepted is inserted, the others are skipped. -/
theorem mirrorObject_eq (hn : es.length < n) (obj : Pk11CertObject) :
    mirrorObject db (.holding n es) obj = .ok (.holding n
      ((mirrorEntries db [obj]).foldl (stableInsert (MirrorEntry.compare db)) es)) := by
  rcases hcert : mirrorCert db obj with _ | ⟨cert, id⟩
  · have hnone : mirrorEntries db [obj] = [] := by simp [mirrorEntries, hcert]
    rw [mirrorObject, hcert, hnone]
    rfl
  · have hsome : mirrorEntries db [obj] = [⟨db.derCert cert, db.makeKey cert, id⟩] := by
      simp [mirrorEntries, hcert]
    obtain ⟨a, ha, hcount, hcerts, hcertLen, hkeys, hids⟩ :=
      mirrorSpace_holding (e := ⟨db.derCert cert, db.makeKey cert, id⟩)
        (stablePlace_le (MirrorEntry.compare db) _ es) hn
    have hplace := @mirrorPlace_holding _ db n ⟨db.derCert cert, db.makeKey cert, id⟩ es
    rw [mirrorObject, hcert, hsome, List.foldl_cons, List.foldl_nil]
    dsimp only at hplace ⊢
    rw [show (MirrorArrays.holding n es).certCount = es.length from rfl, hplace, ok_bind, ha,
      ok_bind, hcerts, hcertLen, hkeys, hids, hcount]
    simp only [ok_bind, pure_eq, MirrorArrays.holding, stableInsert]
    have hlen := (stableInsert_perm (MirrorEntry.compare db) es
      ⟨db.derCert cert, db.makeKey cert, id⟩).length_eq
    rw [stableInsert, List.length_cons] at hlen
    rw [hlen]

end OneObject

section AllObjects

theorem mirrorEntries_cons (obj : Pk11CertObject) (objs : List Pk11CertObject) :
    mirrorEntries db (obj :: objs) = mirrorEntries db [obj] ++ mirrorEntries db objs :=
  @List.filterMap_append _ _ [obj] objs _

theorem foldlM_mirrorObject (objs : List Pk11CertObject) (h : es.length + objs.length ≤ n) :
    objs.foldlM (mirrorObject db) (.holding n es) = .ok (.holding n
      ((mirrorEntries db objs).foldl (stableInsert (MirrorEntry.compare db)) es)) := by
  induction objs generalizing es with
  | nil => rfl
  | cons obj objs ih =>
    rw [List.length_cons] at h
    have hentries : (mirrorEntries db [obj]).length ≤ 1 := List.length_filterMap_le _ _
    have hlen := (foldl_stableInsert_perm (MirrorEntry.compare db)
      (mirrorEntries db [obj]) es).length_eq
    rw [List.length_append] at hlen
    rw [List.foldlM_cons, mirrorObject_eq (by omega), ok_bind, ih (by omega),
      mirrorEntries_cons obj objs, List.foldl_append]

theorem mirrorObjects_eq (objs : List Pk11CertObject) : mirrorObjects db objs
    = .ok (.holding objs.length (stableSort (MirrorEntry.compare db) (mirrorEntries db objs))) := by
  exact @foldlM_mirrorObject _ db objs.length [] objs (by simp)

end AllObjects

section Card

theorem mirroredCerts_holding {i rest : ℕ} (h : i + rest = es.length) :
    mirroredCerts (.holding n es) i rest = .ok ((es.drop i).map MirrorEntry.pair) := by
  induction rest generalizing i with
  | zero =>
    rw [List.drop_eq_nil_of_le (by omega)]
    rfl
  | succ rest ih =>
    have hi : i < es.length := by omega
    have hread {β : Type} (f : MirrorEntry → β) :
        Cells.read (Cells.filled n (es.map f)) i = .ok (f es[i]) :=
      Cells.read_filled (by rw [List.getElem?_map, List.getElem?_eq_getElem hi, Option.map_some])
    rw [mirroredCerts, ih (by omega), List.drop_eq_getElem_cons hi]
    simp only [MirrorArrays.holding, hread, ok_bind, pure_eq]
    rfl

theorem MirrorEntry.length_pair_lt (e : MirrorEntry) : e.pair.1.length < 2 ^ 31 := by
  have hmod := toInt32_le e.cert.length
  rw [MirrorEntry.pair, List.length_take]
  omega

theorem exists_cardCerts (es : List MirrorEntry) :
    ∃ certs : List CardCert, certs.map CardCert.pair = es.map MirrorEntry.pair := by
  refine ⟨es.map fun e => ⟨e.pair.1, e.pair.2, e.length_pair_lt⟩, ?_⟩
  simp only [List.map_map, Function.comp_def, CardCert.pair, Prod.mk.eta]

/-- A card is made of what the arrays hold, where there are a slot and a certificate object. -/
theorem vcardEmulMirrorCard_eq {emul : Emul τ} {digest : Bytes → Option Bytes} {st : Statics}
    {reader : Option (VReaderEmul τ)} {objs : List Pk11CertObject} {sorted : List MirrorEntry}
    (hslot : vcardEmulReaderGetSlot reader ≠ none) (hobjs : objs ≠ [])
    (hsorted : mirrorObjects db objs = .ok (.holding objs.length sorted)) :
    ∃ card, vcardEmulMirrorCard db emul digest st reader objs = .ok (some card)
      ∧ vcardEmulMakeCardFor emul digest st reader (sorted.map MirrorEntry.pair)
        = .ok (some card) := by
  obtain ⟨token, htoken⟩ := Option.ne_none_iff_exists'.1 hslot
  obtain ⟨certs, hcerts⟩ := exists_cardCerts sorted
  obtain ⟨card, hcard⟩ := @exists_makeCardFor _ emul digest st reader token htoken certs
  rw [hcerts] at hcard
  refine ⟨card, ?_, hcard⟩
  rw [vcardEmulMirrorCard, if_neg hslot, if_neg hobjs, hsorted, ok_bind,
    show (MirrorArrays.holding objs.length sorted).certCount = sorted.length from rfl,
    mirroredCerts_holding (Nat.zero_add _), ok_bind, List.drop_zero]
  exact hcard

/-- A token is mirrored unless there is no slot, or no certificate object. -/
theorem vcardEmulMirrorCard_cases (db : CertDb κ) (emul : Emul τ)
    (digest : Bytes → Option Bytes) (st : Statics) (reader : Option (VReaderEmul τ))
    (objs : List Pk11CertObject) :
    ((vcardEmulReaderGetSlot reader = none ∨ objs = [])
        ∧ vcardEmulMirrorCard db emul digest st reader objs = .ok none)
      ∨ (vcardEmulReaderGetSlot reader ≠ none ∧ objs ≠ []
        ∧ ∃ card, vcardEmulMirrorCard db emul digest st reader objs = .ok (some card)) := by
  by_cases hslot : vcardEmulReaderGetSlot reader = none
  · exact .inl ⟨.inl hslot, if_pos hslot⟩
  by_cases hobjs : objs = []
  · exact .inl ⟨.inr hobjs, by rw [vcardEmulMirrorCard, if_neg hslot, if_pos hobjs]⟩
  obtain ⟨card, hcard, -⟩ := vcardEmulMirrorCard_eq hslot hobjs (mirrorObjects_eq objs)
  exact .inr ⟨hslot, hobjs, card, hcard⟩

/-- Each accepted object is in the arrays once, in the order of the ids and, where these are equal,
in the order of the token, and all four arrays have it in the same cell. A card that is made is made
of these in this order, so the order of the token does not matter where no two ids are equal. -/
theorem mirror_sorts (db : CertDb κ) [TransCmp db.compareItem] (objs : List Pk11CertObject) :
    ∃ sorted, mirrorObjects db objs = .ok (.holding objs.length sorted)
      ∧ sorted.Perm (mirrorEntries db objs)
      ∧ Ascending (MirrorEntry.compare db) sorted
      ∧ (∀ id, sorted.filter (fun e => db.compareItem e.id id = .eq)
        = (mirrorEntries db objs).filter fun e => db.compareItem e.id id = .eq)
      ∧ (∀ (emul : Emul τ) (digest : Bytes → Option Bytes) (st : Statics)
        (reader : Option (VReaderEmul τ)), vcardEmulReaderGetSlot reader ≠ none → objs ≠ [] →
        ∃ card, vcardEmulMirrorCard db emul digest st reader objs = .ok (some card)
          ∧ vcardEmulMakeCardFor emul digest st reader (sorted.map MirrorEntry.pair)
            = .ok (some card))
      ∧ ∀ objs', objs.Perm objs' →
        (mirrorEntries db objs).Pairwise (fun e e' => db.compareItem e.id e'.id ≠ .eq) →
        mirrorObjects db objs' = mirrorObjects db objs
          ∧ ∀ (emul : Emul τ) (digest : Bytes → Option Bytes) (st : Statics)
            (reader : Option (VReaderEmul τ)),
            vcardEmulMirrorCard db emul digest st reader objs'
              = vcardEmulMirrorCard db emul digest st reader objs := by
  obtain ⟨hperm, hasc, hfilter⟩ :=
    stableSort_spec (MirrorEntry.compare db) (mirrorEntries db objs)
  refine ⟨_, mirrorObjects_eq objs, hperm, hasc, fun id => hfilter ⟨[], 0, id⟩, ?_, ?_⟩
  · intro emul digest st reader hslot hobjs
    exact vcardEmulMirrorCard_eq hslot hobjs (mirrorObjects_eq objs)
  intro objs' hobjs hne
  have heq : mirrorObjects db objs' = mirrorObjects db objs := by
    rw [mirrorObjects_eq, mirrorObjects_eq, hobjs.length_eq,
      @stableSort_eq_of_perm _ (MirrorEntry.compare db) _ _ _ hne (hobjs.filterMap _)]
    rfl
  have hnil : objs' = [] ↔ objs = [] := by
    rw [← List.length_eq_zero_iff, ← List.length_eq_zero_iff, hobjs.length_eq]
  refine ⟨heq, fun emul digest st reader => ?_⟩
  simp only [vcardEmulMirrorCard, heq, hnil]

/-- Certificates that are their bytes, with ids compared byte by byte. -/
def CertDb.soft : CertDb Bytes := ⟨some, id, List.length, compare⟩

instance : TransCmp CertDb.soft.compareItem := inferInstanceAs (TransOrd Bytes)

def twoObjects : List Pk11CertObject := [⟨some [0x30, 0x01], some [2]⟩, ⟨some [0x30], some [1]⟩]

theorem mirror_sorts_two :
    (∃ sorted, mirrorObjects CertDb.soft twoObjects = .ok (.holding 2 sorted)
        ∧ sorted.Perm (mirrorEntries CertDb.soft twoObjects)
        ∧ ∃ card, vcardEmulMakeCardFor (Emul.plain none Emul.plain_none) (fun _ => none) .initial
          (some ⟨some (), .cac⟩) (sorted.map MirrorEntry.pair) = .ok (some card))
      ∧ mirrorObjects CertDb.soft twoObjects.reverse = mirrorObjects CertDb.soft twoObjects := by
  obtain ⟨sorted, h, hperm, -, -, hcard, hany⟩ := @mirror_sorts Unit _ CertDb.soft _ twoObjects
  obtain ⟨card, -, hmade⟩ := hcard (Emul.plain none Emul.plain_none) (fun _ => none) .initial
    (some ⟨some (), .cac⟩) (by decide) (by decide)
  exact ⟨⟨sorted, h, hperm, card, hmade⟩, (hany _ (List.reverse_perm _).symm (by decide)).1⟩

end Card

end Libcacard
