import Libcacard.OptionStrings
import Libcacard.Proofs.Options

/-!
# What documented option strings mean

Each parameter is read on its own (`parseParam_db` and the others), with what is left after it. From
there the string is read item by item (`reads_items`): what takes effect is what `readParams` says.
-/

namespace Libcacard

open Machine

variable {pcsc : Bool} {rest : Bytes} {s : Parsing}

section Strings

theorem strip_blanks {blanks : Bytes} (h : ∀ c ∈ blanks, isspace c) (str : Bytes) :
    strip (blanks ++ str) = strip str := List.dropWhile_append_of_pos h

theorem strip_cons {c : UInt8} (h : ¬isspace c) (str : Bytes) : strip (c :: str) = c :: str :=
  List.dropWhile_cons_of_neg h

theorem findBlank_append {word : Bytes} (h : ∀ c ∈ word, ¬isspace c) (str : Bytes) :
    findBlank (word ++ str) = findBlank str :=
  List.dropWhile_append_of_pos fun c hc => by simpa using h c hc

theorem findBlank_cons {c : UInt8} (h : isspace c) (str : Bytes) :
    findBlank (c :: str) = c :: str := List.dropWhile_cons_of_neg (by simpa using h)

theorem PlainText.not_blank (t : PlainText) : ∀ c ∈ t.1, ¬isspace c := fun c hc => (t.2 c hc).1

theorem PlainText.not_mem (t : PlainText) :
    ∀ c ∈ t.1, c ∉ [Text.quote, Text.comma, Text.openParen, Text.closeParen] :=
  fun c hc => (t.2 c hc).2

theorem PlainText.not_end (t : PlainText) : ∀ c ∈ t.1, c ∉ [Text.comma, Text.closeParen] :=
  fun c hc h => t.not_mem c hc (by
    rcases List.mem_pair.1 h with rfl | rfl <;> decide)

/-- A value is where it is looked for, when something other than a blank ends it. -/
theorem PlainText.strip_append (t : PlainText) {c : UInt8} (h : ¬isspace c) (str : Bytes) :
    strip (t.1 ++ c :: str) = t.1 ++ c :: str := by
  rcases ht : t.1 with _ | ⟨x, text⟩
  · exact strip_cons h _
  · exact strip_cons (t.not_blank x (by simp [ht])) _

theorem PlainText.strip_eq (t : PlainText) (h : t.1 ≠ []) (str : Bytes) :
    strip (t.1 ++ str) = t.1 ++ str := by
  rcases ht : t.1 with _ | ⟨x, text⟩
  · exact absurd ht h
  · exact strip_cons (t.not_blank x (by simp [ht])) _

theorem nextToken_plain (t : PlainText) (str : Bytes) :
    nextToken (t.1 ++ Text.comma :: str) = some (t.1, strip str) := by
  rw [nextToken, strpbrk_append t.not_end (by simp)]
  simp only [strndupTo_append]
  rfl

end Strings

section Types

theorem vcardEmulTypeFromString_cases {name : Bytes}
    (h : vcardEmulTypeFromString pcsc name ≠ .none) :
    name.map tolower = Text.cac.map tolower ∨ name.map tolower = Text.passthru.map tolower := by
  unfold vcardEmulTypeFromString strcasecmpEq at h
  split_ifs at h with hcac hpassthru
  · exact .inl (by simpa using hcac)
  · simp only [Bool.and_eq_true, decide_eq_true_eq] at hpassthru
    exact .inr hpassthru.2
  · exact absurd rfl h

theorem cardTypeName_length (name : CardTypeName pcsc) :
    0 < name.name.1.length ∧ name.name.1.length ≤ 8 := by
  rcases vcardEmulTypeFromString_cases name.valid with h | h <;>
    · have := congrArg List.length h
      simp only [List.length_map, Text.cac, Text.passthru, List.length_cons,
        List.length_nil] at this
      omega

/-- No card type's name goes on after another's. -/
theorem vcardEmulTypeFromString_append (name : CardTypeName pcsc) (h : rest ≠ []) :
    vcardEmulTypeFromString pcsc (name.name.1 ++ rest) = .none := by
  by_contra hnot
  have hname := vcardEmulTypeFromString_cases name.valid
  have hlonger := vcardEmulTypeFromString_cases hnot
  rw [List.map_append] at hlonger
  rcases hname with hname | hname <;> rw [hname] at hlonger <;>
    simp [Text.cac, Text.passthru, tolower, h] at hlonger

end Types

theorem forall_mem_of_all {P : UInt8 → Prop} [DecidablePred P] {l : Bytes}
    (h : l.all fun c => P c) : ∀ c ∈ l, P c := by simpa [List.all_eq_true] using h

namespace Param

theorem text_cons (p : Param pcsc) :
    ∃ c text, p.text = c :: text ∧ ¬isspace c ∧ c ≠ Text.comma ∧ c ≠ Text.closeParen := by
  cases p <;> exact ⟨_, _, rfl, by decide, by decide, by decide⟩

theorem text_ne_nil (p : Param pcsc) : p.text ≠ [] := by
  obtain ⟨c, text, heq, -⟩ := p.text_cons
  simp [heq]

theorem certsText_not_blank (cert : PlainText) (certs : List PlainText) :
    ∀ c ∈ certsText cert certs, ¬isspace c := by
  induction certs generalizing cert with
  | nil =>
    simp only [certsText, List.forall_mem_append, List.forall_mem_singleton]
    exact ⟨cert.not_blank, by decide⟩
  | cons cert' certs ih =>
    simp only [certsText, List.forall_mem_append, List.forall_mem_cons]
    exact ⟨cert.not_blank, by decide, ih cert'⟩

theorem text_not_blank (p : Param pcsc) : ∀ c ∈ p.text, ¬isspace c := by
  have hlit {l : Bytes} (h : l.all fun c => ¬isspace c) : ∀ c ∈ l, ¬isspace c :=
    forall_mem_of_all h
  cases p with
  | db path =>
    simp only [text, List.forall_mem_append, List.forall_mem_cons]
    exact ⟨⟨hlit (by decide), by decide, path.not_blank⟩, by decide, by simp⟩
  | useHw use =>
    simp only [text, List.forall_mem_append]
    exact ⟨hlit (by decide), hlit (by cases use <;> decide)⟩
  | hwType name =>
    simp only [text, List.forall_mem_append]
    exact ⟨hlit (by decide), name.name.not_blank⟩
  | hwParams params =>
    simp only [text, List.forall_mem_append]
    exact ⟨hlit (by decide), params.not_blank⟩
  | nssemul =>
    simp only [text]
    exact hlit (by decide)
  | soft slot vname name params cert certs =>
    simp only [text, List.forall_mem_append, List.forall_mem_cons]
    exact ⟨hlit (by decide), by decide, slot.not_blank, by decide, vname.not_blank, by decide,
      name.name.not_blank, by decide, params.not_blank, by decide, certsText_not_blank _ _⟩

end Param

section OneParam

/-- The parser after a parameter. -/
def Parsing.after (s : Parsing) (p : Param pcsc) (args : Bytes) : Parsing :=
  { s with opts := p.apply s.opts, args := args }

theorem parseParam_db {path : PlainText}
    (hargs : strip s.args = (Param.db path : Param pcsc).text ++ rest)
    (hnone : s.opts.nssDb = none) :
    parseParam pcsc s = .ok (some (s.after (Param.db path : Param pcsc) rest)) := by
  have hfind : strpbrk (path.1 ++ Text.quote :: rest) [Text.quote, Text.newline]
      = some (Text.quote :: rest) := by
    refine strpbrk_append (fun c hc h => ?_) (by simp)
    rcases List.mem_pair.1 h with rfl | rfl
    · exact path.not_mem _ hc (by simp)
    · exact path.not_blank _ hc (by decide)
  have htext : (Param.db path : Param pcsc).text ++ rest
      = Text.dbEq ++ Text.quote :: (path.1 ++ Text.quote :: rest) := by simp [Param.text]
  have hdrop : (Text.dbEq ++ Text.quote :: (path.1 ++ Text.quote :: rest)).drop Text.dbEq.length
      = Text.quote :: (path.1 ++ Text.quote :: rest) := List.drop_left
  rw [htext] at hargs
  have hdb : parseDb s (Text.dbEq ++ Text.quote :: (path.1 ++ Text.quote :: rest))
      = some (s.after (Param.db path : Param pcsc) rest) := by
    simp only [parseDb, hnone, ne_eq, not_true_eq_false, if_false, hdrop,
      strip_cons (show ¬isspace Text.quote by decide), List.head?_cons, List.drop_one,
      List.tail_cons, hfind, Option.bind_eq_bind, Option.bind_some, strndupTo_append]
    rfl
  simp only [parseParam, hargs]
  rw [← hdb]
  rfl

theorem parseParam_useHw {use : UseHw}
    (hargs : strip s.args = (Param.useHw use : Param pcsc).text ++ rest) :
    parseParam pcsc s = .ok (some (s.after (Param.useHw use : Param pcsc) (findBlank rest))) := by
  have htext : (Param.useHw use : Param pcsc).text ++ rest
      = Text.useHwEq ++ (use.text ++ rest) := List.append_assoc _ _ _
  have hstrip : strip (use.text ++ rest) = use.text ++ rest := by
    cases use <;> exact strip_cons (by decide) _
  have huse : parseUseHw s (Text.useHwEq ++ (use.text ++ rest))
      = s.after (Param.useHw use : Param pcsc) (findBlank rest) := by
    simp only [parseUseHw, List.drop_left, hstrip,
      findBlank_append (fun c hc => (Param.useHw use : Param pcsc).text_not_blank c
        (List.mem_append_right _ hc))]
    cases use <;> rfl
  rw [htext] at hargs
  simp only [parseParam, hargs]
  rw [← huse]
  rfl

theorem parseParam_nssemul
    (hargs : strip s.args = (Param.nssemul : Param pcsc).text ++ rest) :
    parseParam pcsc s = .ok (some (s.after (Param.nssemul : Param pcsc) (findBlank rest))) := by
  have hhw : parseHw s .cac ((Text.nssemul ++ rest).drop Text.nssemul.length)
      = s.after (Param.nssemul : Param pcsc) (findBlank rest) := by
    rw [List.drop_left]
    rfl
  simp only [parseParam, hargs]
  rw [← hhw]
  rfl

theorem parseParam_hwType (name : CardTypeName pcsc)
    (hargs : strip s.args = (Param.hwType name).text ++ rest) :
    parseParam pcsc s = .ok (parseHwType pcsc s (Text.hwTypeEq ++ (name.name.1 ++ rest))) := by
  have htext : (Param.hwType name).text ++ rest = Text.hwTypeEq ++ (name.name.1 ++ rest) :=
    List.append_assoc _ _ _
  rw [htext] at hargs
  simp only [parseParam, hargs]
  rfl

theorem strip_hwType (name : CardTypeName pcsc) :
    strip ((Text.hwTypeEq ++ (name.name.1 ++ rest)).drop Text.hwTypeEq.length)
      = name.name.1 ++ rest := by
  rw [List.drop_left, name.name.strip_eq (List.length_pos_iff.1 (cardTypeName_length name).1)]

theorem parseHwType_last (name : CardTypeName pcsc) :
    parseHwType pcsc s (Text.hwTypeEq ++ (name.name.1 ++ []))
      = some (s.after (Param.hwType name) []) := by
  have hend : findBlank (name.name.1 ++ []) = [] := findBlank_append name.name.not_blank []
  simp only [parseHwType, strip_hwType, hend]
  rw [List.append_nil, if_neg name.valid]
  rfl

theorem parseHwType_more (name : CardTypeName pcsc) (h : rest ≠ []) :
    parseHwType pcsc s (Text.hwTypeEq ++ (name.name.1 ++ rest)) = none := by
  simp only [parseHwType, strip_hwType, vcardEmulTypeFromString_append name h, if_true]

/-- The parameters for the hardware go from the first character that is no blank up to the next
blank. -/
theorem parseParam_hwParams {params : PlainText} (hnone : s.opts.hwTypeParams = none)
    (hargs : strip s.args = (Param.hwParams params : Param pcsc).text ++ rest) :
    parseParam pcsc s = .ok (some { s with
      opts := { s.opts with hwTypeParams := some (strndupTo (strip (params.1 ++ rest))
        (findBlank (strip (params.1 ++ rest)))) }
      args := findBlank (strip (params.1 ++ rest)) }) := by
  have htext : (Param.hwParams params : Param pcsc).text ++ rest
      = Text.hwParamsEq ++ (params.1 ++ rest) := List.append_assoc _ _ _
  have hparams : parseHwParams s (Text.hwParamsEq ++ (params.1 ++ rest)) = some { s with
      opts := { s.opts with hwTypeParams := some (strndupTo (strip (params.1 ++ rest))
        (findBlank (strip (params.1 ++ rest)))) }
      args := findBlank (strip (params.1 ++ rest)) } := by
    simp only [parseHwParams, hnone, ne_eq, not_true_eq_false, if_false, List.drop_left]
  rw [htext] at hargs
  simp only [parseParam, hargs]
  rw [← hparams]
  rfl

theorem countTokens_certsText (cert : PlainText) (certs : List PlainText) :
    countTokens Text.comma Text.closeParen (certsText cert certs ++ rest) = certs.length := by
  induction certs generalizing cert with
  | nil =>
    rw [certsText, List.append_assoc, countTokens_append cert.not_end]
    rfl
  | cons cert' certs ih =>
    rw [certsText, List.append_assoc, countTokens_append cert.not_end, List.cons_append,
      countTokens, if_pos rfl, if_neg (by decide), ih, Nat.add_comm, List.length_cons]

theorem strip_certsText (cert : PlainText) (certs : List PlainText) :
    strip (certsText cert certs ++ rest) = certsText cert certs ++ rest := by
  cases certs <;> simp only [certsText, List.append_assoc, List.cons_append] <;>
    exact cert.strip_append (by decide) _

theorem certNames_certsText (cert : PlainText) (certs : List PlainText) :
    certNames (certs.length + 1) (certsText cert certs ++ rest)
      = .ok (cert.1 :: certs.map (·.1), strip rest) := by
  induction certs generalizing cert with
  | nil =>
    rw [certsText, List.append_assoc, List.length_nil, certNames, List.singleton_append,
      strpbrk_append cert.not_end (by simp)]
    simp only [strndupTo_append]
    rfl
  | cons cert' certs ih =>
    rw [certsText, List.append_assoc, List.cons_append, List.length_cons, certNames,
      strpbrk_append cert.not_end (by simp)]
    simp only [strndupTo_append, List.drop_one, List.tail_cons, strip_certsText, ih]
    rfl

theorem softFields_soft (slot vname : PlainText) (name : CardTypeName pcsc)
    (params cert : PlainText) (certs : List PlainText) :
    softFields pcsc ((Param.soft slot vname name params cert certs).text ++ rest)
      = some (⟨slot.1, vname.1, name.type, params.1, []⟩, certsText cert certs ++ rest) := by
  have hshort : name.name.1.take 99 = name.name.1 :=
    List.take_of_length_le (by have := cardTypeName_length name; omega)
  have hne : certsText cert certs ++ rest ≠ [] := by
    cases certs <;> simp [certsText]
  have hcomma : ¬isspace Text.comma := by decide
  simp only [softFields, Param.text, List.append_assoc, List.cons_append, List.drop_left,
    strip_cons (show ¬isspace Text.openParen by decide), List.head?_cons, ne_eq,
    not_true_eq_false, if_false, List.drop_one, List.tail_cons, slot.strip_append hcomma,
    nextToken_plain, vname.strip_append hcomma, name.name.strip_append hcomma,
    params.strip_append hcomma, strip_certsText, Option.bind_eq_bind, Option.bind_some, hshort,
    name.valid, hne]
  rfl

theorem parseParam_soft (slot vname : PlainText) (name : CardTypeName pcsc)
    (params cert : PlainText) (certs : List PlainText)
    (hargs : strip s.args = (Param.soft slot vname name params cert certs).text ++ rest) :
    parseParam pcsc s = parseSoft pcsc s
      ((Param.soft slot vname name params cert certs).text ++ rest) := by
  simp only [parseParam, hargs]
  rfl

end OneParam

section Loop

/-- Where the loop goes on after a parameter. -/
def goOn (pcsc : Bool) (fuel : ℕ) (s : Parsing) : Except Fault (Option VCardEmulOptions) :=
  if s.args ≠ [] then parseParams pcsc fuel s else .ok (some s.opts)

theorem parseParams_taken {s' : Parsing} {fuel : ℕ} (h : parseParam pcsc s = .ok (some s')) :
    parseParams pcsc (fuel + 1) s = goOn pcsc fuel s' := by
  simp only [parseParams, h]
  rfl

theorem parseParams_refused {fuel : ℕ} (h : parseParam pcsc s = .ok none) :
    parseParams pcsc (fuel + 1) s = .ok none := by
  simp only [parseParams, h]
  rfl

theorem parseParams_error {fuel : ℕ} {e : Fault} (h : parseParam pcsc s = .error e) :
    parseParams pcsc (fuel + 1) s = .error e := by
  simp only [parseParams, h]
  rfl

theorem goOn_end {fuel : ℕ} (h : s.args = []) : goOn pcsc fuel s = .ok (some s.opts) :=
  if_neg (not_not.2 h)

theorem goOn_more {fuel : ℕ} (h : s.args ≠ []) :
    goOn pcsc fuel s = parseParams pcsc fuel s := if_pos h

/-- Once there are parameters for the hardware they stay. -/
theorem parseParam_hwTypeParams {s' : Parsing} {params : Bytes}
    (h : parseParam pcsc s = .ok (some s')) (hparams : s.opts.hwTypeParams = some params) :
    s'.opts.hwTypeParams = some params := by
  unfold parseParam at h
  dsimp only at h
  split_ifs at h
  · cases h
    exact hparams
  · unfold parseSoft at h
    rcases hfields : softFields pcsc (strip s.args) with _ | ⟨r, certs⟩ <;>
      simp only [hfields] at h
    · cases h
    · obtain ⟨readerCount, -, h⟩ := bind_eq_ok.1 h
      split_ifs at h
      · cases h
      · obtain ⟨⟨names, rest⟩, -, h⟩ := bind_eq_ok.1 h
        cases h
        exact hparams
  · cases h
    exact hparams
  · simp only [parseHwType, Except.ok.injEq] at h
    split_ifs at h
    cases h
    exact hparams
  · simp only [parseHwParams, hparams, ne_eq, reduceCtorEq, not_false_eq_true, if_true,
      Except.ok.injEq] at h
  · simp only [parseDb, Except.ok.injEq] at h
    split_ifs at h
    obtain ⟨rest, -, h⟩ := Option.bind_eq_some_iff.1 h
    cases h
    exact hparams
  · cases h
    exact hparams
  · cases h
    exact hparams
  · cases h

theorem goOn_hwTypeParams {fuel : ℕ} {opts : VCardEmulOptions} {params : Bytes}
    (h : goOn pcsc fuel s = .ok (some opts)) (hparams : s.opts.hwTypeParams = some params) :
    opts.hwTypeParams = some params := by
  induction fuel generalizing s with
  | zero =>
    unfold goOn at h
    split_ifs at h
    · cases h
    · cases h
      exact hparams
  | succ fuel ih =>
    unfold goOn at h
    split_ifs at h
    · rcases hp : parseParam pcsc s with e | _ | s'
      · rw [parseParams_error hp] at h
        cases h
      · rw [parseParams_refused hp] at h
        cases h
      · rw [parseParams_taken hp] at h
        exact ih h (parseParam_hwTypeParams hp hparams)
    · cases h
      exact hparams

/-- Blanks and commas before a parameter are passed over. -/
theorem parseParams_gap {fuel : ℕ} {gap : Bytes} (hgap : ∀ c ∈ gap, SepChar c) (p : Param pcsc)
    (hargs : s.args = gap ++ (p.text ++ rest)) (hfuel : s.args.length < fuel) :
    ∃ fuel' s', parseParams pcsc fuel s = parseParams pcsc (fuel' + 1) s'
      ∧ s'.opts = s.opts ∧ s'.readerCount = s.readerCount ∧ strip s'.args = p.text ++ rest
      ∧ (p.text ++ rest).length ≤ fuel' := by
  induction gap generalizing s fuel with
  | nil =>
    obtain ⟨c, text, htext, hc, -⟩ := p.text_cons
    rw [List.nil_append] at hargs
    obtain ⟨fuel, rfl⟩ : ∃ n, fuel = n + 1 := ⟨fuel - 1, by omega⟩
    refine ⟨fuel, s, rfl, rfl, rfl, ?_, by rw [← hargs]; omega⟩
    rw [hargs, htext, List.cons_append, strip_cons hc]
  | cons c gap ih =>
    rw [List.forall_mem_cons] at hgap
    obtain ⟨fuel, rfl⟩ : ∃ n, fuel = n + 1 := ⟨fuel - 1, by omega⟩
    rw [hargs, List.cons_append, List.length_cons] at hfuel
    rcases hgap.1 with hblank | rfl
    · have hstrip : strip s.args = strip (gap ++ (p.text ++ rest)) := by
        rw [hargs]
        exact strip_blanks (List.forall_mem_singleton.2 hblank) _
      have hparam : parseParam pcsc s
          = parseParam pcsc { s with args := gap ++ (p.text ++ rest) } := by
        simp only [parseParam, hstrip]
        rfl
      obtain ⟨fuel', s', heq, h⟩ := @ih { s with args := gap ++ (p.text ++ rest) } (fuel + 1)
        hgap.2 rfl (by simp only; omega)
      refine ⟨fuel', s', ?_, h⟩
      rw [← heq, parseParams, parseParams, hparam]
    · have hparam : parseParam pcsc s
          = .ok (some { s with args := gap ++ (p.text ++ rest) }) := by
        simp only [parseParam, hargs, List.cons_append,
          strip_cons (show ¬isspace Text.comma by decide)]
        rfl
      obtain ⟨fuel', s', heq, h⟩ := @ih { s with args := gap ++ (p.text ++ rest) } fuel
        hgap.2 rfl (by simp only; omega)
      refine ⟨fuel', s', ?_, h⟩
      rw [← heq, parseParams_taken hparam, goOn_more (by simp [p.text_ne_nil])]

end Loop

section Read

/-- What the parser needs for the parameters to come. -/
structure Parsing.Ready (s : Parsing) (items : List (Param pcsc × Bytes)) : Prop where
  room : s.Room
  fits : s.opts.Fits
  db : (items.map Prod.fst).countP Param.isDb + s.opts.nssDb.toList.length ≤ 1
  hwParams : (items.map Prod.fst).countP Param.isHwParams + s.opts.hwTypeParams.toList.length ≤ 1

/-- The options are what the parameters that are read give; where there is no reading, there are no
options, or the parameters for the hardware are wrong. -/
def ReadsAs (r : Except Fault (Option VCardEmulOptions)) (opts : VCardEmulOptions)
    (items : List (Param pcsc × Bytes)) : Option (List (Param pcsc)) → Prop
  | some seen => ((seen.foldl Param.apply opts).Fits → r = .ok (some (seen.foldl Param.apply opts)))
      ∧ (¬(seen.foldl Param.apply opts).Fits → ∀ opts', r ≠ .ok (some opts'))
  | none => ∀ opts', r = .ok (some opts') →
      ∃ params, Param.hwParams params ∈ items.map Prod.fst ∧ opts'.hwTypeParams ≠ some params.1

variable {items : List (Param pcsc × Bytes)} {p : Param pcsc} {sep : Bytes}
  {opts : VCardEmulOptions} {r : Except Fault (Option VCardEmulOptions)}
  {seen : Option (List (Param pcsc))}

theorem ReadsAs.skip (h : ReadsAs r opts items seen) : ReadsAs r opts ((p, sep) :: items) seen := by
  rcases seen with _ | seen
  · intro opts' hr
    obtain ⟨params, hmem, hne⟩ := h opts' hr
    exact ⟨params, List.mem_cons_of_mem _ hmem, hne⟩
  · exact h

theorem ReadsAs.cons (h : ReadsAs r (p.apply opts) items seen) :
    ReadsAs r opts ((p, sep) :: items) ((p :: ·) <$> seen) := by
  rcases seen with _ | seen
  · intro opts' hr
    obtain ⟨params, hmem, hne⟩ := h opts' hr
    exact ⟨params, List.mem_cons_of_mem _ hmem, hne⟩
  · exact h

theorem ReadsAs.last (h : r = .ok (some (p.apply opts))) (hfits : (p.apply opts).Fits) :
    ReadsAs r opts items (some [p]) :=
  ⟨fun _ => h, fun hnot => absurd hfits hnot⟩

theorem ReadsAs.refused (h : r = .ok none) : ReadsAs r opts items none := by
  rintro opts' rfl
  cases h

theorem vreader_prefix_apply (p : Param pcsc) (opts : VCardEmulOptions) :
    opts.vreader <+: (p.apply opts).vreader := by
  cases p <;> first | exact List.prefix_append _ _ | exact List.prefix_refl _

theorem vreader_prefix_foldl (ps : List (Param pcsc)) (opts : VCardEmulOptions) :
    opts.vreader <+: (ps.foldl Param.apply opts).vreader := by
  induction ps generalizing opts with
  | nil => exact List.prefix_refl _
  | cons p ps ih => exact (vreader_prefix_apply p opts).trans (ih _)

theorem VCardEmulOptions.Fits.of_prefix {opts opts' : VCardEmulOptions} (h : opts'.Fits)
    (hpre : opts.vreader <+: opts'.vreader) : opts.Fits :=
  ⟨hpre.length_le.trans h.1, fun r hr => h.2 r (hpre.subset hr)⟩

/-- What an `int` cannot count stays so. -/
theorem ReadsAs.overflow {e : Fault} (h : r = .error e) (hfits : ¬(p.apply opts).Fits) :
    ReadsAs r opts items ((p :: ·) <$> seen) := by
  rcases seen with _ | seen
  · rintro opts' rfl
    cases h
  · refine ⟨fun hfold => absurd (hfold.of_prefix (vreader_prefix_foldl seen _)) hfits, ?_⟩
    rintro - opts' rfl
    cases h

theorem Parsing.Ready.skip (h : s.Ready ((p, sep) :: items)) : s.Ready items := by
  refine ⟨h.room, h.fits, ?_, ?_⟩
  · have := h.db
    rw [List.map_cons, List.countP_cons] at this
    omega
  · have := h.hwParams
    rw [List.map_cons, List.countP_cons] at this
    omega

/-- A parameter other than `soft=` leaves the parser ready for the others. -/
theorem Parsing.Ready.after (h : s.Ready ((p, sep) :: items))
    (hreaders : (p.apply s.opts).vreader = s.opts.vreader) (args : Bytes) :
    (s.after p args).Ready items := by
  obtain ⟨⟨hroom, hstep, htight, hint⟩, hfits, hdb, hhwParams⟩ := h
  refine ⟨⟨?_, hstep, ?_, hint⟩, hfits.of_prefix (by rw [← hreaders]; exact List.prefix_refl _),
    ?_, ?_⟩
  · simpa only [Parsing.after, hreaders] using hroom
  · simpa only [Parsing.after, hreaders] using htight
  · rw [List.map_cons, List.countP_cons] at hdb
    cases p <;> simp only [Parsing.after, Param.apply, Param.isDb, Option.toList_some,
      List.length_singleton, if_true] at hdb ⊢ <;> omega
  · rw [List.map_cons, List.countP_cons] at hhwParams
    cases p <;> simp only [Parsing.after, Param.apply, Param.isHwParams, Option.toList_some,
      List.length_singleton, if_true] at hhwParams ⊢ <;> omega

/-- How the items are read, from the first of them or up to the next blank. -/
structure ItemsRead (items : List (Param pcsc × Bytes)) : Prop where
  start : ∀ {s : Parsing} {fuel : ℕ} {gap : Bytes}, s.Ready items → (∀ c ∈ gap, SepChar c) →
    (items = [] → ∀ c ∈ gap, isspace c) → s.args = gap ++ itemsText items →
    s.args.length < fuel → ReadsAs (parseParams pcsc fuel s) s.opts items (readParams false items)
  swallow : ∀ {s : Parsing} {fuel : ℕ}, s.Ready items → s.args = findBlank (itemsText items) →
    s.args.length < fuel → ReadsAs (goOn pcsc fuel s) s.opts items (readParams true items)

theorem separated_sep (h : Separated ((p, sep) :: items)) :
    (∀ c ∈ sep, SepChar c) ∧ (items = [] → ∀ c ∈ sep, isspace c) ∧ (items ≠ [] → sep ≠ []) := by
  obtain ⟨h, -⟩ := h
  split_ifs at h with hnil
  · exact ⟨fun c hc => .inl (h c hc), fun _ => h, fun hne => absurd (List.isEmpty_iff.1 hnil) hne⟩
  · exact ⟨h.2, fun heq => absurd (List.isEmpty_iff.2 heq) hnil, fun _ => h.1⟩

theorem itemsText_cons (h : items ≠ []) : ∃ c text, itemsText items = c :: text
    ∧ ¬isspace c ∧ c ≠ Text.comma ∧ c ≠ Text.closeParen := by
  obtain ⟨⟨p, sep⟩, items', rfl⟩ := List.exists_cons_of_ne_nil h
  obtain ⟨c, text, htext, hc⟩ := p.text_cons
  exact ⟨c, text ++ (sep ++ itemsText items'), by rw [itemsText, htext, List.cons_append], hc⟩

theorem itemsText_ne_nil (h : items ≠ []) : itemsText items ≠ [] := by
  obtain ⟨c, text, htext, -⟩ := itemsText_cons h
  simp [htext]

theorem strip_sep_append (sep : Bytes) (h : items ≠ []) :
    strip (sep ++ itemsText items) = strip sep ++ itemsText items := by
  obtain ⟨c, text, htext, hc, -⟩ := itemsText_cons h
  rw [strip, List.dropWhile_append]
  split_ifs with hnil
  · rw [List.isEmpty_iff] at hnil
    rw [strip, hnil, htext]
    exact strip_cons hc text
  · rfl

theorem strip_sep_head (hsep : ∀ c ∈ sep, SepChar c) :
    (strip (sep ++ itemsText items)).head? ≠ some Text.closeParen := by
  have hnot : Text.closeParen ∉ strip sep := fun h => by
    rcases hsep _ ((strip_suffix sep).subset h) with h | h <;> revert h <;> decide
  intro h
  by_cases hne : items = []
  · subst hne
    rw [itemsText, List.append_nil] at h
    exact hnot (List.mem_of_mem_head? h)
  · obtain ⟨c, text, htext, -, -, hc⟩ := itemsText_cons hne
    rw [strip_sep_append sep hne, List.head?_append, htext, List.head?_cons] at h
    rcases hhead : (strip sep).head? with _ | x <;> rw [hhead] at h
    · exact hc (Option.some.inj h)
    · obtain rfl := Option.some.inj h
      exact hnot (List.mem_of_mem_head? hhead)

theorem ItemsRead.more (h : ItemsRead items) {fuel : ℕ} {gap : Bytes} (hs : s.Ready items)
    (hgap : ∀ c ∈ gap, SepChar c) (hblank : items = [] → ∀ c ∈ gap, isspace c)
    (hargs : s.args = gap ++ itemsText items) (hne : s.args ≠ []) (hfuel : s.args.length < fuel) :
    ReadsAs (goOn pcsc fuel s) s.opts items (readParams false items) := by
  rw [goOn_more hne]
  exact h.start hs hgap hblank hargs hfuel

/-- After a parameter that goes up to a blank. -/
theorem ItemsRead.blank (h : ItemsRead items) {fuel : ℕ} (hs : s.Ready items)
    (hsep : Separated ((p, sep) :: items)) (hargs : s.args = findBlank (sep ++ itemsText items))
    (hfuel : s.args.length < fuel) :
    ReadsAs (goOn pcsc fuel s) s.opts items (readParams (!sep.any isspace) items) := by
  obtain ⟨hgap, hblank, -⟩ := separated_sep hsep
  by_cases hany : sep.any isspace
  · obtain ⟨c, hc, hspace⟩ := List.any_eq_true.1 hany
    have hfind : findBlank (sep ++ itemsText items) = findBlank sep ++ itemsText items := by
      have hne : ¬(sep.dropWhile fun c => !isspace c).isEmpty := by
        rw [List.isEmpty_iff, List.dropWhile_eq_nil_iff]
        exact fun hall => by simpa [hspace] using hall c hc
      rw [findBlank, List.dropWhile_append, if_neg hne]
      rfl
    have hne : findBlank sep ≠ [] := fun hnil => by
      have := List.dropWhile_eq_nil_iff.1 hnil c hc
      simp [hspace] at this
    rw [hfind] at hargs
    have hsub : ∀ c ∈ findBlank sep, c ∈ sep := fun c hc => (findBlank_suffix sep).subset hc
    rw [hany]
    exact h.more hs (fun c hc => hgap c (hsub c hc)) (fun hnil c hc => hblank hnil c (hsub c hc))
      hargs (by simp [hargs, hne]) hfuel
  · have hword : ∀ c ∈ sep, ¬isspace c := fun c hc hspace =>
      hany (List.any_eq_true.2 ⟨c, hc, hspace⟩)
    rw [findBlank_append hword] at hargs
    rw [Bool.eq_false_of_not_eq_true hany]
    exact h.swallow hs hargs hfuel

end Read

section Items

variable {items : List (Param pcsc × Bytes)} {sep : Bytes}

theorem fits_append {reader : VirtualReaderOptions} (h : s.opts.Fits) :
    VCardEmulOptions.Fits { s.opts with vreader := s.opts.vreader ++ [reader] }
      ↔ reader.certName.length < 2 ^ 31 ∧ s.opts.vreader.length < 2 ^ 31 - readerStep := by
  unfold VCardEmulOptions.Fits
  simp only [List.length_append, List.length_singleton, List.forall_mem_append,
    List.forall_mem_singleton]
  exact ⟨fun hfits => ⟨hfits.2.2, hfits.1⟩, fun hfits => ⟨hfits.2, h.2, hfits.1⟩⟩

/-- A `soft=` ends at its parenthesis, and takes the blanks after it along. -/
theorem ItemsRead.soft (ih : ItemsRead items) {fuel : ℕ} {slot vname : PlainText}
    {name : CardTypeName pcsc} {params cert : PlainText} {certs : List PlainText}
    (hs : s.Ready ((Param.soft slot vname name params cert certs, sep) :: items))
    (hsep : Separated ((Param.soft slot vname name params cert certs, sep) :: items))
    (hstrip : strip s.args
      = (Param.soft slot vname name params cert certs).text ++ (sep ++ itemsText items))
    (hfuel : (sep ++ itemsText items).length < fuel) :
    ReadsAs (parseParams pcsc (fuel + 1) s) s.opts
      ((Param.soft slot vname name params cert certs, sep) :: items)
      (readParams false ((Param.soft slot vname name params cert certs, sep) :: items)) := by
  obtain ⟨hgap, hblank, -⟩ := separated_sep hsep
  have hfields := @softFields_soft pcsc (sep ++ itemsText items) slot vname name params cert
    certs
  have hcount := @countTokens_certsText (sep ++ itemsText items) cert certs
  have hnames := @certNames_certsText (sep ++ itemsText items) cert certs
  have hparse := parseParam_soft slot vname name params cert certs hstrip
  have hread : readParams false ((Param.soft slot vname name params cert certs, sep) :: items)
      = if items.isEmpty then some [Param.soft slot vname name params cert certs]
        else (Param.soft slot vname name params cert certs :: ·) <$> readParams false items := rfl
  by_cases hfits : ((Param.soft slot vname name params cert certs).apply s.opts).Fits
  · obtain ⟨hcerts, hreaders⟩ := (fits_append hs.fits).1 hfits
    obtain ⟨readerCount, hgrow, hroom⟩ := growReaders_ok hs.room hreaders
    simp only [List.length_cons, List.length_map] at hcerts
    rw [parseSoft_eq hfields hgrow (by rw [hcount]; exact hcerts) (by rw [hcount]; exact hnames),
      if_neg (strip_sep_head hgap)] at hparse
    rw [parseParams_taken hparse, hread]
    split_ifs with hnil
    · rw [List.isEmpty_iff] at hnil
      subst hnil
      have hend : strip (sep ++ itemsText ([] : List (Param pcsc × Bytes))) = [] :=
        strip_blanks (hblank rfl) []
      exact ReadsAs.last (goOn_end hend) hfits
    · have hne : items ≠ [] := fun h => hnil (List.isEmpty_iff.2 h)
      have hrest : strip (sep ++ itemsText items) = strip sep ++ itemsText items :=
        strip_sep_append sep hne
      have hlen := (strip_suffix (sep ++ itemsText items)).length_le
      have hsub : ∀ c ∈ strip sep, c ∈ sep := fun c hc => (strip_suffix sep).subset hc
      refine ReadsAs.cons (ih.more ⟨hroom _ _ (by simp), hfits, hs.skip.db, hs.skip.hwParams⟩
        (fun c hc => hgap c (hsub c hc)) (fun h => absurd h hne) hrest ?_ (by simp only; omega))
      simp [hrest, itemsText_ne_nil hne]
  · have herror : parseParam pcsc s = .error .overflow := by
      rw [hparse]
      refine parseSoft_overflow hs.room hfields fun h => hfits ((fits_append hs.fits).2 ?_)
      rw [hcount] at h
      simpa only [List.length_cons, List.length_map] using h
    rw [parseParams_error herror, hread]
    split_ifs with hnil
    · exact @ReadsAs.overflow _ _ _ _ _ (some []) _ rfl hfits
    · exact ReadsAs.overflow rfl hfits

/-- More than the value, up to a blank. -/
theorem strndupTo_findBlank_ne {word str : Bytes} {c : UInt8} (hword : ∀ x ∈ word, ¬isspace x)
    (hc : ¬isspace c) : strndupTo (word ++ c :: str) (findBlank (word ++ c :: str)) ≠ word := by
  have hfind : findBlank (word ++ c :: str) = findBlank str := by
    rw [findBlank_append hword, findBlank, List.dropWhile_cons_of_pos (by simpa using hc)]
    rfl
  have hlen := (findBlank_suffix str).length_le
  intro h
  have := congrArg List.length h
  rw [hfind, strndupTo, List.length_take, List.length_append, List.length_cons] at this
  omega

theorem Parsing.Ready.hwTypeParams_none {params : PlainText}
    (h : s.Ready ((Param.hwParams params, sep) :: items)) : s.opts.hwTypeParams = none := by
  have := h.hwParams
  rw [List.map_cons, List.countP_cons] at this
  rcases hparams : s.opts.hwTypeParams with _ | params'
  · rfl
  · simp [hparams, Param.isHwParams] at this

theorem Parsing.Ready.nssDb_none {path : PlainText}
    (h : s.Ready ((Param.db path, sep) :: items)) : s.opts.nssDb = none := by
  have := h.db
  rw [List.map_cons, List.countP_cons] at this
  rcases hdb : s.opts.nssDb with _ | path'
  · rfl
  · simp [hdb, Param.isDb] at this

theorem strip_head (str : Bytes) :
    strip str = [] ∨ ∃ c rest, strip str = c :: rest ∧ ¬isspace c := by
  induction str with
  | nil => exact .inl rfl
  | cons c str ih =>
    by_cases hc : isspace c
    · rw [show strip (c :: str) = strip str from List.dropWhile_cons_of_pos hc]
      exact ih
    · exact .inr ⟨c, str, strip_cons hc str, hc⟩

/-- With the wrong parameters for the hardware there is no way back. -/
theorem reads_wrong {fuel : ℕ} {params : PlainText} {opts : VCardEmulOptions} {wrong : Bytes}
    {s : Parsing} (hwrong : wrong ≠ params.1) (hs : s.opts.hwTypeParams = some wrong) :
    ReadsAs (goOn pcsc fuel s) opts ((Param.hwParams params, sep) :: items) none := by
  intro opts' hr
  refine ⟨params, List.mem_cons_self, ?_⟩
  rw [goOn_hwTypeParams hr hs]
  exact fun h => hwrong (Option.some.inj h)

/-- Without parameters for the hardware nothing but blanks may follow. -/
theorem reads_hwParams_nil {fuel : ℕ} {params : PlainText} (hparams : params.1 = [])
    (hs : s.Ready ((Param.hwParams params, sep) :: items))
    (hsep : Separated ((Param.hwParams params, sep) :: items))
    (hstrip : strip s.args
      = (Param.hwParams params : Param pcsc).text ++ (sep ++ itemsText items)) :
    ReadsAs (parseParams pcsc (fuel + 1) s) s.opts ((Param.hwParams params, sep) :: items)
      (readParams false ((Param.hwParams params, sep) :: items)) := by
  obtain ⟨-, hblank, -⟩ := separated_sep hsep
  rw [parseParams_taken (parseParam_hwParams hs.hwTypeParams_none hstrip), hparams,
    List.nil_append]
  by_cases hnil : items = []
  · subst hnil
    have hread : readParams false [((Param.hwParams params : Param pcsc), sep)]
        = some [Param.hwParams params] := by
      simp only [readParams, hparams, List.isEmpty_nil, Bool.or_true, Bool.and_true, if_true]
    have hend : strip (sep ++ itemsText ([] : List (Param pcsc × Bytes))) = [] :=
      strip_blanks (hblank rfl) []
    rw [hread, hend]
    refine ReadsAs.last ?_ hs.fits
    rw [goOn_end rfl, Param.apply, hparams]
    rfl
  · have hread : readParams false (((Param.hwParams params : Param pcsc), sep) :: items)
        = none := by
      simp [readParams, hparams, hnil]
    obtain ⟨c, text, htext, hc, -⟩ := itemsText_cons hnil
    rw [hread, strip_sep_append sep hnil]
    rcases strip_head sep with h | ⟨c', text', h, hc'⟩
    · rw [h, List.nil_append, htext]
      refine reads_wrong ?_ rfl
      rw [hparams]
      exact strndupTo_findBlank_ne (List.forall_mem_nil _) hc
    · rw [h, List.cons_append]
      refine reads_wrong ?_ rfl
      rw [hparams]
      exact strndupTo_findBlank_ne (List.forall_mem_nil _) hc'

/-- Parameters for the hardware are read right up to a blank or the end. -/
theorem ItemsRead.hwParams_text (ih : ItemsRead items) {fuel : ℕ} {params : PlainText}
    (hne : params.1 ≠ []) (hs : s.Ready ((Param.hwParams params, sep) :: items))
    (hsep : Separated ((Param.hwParams params, sep) :: items))
    (hstrip : strip s.args
      = (Param.hwParams params : Param pcsc).text ++ (sep ++ itemsText items))
    (hfuel : (sep ++ itemsText items).length < fuel) :
    ReadsAs (parseParams pcsc (fuel + 1) s) s.opts ((Param.hwParams params, sep) :: items)
      (readParams false ((Param.hwParams params, sep) :: items)) := by
  obtain ⟨hgap, hblank, hsepNe⟩ := separated_sep hsep
  obtain ⟨x, text, hparams⟩ := List.exists_cons_of_ne_nil hne
  rw [parseParams_taken (parseParam_hwParams hs.hwTypeParams_none hstrip), params.strip_eq hne]
  rcases sep with _ | ⟨c, sep⟩
  · have hnil : items = [] := by
      by_contra h
      exact hsepNe h rfl
    subst hnil
    have hread : readParams false [((Param.hwParams params : Param pcsc), [])]
        = some [Param.hwParams params] := rfl
    have hend : findBlank (params.1 ++ ([] ++ itemsText ([] : List (Param pcsc × Bytes)))) = [] :=
      findBlank_append params.not_blank []
    rw [hread, hend]
    refine ReadsAs.last ?_ hs.fits
    rw [goOn_end rfl, Param.apply]
    simp [strndupTo, itemsText]
  · by_cases hc : isspace c
    · have hread : readParams false (((Param.hwParams params : Param pcsc), c :: sep) :: items)
          = (Param.hwParams params :: ·) <$> readParams false items := by
        simp [readParams, hparams, hc]
      have hfind : findBlank (params.1 ++ (c :: sep ++ itemsText items))
          = c :: sep ++ itemsText items := by
        rw [findBlank_append params.not_blank, List.cons_append, findBlank_cons hc]
      rw [hread, hfind, strndupTo_append]
      exact ReadsAs.cons (ih.more (hs.after rfl _) hgap hblank rfl (by simp) hfuel)
    · have hread : readParams false (((Param.hwParams params : Param pcsc), c :: sep) :: items)
          = none := by
        simp [readParams, hparams, hc]
      rw [hread]
      refine reads_wrong ?_ rfl
      rw [List.cons_append]
      exact strndupTo_findBlank_ne params.not_blank hc

theorem ItemsRead.hwParams (ih : ItemsRead items) {fuel : ℕ} {params : PlainText}
    (hs : s.Ready ((Param.hwParams params, sep) :: items))
    (hsep : Separated ((Param.hwParams params, sep) :: items))
    (hstrip : strip s.args
      = (Param.hwParams params : Param pcsc).text ++ (sep ++ itemsText items))
    (hfuel : (sep ++ itemsText items).length < fuel) :
    ReadsAs (parseParams pcsc (fuel + 1) s) s.opts ((Param.hwParams params, sep) :: items)
      (readParams false ((Param.hwParams params, sep) :: items)) := by
  by_cases hparams : params.1 = []
  · exact reads_hwParams_nil hparams hs hsep hstrip
  · exact ih.hwParams_text hparams hs hsep hstrip hfuel

theorem ItemsRead.item (ih : ItemsRead items) {fuel : ℕ} (hs : s.Ready ((p, sep) :: items))
    (hsep : Separated ((p, sep) :: items))
    (hstrip : strip s.args = p.text ++ (sep ++ itemsText items))
    (hfuel : (sep ++ itemsText items).length < fuel) :
    ReadsAs (parseParams pcsc (fuel + 1) s) s.opts ((p, sep) :: items)
      (readParams false ((p, sep) :: items)) := by
  obtain ⟨hgap, hblank, hsepNe⟩ := separated_sep hsep
  have hshort := (findBlank_suffix (sep ++ itemsText items)).length_le
  have hempty : (items.isEmpty && sep.isEmpty) ↔ sep ++ itemsText items = [] := by
    rw [Bool.and_eq_true, List.isEmpty_iff, List.isEmpty_iff, List.append_eq_nil_iff]
    refine ⟨fun h => ?_, fun h => ⟨?_, h.1⟩⟩
    · rw [h.1]
      exact ⟨h.2, rfl⟩
    · by_contra hne
      exact itemsText_ne_nil hne h.2
  cases p with
  | soft slot vname name params cert certs => exact ih.soft hs hsep hstrip hfuel
  | hwParams params => exact ih.hwParams hs hsep hstrip hfuel
  | useHw use =>
    rw [parseParams_taken (parseParam_useHw hstrip)]
    exact ReadsAs.cons (ih.blank (hs.after rfl _) hsep rfl (by simp only [Parsing.after]; omega))
  | nssemul =>
    rw [parseParams_taken (parseParam_nssemul hstrip)]
    exact ReadsAs.cons (ih.blank (hs.after rfl _) hsep rfl (by simp only [Parsing.after]; omega))
  | hwType name =>
    have hparse := parseParam_hwType name hstrip
    simp only [readParams]
    split_ifs with h
    · rw [hempty.1 h, parseHwType_last] at hparse
      rw [parseParams_taken hparse]
      exact ReadsAs.last (goOn_end rfl) hs.fits
    · rw [parseHwType_more name (fun hnil => h (hempty.2 hnil))] at hparse
      exact ReadsAs.refused (parseParams_refused hparse)
  | db path =>
    rw [parseParams_taken (parseParam_db hstrip hs.nssDb_none)]
    simp only [readParams]
    split_ifs with h
    · exact ReadsAs.last (goOn_end (hempty.1 h)) hs.fits
    · exact ReadsAs.cons (ih.more (hs.after rfl _) hgap hblank rfl
        (fun hnil => h (hempty.2 hnil)) hfuel)

/-- What takes effect is what `readParams` says. -/
theorem reads_items (items : List (Param pcsc × Bytes)) (hsep : Separated items) :
    ItemsRead items := by
  induction items with
  | nil =>
    refine ⟨fun {s fuel gap} _ _ hblank hargs hfuel => ?_, fun {s fuel} hs hargs _ => ?_⟩
    · obtain ⟨fuel, rfl⟩ : ∃ n, fuel = n + 1 := ⟨fuel - 1, by omega⟩
      have hnil : strip s.args = [] := by
        rw [hargs]
        exact strip_blanks (hblank rfl) []
      have hparse : parseParam pcsc s = .ok none := by
        simp only [parseParam, hnil]
        simp [Text.softEq, Text.useHwEq, Text.hwTypeEq, Text.hwParamsEq, Text.dbEq, Text.nssemul,
          Text.passthru]
      exact ReadsAs.refused (parseParams_refused hparse)
    · exact ⟨fun _ => goOn_end hargs, fun hnot => absurd hs.fits hnot⟩
  | cons item items ih =>
    obtain ⟨p, sep⟩ := item
    have ih := ih hsep.2
    refine ⟨fun {s fuel gap} hs hgap _ hargs hfuel => ?_, fun {s fuel} hs hargs hfuel => ?_⟩
    · obtain ⟨fuel', s', heq, hopts, hcount, hstrip, hlen⟩ :=
        parseParams_gap hgap p hargs hfuel
      have hs' : s'.Ready ((p, sep) :: items) := by
        obtain ⟨⟨hroom, hstep, htight, hint⟩, hfits, hdb, hparams⟩ := hs
        rw [← hopts] at hroom htight hfits hdb hparams
        rw [← hcount] at hroom hstep htight hint
        exact ⟨⟨hroom, hstep, htight, hint⟩, hfits, hdb, hparams⟩
      have hpos := List.length_pos_iff.2 p.text_ne_nil
      rw [List.length_append] at hlen
      rw [heq, ← hopts]
      exact ih.item hs' hsep hstrip (by omega)
    · rw [itemsText, findBlank_append p.text_not_blank] at hargs
      exact ReadsAs.skip (ih.blank hs.skip hsep hargs hfuel)

end Items

section Meaning

theorem hwTypeParams_foldl_none {ps : List (Param pcsc)} (h : ps.countP Param.isHwParams = 0)
    (opts : VCardEmulOptions) :
    (ps.foldl Param.apply opts).hwTypeParams = opts.hwTypeParams := by
  induction ps generalizing opts with
  | nil => rfl
  | cons p ps ih =>
    rw [List.countP_cons] at h
    rw [List.foldl_cons, ih (by omega)]
    cases p <;> first | rfl | simp [Param.isHwParams] at h

theorem hwTypeParams_foldl {ps : List (Param pcsc)} {params : PlainText}
    (h : ps.countP Param.isHwParams ≤ 1) (hmem : Param.hwParams params ∈ ps)
    (opts : VCardEmulOptions) : (ps.foldl Param.apply opts).hwTypeParams = some params.1 := by
  induction ps generalizing opts with
  | nil => cases hmem
  | cons p ps ih =>
    rw [List.countP_cons] at h
    rw [List.foldl_cons]
    rcases List.mem_cons.1 hmem with rfl | hmem
    · rw [if_pos (by rfl)] at h
      exact hwTypeParams_foldl_none (by omega) _
    · exact ih (by omega) hmem _

theorem apply_comm {p q : Param pcsc} (h : ∀ field ∈ p.sets, field ∉ q.sets)
    (opts : VCardEmulOptions) : q.apply (p.apply opts) = p.apply (q.apply opts) := by
  cases p <;> cases q <;> first | rfl | simp [Param.sets] at h

/-- A documented option string means its parameters exactly when the parameters that are read,
each by its own rule for where it ends, mean the same as all of them. -/
theorem meansParams_iff (pcsc : Bool) :
    (∀ str : OptionString pcsc, str.MeansParams ↔ str.ReadsAll)
      ∧ ∀ p q : Param pcsc, (∀ field ∈ p.sets, field ∉ q.sets) →
        ∀ opts, q.apply (p.apply opts) = p.apply (q.apply opts) := by
  refine ⟨fun str => ?_, fun p q h opts => apply_comm h opts⟩
  have hfits : defaultOptions.Fits := ⟨by simp [defaultOptions], by simp [defaultOptions]⟩
  have hready : Parsing.Ready ⟨defaultOptions, 0, str.text⟩ str.items :=
    ⟨parsing_start_room _, hfits, str.oneDb, str.oneHwParams⟩
  have hreads := (reads_items str.items str.separated).start hready
    (fun c hc => .inl (str.blanks c hc)) (fun _ => str.blanks) rfl (Nat.lt_succ_self _)
  unfold OptionString.MeansParams OptionString.ReadsAll vcardEmulOptions
  rcases hseen : readParams false str.items with _ | seen <;> rw [hseen] at hreads
  · constructor
    · intro h
      obtain ⟨params, hmem, hne⟩ := hreads _ h
      exact absurd (hwTypeParams_foldl str.oneHwParams hmem _) hne
    · rintro ⟨_, h, -⟩
      exact absurd h (by simp)
  · constructor
    · intro h
      by_cases hseenFits : (seen.foldl Param.apply defaultOptions).Fits
      · have := hreads.1 hseenFits
        rw [h, Except.ok.injEq, Option.some.injEq] at this
        exact ⟨seen, rfl, this.symm, hseenFits⟩
      · exact absurd h (hreads.2 hseenFits _)
    · rintro ⟨_, ⟨⟩, heq, hseenFits⟩
      rw [hreads.1 hseenFits, heq]

/-- `cac` -/
def cacTypeName : CardTypeName false := ⟨⟨Text.cac, forall_mem_of_all (by decide)⟩, by decide⟩

/-- `hw_type=cac use_hw=no` -/
def hwTypeUseHw : OptionString false where
  lead := []
  items := [(.hwType cacTypeName, [0x20]), (.useHw .no, [])]
  blanks := List.forall_mem_nil _
  separated := by
    refine ⟨⟨List.cons_ne_nil _ _, ?_⟩, ⟨by simp, trivial⟩⟩
    simp [SepChar, isspace]
  oneDb := by decide
  oneHwParams := by decide

/-- The type of the hardware card is taken for all that follows it. -/
theorem hwTypeUseHw_fails : ¬hwTypeUseHw.MeansParams := by
  have h : vcardEmulOptions false hwTypeUseHw.text = .ok none := by decide +kernel
  unfold OptionString.MeansParams
  rw [h]
  rintro ⟨⟩

end Meaning

end Libcacard
