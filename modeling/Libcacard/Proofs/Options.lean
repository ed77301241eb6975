import Libcacard.Options
import Mathlib.Data.List.TakeWhile

/-!
# The option parser in its input

What the parser has left is always an end of its input, and gets shorter with each parameter. Only
the certificates of a `soft=` are taken for as many as were counted, without a look at whether they
are there: without a closing parenthesis the count is one too high.
-/

namespace Libcacard

open Machine

variable {pcsc : Bool} {args rest s token : Bytes}

section Strings

theorem strip_suffix (str : Bytes) : strip str <:+ str := List.dropWhile_suffix _

theorem findBlank_suffix (str : Bytes) : findBlank str <:+ str := List.dropWhile_suffix _

theorem strndupTo_isPrefix (s rest : Bytes) : strndupTo s rest <+: s := List.take_prefix _ _

theorem strpbrk_append {accept : Bytes} {c : UInt8} (htoken : ∀ x ∈ token, x ∉ accept)
    (hc : c ∈ accept) : strpbrk (token ++ c :: rest) accept = some (c :: rest) := by
  have hdrop : (token ++ c :: rest).dropWhile (fun x => x ∉ accept) = c :: rest := by
    rw [List.dropWhile_append_of_pos (by simpa using htoken), List.dropWhile_cons_of_neg (by simpa)]
  simp only [strpbrk, hdrop, reduceCtorEq, if_false]

@[simp] theorem strndupTo_append (token rest : Bytes) : strndupTo (token ++ rest) rest = token := by
  simp [strndupTo]

theorem strip_drop_suffix {c : UInt8} : strip rest <:+ token ++ c :: rest :=
  (strip_suffix rest).trans ⟨token ++ [c], by simp⟩

theorem strip_drop_length {c : UInt8} : (strip rest).length < (token ++ c :: rest).length := by
  have := (strip_suffix rest).length_le
  rw [List.length_append, List.length_cons]
  omega

/-- Either none of the characters is there, or the first of them ends a token. -/
theorem strpbrk_cases (s accept : Bytes) :
    (strpbrk s accept = none ∧ ∀ c ∈ s, c ∉ accept)
      ∨ ∃ token c rest, s = token ++ c :: rest ∧ (∀ x ∈ token, x ∉ accept) ∧ c ∈ accept := by
  induction s with
  | nil => exact .inl ⟨rfl, by simp⟩
  | cons x s ih =>
    by_cases hx : x ∈ accept
    · exact .inr ⟨[], x, s, rfl, by simp, hx⟩
    · rcases ih with ⟨hnone, hall⟩ | ⟨token, c, rest, rfl, htoken, hc⟩
      · refine .inl ⟨?_, by simpa [hx] using hall⟩
        simpa [strpbrk, hx] using hnone
      · exact .inr ⟨x :: token, c, rest, rfl, by simpa [hx] using htoken, hc⟩

theorem nextToken_cases (args : Bytes) : nextToken args = none
    ∨ ∃ token rest, args = token ++ Text.comma :: rest
      ∧ (∀ x ∈ token, x ∉ [Text.comma, Text.closeParen])
      ∧ nextToken args = some (token, strip rest) := by
  rcases strpbrk_cases args [Text.comma, Text.closeParen] with
    ⟨hnone, -⟩ | ⟨token, c, rest, rfl, htoken, hc⟩
  · exact .inl (by rw [nextToken, hnone])
  · rw [nextToken, strpbrk_append htoken hc]
    rcases List.mem_pair.1 hc with rfl | rfl
    · refine .inr ⟨token, rest, rfl, htoken, ?_⟩
      simp only [strndupTo_append]
      rfl
    · exact .inl rfl

theorem nextToken_eq_some (h : nextToken args = some (token, rest)) :
    token <+: args ∧ rest <:+ args ∧ rest.length < args.length := by
  rcases nextToken_cases args with hnone | ⟨token', rest', rfl, -, hsome⟩
  · rw [hnone] at h
    cases h
  · rw [hsome, Option.some.injEq, Prod.mk.injEq] at h
    obtain ⟨rfl, rfl⟩ := h
    exact ⟨List.prefix_append _ _, strip_drop_suffix, strip_drop_length⟩

/-- The text of a `soft=` up to its certificates. -/
theorem softFields_eq_some {r : VirtualReaderOptions}
    (h : softFields pcsc args = some (r, rest)) :
    r.name <:+: args ∧ r.vname <:+: args ∧ r.typeParams <:+: args ∧ r.certName = []
      ∧ rest <:+ args ∧ rest.length < args.length := by
  have hstart : strip (args.drop Text.softEq.length) <:+ args :=
    (strip_suffix _).trans (List.drop_suffix _ _)
  unfold softFields at h
  dsimp only at h
  split_ifs at h with hopen
  simp only [Option.bind_eq_bind, Option.bind_eq_some_iff, Prod.exists] at h
  obtain ⟨name, args₁, hname, vname, args₂, hvname, typeStr, args₃, htype, h⟩ := h
  split_ifs at h with hnone
  simp only [Option.bind_eq_some_iff, Prod.exists] at h
  obtain ⟨typeParams, args₄, hparams, h⟩ := h
  split_ifs at h with hnil
  simp only [Option.some.injEq, Prod.mk.injEq] at h
  obtain ⟨rfl, rfl⟩ := h
  obtain ⟨hname, hs₁, hl₁⟩ := nextToken_eq_some hname
  obtain ⟨hvname, hs₂, hl₂⟩ := nextToken_eq_some hvname
  obtain ⟨-, hs₃, hl₃⟩ := nextToken_eq_some htype
  obtain ⟨hparams, hs₄, hl₄⟩ := nextToken_eq_some hparams
  have hs₀ := ((strip_suffix _).trans (List.drop_suffix 1 _)).trans hstart
  have hs₁ := hs₁.trans hs₀
  have hs₂ := hs₂.trans hs₁
  have hs₃ := hs₃.trans hs₂
  have hlen := hs₃.length_le
  exact ⟨hname.isInfix.trans hs₀.isInfix, hvname.isInfix.trans hs₁.isInfix,
    hparams.isInfix.trans hs₃.isInfix, rfl, hs₄.trans hs₃, by omega⟩

end Strings

section Certs

theorem countTokens_append (htoken : ∀ x ∈ token, x ∉ [Text.comma, Text.closeParen])
    (rest : Bytes) : countTokens Text.comma Text.closeParen (token ++ rest)
      = countTokens Text.comma Text.closeParen rest := by
  induction token with
  | nil => rfl
  | cons x token ih =>
    simp only [List.mem_cons, List.not_mem_nil, or_false, not_or, forall_eq_or_imp] at htoken ih
    simp only [List.cons_append, countTokens, htoken.1, if_false, ih htoken.2, zero_add]

theorem strip_eq (str : Bytes) : ∃ blanks, str = blanks ++ strip str ∧ ∀ x ∈ blanks, isspace x :=
  ⟨str.takeWhile isspace, (List.takeWhile_append_dropWhile ..).symm,
    fun _ hx => List.mem_takeWhile_imp hx⟩

theorem isspace_not_mem {x : UInt8} (hx : isspace x) : x ∉ [Text.comma, Text.closeParen] := by
  simp only [List.mem_cons, List.not_mem_nil, or_false, not_or]
  constructor <;> (rintro rfl; revert hx; decide)

theorem countTokens_strip (str : Bytes) : countTokens Text.comma Text.closeParen (strip str)
    = countTokens Text.comma Text.closeParen str := by
  obtain ⟨blanks, hstr, hblanks⟩ := strip_eq str
  conv_rhs => rw [hstr]
  exact (countTokens_append (fun x hx => isspace_not_mem (hblanks x hx)) _).symm

theorem closeParen_mem_strip {str : Bytes} :
    Text.closeParen ∈ strip str ↔ Text.closeParen ∈ str := by
  obtain ⟨blanks, hstr, hblanks⟩ := strip_eq str
  conv_rhs => rw [hstr]
  rw [List.mem_append]
  refine ⟨.inr, fun h => h.resolve_left fun hmem => ?_⟩
  exact isspace_not_mem (hblanks _ hmem) (by simp)

/-- A certificate and what ends it, a comma or the closing parenthesis. -/
theorem certs_cases (certs : Bytes) :
    (strpbrk certs [Text.comma, Text.closeParen] = none ∧ Text.closeParen ∉ certs
        ∧ countTokens Text.comma Text.closeParen certs = 0)
      ∨ ∃ token rest c, certs = token ++ c :: rest
        ∧ strpbrk certs [Text.comma, Text.closeParen] = some (c :: rest)
        ∧ (c = Text.closeParen ∧ Text.closeParen ∈ certs
              ∧ countTokens Text.comma Text.closeParen certs = 0
            ∨ c = Text.comma ∧ (Text.closeParen ∈ certs ↔ Text.closeParen ∈ strip rest)
              ∧ countTokens Text.comma Text.closeParen certs
                = countTokens Text.comma Text.closeParen (strip rest) + 1) := by
  rcases strpbrk_cases certs [Text.comma, Text.closeParen] with
    ⟨hnone, hall⟩ | ⟨token, c, rest, rfl, htoken, hc⟩
  · refine .inl ⟨hnone, fun h => hall _ h (by simp), ?_⟩
    have := countTokens_append hall []
    rwa [List.append_nil] at this
  · refine .inr ⟨token, rest, c, rfl, strpbrk_append htoken hc, ?_⟩
    rw [countTokens_append htoken]
    rcases List.mem_pair.1 hc with rfl | rfl
    · refine .inr ⟨rfl, ?_, ?_⟩
      · rw [closeParen_mem_strip, List.mem_append, List.mem_cons]
        exact ⟨fun h => (h.resolve_left fun h => htoken _ h (by simp)).resolve_left (by decide),
          fun h => .inr (.inr h)⟩
      · rw [countTokens_strip, countTokens, if_pos rfl, if_neg (by decide), Nat.add_comm]
    · exact .inl ⟨rfl, by simp, by simp [countTokens, Text.closeParen, Text.comma]⟩

/-- Where there is a closing parenthesis, as many certificates are there as are counted. -/
theorem certNames_closed {count : ℕ} {certs : Bytes} (hclose : Text.closeParen ∈ certs)
    (hcount : countTokens Text.comma Text.closeParen certs = count) :
    ∃ names rest, certNames (count + 1) certs = .ok (names, rest) ∧ rest <:+ certs
      ∧ rest.length < certs.length ∧ ∀ name ∈ names, name <:+: certs := by
  induction count generalizing certs with
  | zero =>
    rcases certs_cases certs with ⟨-, hnot, -⟩ | ⟨token, rest, c, rfl, hfind, hc⟩
    · exact absurd hclose hnot
    · rw [certNames, hfind]
      exact ⟨_, _, rfl, strip_drop_suffix, strip_drop_length, by simp [List.prefix_append,
        List.IsPrefix.isInfix]⟩
  | succ count ih =>
    rcases certs_cases certs with ⟨-, hnot, -⟩ | ⟨token, rest, c, rfl, hfind, hc⟩
    · exact absurd hclose hnot
    · rcases hc with ⟨-, -, hzero⟩ | ⟨-, hmem, hsucc⟩
      · omega
      · obtain ⟨names, rest', hnames, hsuffix, hlen, hinside⟩ := ih (hmem.1 hclose) (by omega)
        have hrest : strip rest <:+ token ++ c :: rest := strip_drop_suffix
        have hshort := @strip_drop_length rest token c
        rw [certNames, hfind]
        simp only [List.drop_one, List.tail_cons, hnames, strndupTo_append]
        refine ⟨token :: names, rest', rfl, hsuffix.trans hrest, by omega, fun name hname => ?_⟩
        rcases List.mem_cons.1 hname with rfl | hname
        · exact (List.prefix_append _ _).isInfix
        · exact (hinside name hname).trans hrest.isInfix

/-- Without one, one certificate too many is looked for. -/
theorem certNames_unclosed {count : ℕ} {certs : Bytes} (hclose : Text.closeParen ∉ certs)
    (hcount : countTokens Text.comma Text.closeParen certs = count) :
    certNames (count + 1) certs = .error .nullPointer := by
  induction count generalizing certs with
  | zero =>
    rcases certs_cases certs with ⟨hnone, -, -⟩ | ⟨token, rest, c, rfl, hfind, hc⟩
    · rw [certNames, hnone]
    · rcases hc with ⟨-, hmem, -⟩ | ⟨-, -, hsucc⟩
      · exact absurd hmem hclose
      · omega
  | succ count ih =>
    rcases certs_cases certs with ⟨-, -, hzero⟩ | ⟨token, rest, c, rfl, hfind, hc⟩
    · omega
    · rcases hc with ⟨-, hmem, -⟩ | ⟨-, hmem, hsucc⟩
      · exact absurd hmem hclose
      · rw [certNames, hfind]
        simp only [List.drop_one, List.tail_cons]
        rw [ih (fun h => hclose (hmem.2 h)) (by omega)]
        rfl

end Certs

section OneParam

/-- There is no more room for readers than the next multiple of `READER_STEP`. -/
structure Parsing.Room (s : Parsing) : Prop where
  room : s.opts.vreader.length ≤ s.readerCount
  step : readerStep ∣ s.readerCount
  tight : s.readerCount < s.opts.vreader.length + readerStep
  int : s.readerCount < 2 ^ 31

/-- What the parser keeps: it is in its input. -/
structure Parsing.Ok (args : Bytes) (s : Parsing) : Prop extends s.Room where
  suffix : s.args <:+ args
  strings : ∀ str ∈ s.opts.strings, str <:+: args

/-- A parameter that is taken. -/
def Parsing.Takes (args : Bytes) (s s' : Parsing) : Prop :=
  s'.Ok args ∧ s'.args.length < s.args.length

variable {s : Parsing}

theorem growReaders_ok (h : s.Room) (hcount : s.opts.vreader.length < 2 ^ 31 - readerStep) :
    ∃ readerCount, growReaders s.readerCount s.opts.vreader.length = .ok readerCount
      ∧ ∀ opts args, opts.vreader.length = s.opts.vreader.length + 1 →
        Parsing.Room ⟨opts, readerCount, args⟩ := by
  obtain ⟨hroom, hstep, htight, hint⟩ := h
  unfold readerStep at *
  rcases Nat.lt_or_ge s.opts.vreader.length s.readerCount with h | h
  · refine ⟨s.readerCount, ?_, fun opts args hlen => ⟨?_, hstep, ?_, hint⟩⟩
    · simp only [growReaders, Nat.not_le.2 h, if_false, pure_bind, h, if_true]
      rfl
    · simp only [hlen]
      omega
    · simp only [hlen, readerStep]
      omega
  · have hint : ¬2 ^ 31 ≤ s.readerCount + 4 := by omega
    have hroom : s.opts.vreader.length < s.readerCount + 4 := by omega
    refine ⟨s.readerCount + 4, ?_, fun opts args hlen => ⟨?_, ?_, ?_, ?_⟩⟩
    · simp only [growReaders, readerStep, h, hint, hroom, if_true, if_false, pure_bind]
      rfl
    · simp only [hlen]
      omega
    · simp only [readerStep]
      omega
    · simp only [hlen, readerStep]
      omega
    · simp only
      omega

theorem growReaders_overflow (h : s.Room) (hcount : ¬s.opts.vreader.length < 2 ^ 31 - readerStep) :
    growReaders s.readerCount s.opts.vreader.length = .error .overflow := by
  obtain ⟨hroom, hstep, htight, hint⟩ := h
  unfold readerStep at *
  have hle : s.readerCount ≤ s.opts.vreader.length := by omega
  have hoverflow : 2 ^ 31 ≤ s.readerCount + 4 := by omega
  simp only [growReaders, readerStep, hle, hoverflow, if_true]
  rfl

theorem rest_of_param {param str : Bytes} (h : param <+: strip str) (hne : param ≠ []) :
    (strip str).drop param.length <:+ str
      ∧ ((strip str).drop param.length).length < str.length := by
  refine ⟨(List.drop_suffix _ _).trans (strip_suffix _), ?_⟩
  have h₁ := (strip_suffix str).length_le
  have h₂ := h.length_le
  have h₃ := List.length_pos_iff.2 hne
  rw [List.length_drop]
  omega

/-- A parameter other than `soft=` adds no reader. -/
theorem Parsing.Ok.takes (h : s.Ok args) {opts : VCardEmulOptions} (hsuffix : rest <:+ s.args)
    (hlen : rest.length < s.args.length) (hreaders : opts.vreader = s.opts.vreader)
    (hstrings : ∀ str ∈ opts.strings, str ∈ s.opts.strings ∨ str <:+: s.args) :
    s.Takes args { s with opts := opts, args := rest } :=
  ⟨{ suffix := hsuffix.trans h.suffix
     strings := fun str hstr => (hstrings str hstr).elim (h.strings str)
       fun hinside => hinside.trans h.suffix.isInfix
     room := by rw [hreaders]; exact h.room
     step := h.step
     tight := by rw [hreaders]; exact h.tight
     int := h.int }, hlen⟩

theorem parseSoft_eq {str certs : Bytes} {r : VirtualReaderOptions} {readerCount : ℕ}
    {names : List Bytes} (hfields : softFields pcsc str = some (r, certs))
    (hgrow : growReaders s.readerCount s.opts.vreader.length = .ok readerCount)
    (hcount : countTokens Text.comma Text.closeParen certs + 1 < 2 ^ 31)
    (hnames : certNames (countTokens Text.comma Text.closeParen certs + 1) certs
      = .ok (names, rest)) :
    parseSoft pcsc s str = .ok (some
      ⟨{ s.opts with vreader := s.opts.vreader ++ [{ r with certName := names }] }, readerCount,
        if rest.head? = some Text.closeParen then rest.drop 1 else rest⟩) := by
  simp only [parseSoft, hfields, hgrow, hnames]
  simp only [bind, Except.bind, Nat.not_le.2 hcount, if_false, pure, Except.pure]

/-- Readers or certificates that an `int` cannot count. -/
theorem parseSoft_overflow {str certs : Bytes} {r : VirtualReaderOptions} (h : s.Room)
    (hfields : softFields pcsc str = some (r, certs))
    (hcount : ¬(countTokens Text.comma Text.closeParen certs + 1 < 2 ^ 31
      ∧ s.opts.vreader.length < 2 ^ 31 - readerStep)) :
    parseSoft pcsc s str = .error .overflow := by
  simp only [parseSoft, hfields]
  by_cases hreaders : s.opts.vreader.length < 2 ^ 31 - readerStep
  · obtain ⟨readerCount, hgrow, -⟩ := growReaders_ok h hreaders
    have hcount : 2 ^ 31 ≤ countTokens Text.comma Text.closeParen certs + 1 :=
      Nat.not_lt.1 fun hlt => hcount ⟨hlt, hreaders⟩
    rw [hgrow]
    simp only [bind, Except.bind, hcount, if_true]
    rfl
  · rw [growReaders_overflow h hreaders]
    rfl

theorem parseSoft_closed (h : s.Ok args) (hsoft : Text.softEq <+: strip s.args)
    (hclosed : s.Closed pcsc) : ∃ r, parseSoft pcsc s (strip s.args) = .ok r
      ∧ ∀ s' ∈ r, s.Takes args s' := by
  rcases hfields : softFields pcsc (strip s.args) with _ | ⟨r, certs⟩
  · exact ⟨none, by rw [parseSoft, hfields], by simp⟩
  obtain ⟨hclose, hcount, hreaders⟩ := hclosed r certs hsoft hfields
  obtain ⟨readerCount, hgrow, hroom⟩ := growReaders_ok h.toRoom hreaders
  obtain ⟨names, rest, hnames, hrest, hlen, hinside⟩ := certNames_closed hclose rfl
  obtain ⟨hname, hvname, hparams, -, hcerts, hshort⟩ := softFields_eq_some hfields
  have hstrip := strip_suffix s.args
  have hstripLen := hstrip.length_le
  have hin {str : Bytes} (hstr : str <:+: strip s.args) : str <:+: args :=
    (hstr.trans hstrip.isInfix).trans h.suffix.isInfix
  refine ⟨_, parseSoft_eq hfields hgrow hcount hnames, ?_⟩
  rintro s' ⟨⟩
  have hafter : (if rest.head? = some Text.closeParen then rest.drop 1 else rest) <:+ rest := by
    split_ifs
    · exact List.drop_suffix _ _
    · exact List.suffix_refl _
  have hafterLen := hafter.length_le
  refine ⟨⟨hroom _ _ (by simp), (hafter.trans (hrest.trans (hcerts.trans hstrip))).trans h.suffix,
    fun str hstr => ?_⟩, by simp only; omega⟩
  simp only [VCardEmulOptions.strings, List.flatMap_append, List.mem_append, List.flatMap_cons,
    List.flatMap_nil, List.append_nil, List.mem_cons] at hstr
  rcases hstr with hstr | hstr | rfl | rfl | rfl | hstr
  · exact h.strings _ (by simp only [VCardEmulOptions.strings, List.mem_append, hstr, true_or])
  · exact h.strings _ (by simp only [VCardEmulOptions.strings, List.mem_append, hstr, or_true])
  · exact hin hname
  · exact hin hvname
  · exact hin hparams
  · exact hin ((hinside _ hstr).trans hcerts.isInfix)

theorem parseSoft_unclosed (h : s.Ok args) (hclosed : ¬s.Closed pcsc) :
    Text.softEq <+: strip s.args ∧ ∃ e, parseSoft pcsc s (strip s.args) = .error e := by
  simp only [Parsing.Closed, not_forall] at hclosed
  obtain ⟨r, certs, hsoft, hfields, hnot⟩ := hclosed
  refine ⟨hsoft, ?_⟩
  by_cases hcount : countTokens Text.comma Text.closeParen certs + 1 < 2 ^ 31
      ∧ s.opts.vreader.length < 2 ^ 31 - readerStep
  · obtain ⟨readerCount, hgrow, -⟩ := growReaders_ok h.toRoom hcount.2
    have hclose : Text.closeParen ∉ certs := fun hclose => hnot ⟨hclose, hcount⟩
    refine ⟨.nullPointer, ?_⟩
    simp only [parseSoft, hfields, hgrow, bind, Except.bind, Nat.not_le.2 hcount.1, if_false,
      certNames_unclosed hclose rfl]
  · exact ⟨_, parseSoft_overflow h.toRoom hfields hcount⟩

theorem parseUseHw_takes (h : s.Ok args) (hparam : Text.useHwEq <+: strip s.args) :
    s.Takes args (parseUseHw s (strip s.args)) := by
  obtain ⟨hsuffix, hlen⟩ := rest_of_param hparam (by decide)
  have hrest := (findBlank_suffix (strip ((strip s.args).drop Text.useHwEq.length))).trans
    (strip_suffix _)
  have := hrest.length_le
  exact h.takes (hrest.trans hsuffix) (by omega) rfl fun str hstr => .inl hstr

theorem parseHwType_takes (h : s.Ok args) (hparam : Text.hwTypeEq <+: strip s.args) :
    ∀ s' ∈ parseHwType pcsc s (strip s.args), s.Takes args s' := by
  obtain ⟨hsuffix, hlen⟩ := rest_of_param hparam (by decide)
  have hrest := (findBlank_suffix (strip ((strip s.args).drop Text.hwTypeEq.length))).trans
    (strip_suffix _)
  have := hrest.length_le
  intro s' hs'
  simp only [parseHwType] at hs'
  split_ifs at hs' with hnone
  · cases hs'
  · cases hs'
    exact h.takes (hrest.trans hsuffix) (by omega) rfl fun str hstr => .inl hstr

theorem parseHwParams_takes (h : s.Ok args) (hparam : Text.hwParamsEq <+: strip s.args) :
    ∀ s' ∈ parseHwParams s (strip s.args), s.Takes args s' := by
  obtain ⟨hsuffix, hlen⟩ := rest_of_param hparam (by decide)
  have hparams := strip_suffix ((strip s.args).drop Text.hwParamsEq.length)
  have hrest := (findBlank_suffix _).trans hparams
  have := hrest.length_le
  intro s' hs'
  simp only [parseHwParams] at hs'
  split_ifs at hs' with hset
  · cases hs'
  · cases hs'
    refine h.takes (hrest.trans hsuffix) (by omega) rfl fun str hstr => ?_
    simp only [VCardEmulOptions.strings, Option.toList_some, List.mem_append,
      List.mem_singleton] at hstr ⊢
    rcases hstr with (hstr | rfl) | hstr
    · exact .inl (.inl (.inl hstr))
    · exact .inr ((strndupTo_isPrefix _ _).isInfix.trans (hparams.trans hsuffix).isInfix)
    · exact .inl (.inr hstr)

theorem parseDb_takes (h : s.Ok args) (hparam : Text.dbEq <+: strip s.args) :
    ∀ s' ∈ parseDb s (strip s.args), s.Takes args s' := by
  obtain ⟨hsuffix, hlen⟩ := rest_of_param hparam (by decide)
  have hdb := (List.drop_suffix 1 _).trans
    ((strip_suffix ((strip s.args).drop Text.dbEq.length)).trans hsuffix)
  intro s' hs'
  simp only [parseDb] at hs'
  split_ifs at hs' with hset hquote
  · cases hs'
  · cases hs'
  simp only [Option.bind_eq_bind, Option.mem_def, Option.bind_eq_some_iff] at hs'
  obtain ⟨rest, hfind, hs'⟩ := hs'
  cases hs'
  rcases strpbrk_cases ((strip ((strip s.args).drop Text.dbEq.length)).drop 1)
    [Text.quote, Text.newline] with ⟨hnone, -⟩ | ⟨db, c, rest', heq, hdb', hc⟩
  · rw [hnone] at hfind
    cases hfind
  rw [heq, strpbrk_append hdb' hc] at hfind
  cases hfind
  rw [heq] at hdb ⊢
  have hrest : rest' <:+ db ++ c :: rest' := ⟨db ++ [c], by simp⟩
  have hshort := hdb.length_le
  rw [List.length_append, List.length_cons] at hshort
  refine h.takes (hrest.trans hdb) (by simp only [List.drop_one, List.tail_cons]; omega) rfl
    fun str hstr => ?_
  simp only [VCardEmulOptions.strings, Option.toList_some, List.mem_append, List.mem_singleton,
    strndupTo_append] at hstr ⊢
  rcases hstr with (rfl | hstr) | hstr
  · exact .inr ((List.prefix_append _ _).isInfix.trans hdb.isInfix)
  · exact .inl (.inl (.inr hstr))
  · exact .inl (.inr hstr)

theorem parseHw_takes (h : s.Ok args) {type : VCardEmulType} {param : Bytes}
    (hparam : param <+: strip s.args) (hne : param ≠ []) :
    s.Takes args (parseHw s type ((strip s.args).drop param.length)) := by
  obtain ⟨hsuffix, hlen⟩ := rest_of_param hparam hne
  have hrest := findBlank_suffix ((strip s.args).drop param.length)
  have := hrest.length_le
  exact h.takes (hrest.trans hsuffix) (by omega) rfl fun str hstr => .inl hstr

/-- A parameter is taken or refused, where no certificates are missing. -/
theorem parseParam_closed (h : s.Ok args) (hclosed : s.Closed pcsc) :
    ∃ r, parseParam pcsc s = .ok r ∧ ∀ s' ∈ r, s.Takes args s' := by
  unfold parseParam
  dsimp only
  split_ifs with hcomma hsoft huseHw hhwType hhwParams hdb hnssemul hpassthru
  · refine ⟨_, rfl, ?_⟩
    rintro s' ⟨⟩
    have hcomma : [Text.comma] <+: strip s.args := by
      obtain ⟨rest, hrest⟩ := List.head?_eq_some_iff.1 hcomma
      exact ⟨rest, hrest.symm⟩
    obtain ⟨hsuffix, hlen⟩ := rest_of_param hcomma (by decide)
    exact h.takes hsuffix hlen rfl fun str hstr => .inl hstr
  · exact parseSoft_closed h hsoft hclosed
  · exact ⟨_, rfl, by rintro s' ⟨⟩; exact parseUseHw_takes h huseHw⟩
  · exact ⟨_, rfl, parseHwType_takes h hhwType⟩
  · exact ⟨_, rfl, parseHwParams_takes h hhwParams⟩
  · exact ⟨_, rfl, parseDb_takes h hdb⟩
  · exact ⟨_, rfl, by rintro s' ⟨⟩; exact parseHw_takes h hnssemul (by decide)⟩
  · exact ⟨_, rfl, by rintro s' ⟨⟩; exact parseHw_takes h hpassthru.2 (by decide)⟩
  · exact ⟨none, rfl, by simp⟩

theorem parseParam_unclosed (h : s.Ok args) (hclosed : ¬s.Closed pcsc) :
    ∃ e, parseParam pcsc s = .error e := by
  obtain ⟨hsoft, e, he⟩ := parseSoft_unclosed h hclosed
  have hcomma : ¬(strip s.args).head? = some Text.comma := by
    obtain ⟨rest, hrest⟩ := hsoft
    simp [← hrest, Text.softEq, Text.comma]
  exact ⟨e, by simp only [parseParam, hcomma, hsoft, if_true, if_false, he]⟩

end OneParam

section Loop

variable {s : Parsing}

theorem parsing_start_room (args : Bytes) : Parsing.Room ⟨defaultOptions, 0, args⟩ :=
  ⟨Nat.le_refl _, Nat.dvd_zero _, by simp [defaultOptions, readerStep], Nat.two_pow_pos 31⟩

theorem parsing_start_ok (args : Bytes) : Parsing.Ok args ⟨defaultOptions, 0, args⟩ :=
  ⟨parsing_start_room args, List.suffix_refl _,
    by simp [VCardEmulOptions.strings, defaultOptions]⟩

/-- With no certificates missing the parser gets to the end. -/
theorem parseParams_closed {fuel : ℕ} (hcomes : ComesTo pcsc args s) (h : s.Ok args)
    (hfuel : s.args.length < fuel) (hclosed : ∀ s, ComesTo pcsc args s → s.Closed pcsc) :
    ∃ r, parseParams pcsc fuel s = .ok r ∧ ∀ opts ∈ r, ∀ str ∈ opts.strings, str <:+: args := by
  induction fuel generalizing s with
  | zero => omega
  | succ fuel ih =>
    obtain ⟨r, hr, htakes⟩ := parseParam_closed h (hclosed s hcomes)
    simp only [parseParams, hr, bind, Except.bind]
    rcases r with _ | s'
    · exact ⟨none, rfl, by simp⟩
    obtain ⟨hok, hlen⟩ := htakes s' rfl
    by_cases hnil : s'.args = []
    · refine ⟨some s'.opts, by simp [hnil, pure, Except.pure], ?_⟩
      rintro opts ⟨⟩
      exact hok.strings
    · simpa only [ne_eq, hnil, not_false_eq_true, if_true] using
        ih (hcomes.next hr hnil) hok (by omega)

/-- What the parser comes to it goes on from. -/
theorem vcardEmulOptions_comesTo (hcomes : ComesTo pcsc args s) : s.Ok args
    ∧ ∃ fuel, s.args.length < fuel ∧ vcardEmulOptions pcsc args = parseParams pcsc fuel s := by
  induction hcomes with
  | start => exact ⟨parsing_start_ok args, _, Nat.lt_succ_self _, rfl⟩
  | @next s s' _ hp hne ih =>
    obtain ⟨hok, fuel, hfuel, heq⟩ := ih
    have hclosed : s.Closed pcsc := by
      by_contra hnot
      obtain ⟨e, he⟩ := parseParam_unclosed hok hnot
      rw [he] at hp
      cases hp
    obtain ⟨r, hr, htakes⟩ := parseParam_closed hok hclosed
    obtain rfl : r = some s' := by
      rw [hr] at hp
      exact Except.ok.inj hp
    obtain ⟨hok', hlen⟩ := htakes s' rfl
    obtain ⟨fuel, rfl⟩ : ∃ n, fuel = n + 1 := ⟨fuel - 1, by omega⟩
    refine ⟨hok', fuel, by omega, ?_⟩
    rw [heq]
    simp only [parseParams, hr, bind, Except.bind, ne_eq, hne, not_false_eq_true, if_true]

/-- The parser stays in its input exactly when every `soft=` that it comes to, and that is good up
to its certificates, has a closing parenthesis after them. -/
theorem staysInside_iff (pcsc : Bool) (args : Bytes) :
    StaysInside pcsc args ↔ ∀ s, ComesTo pcsc args s → s.Closed pcsc := by
  refine ⟨?_, fun h => ?_⟩
  · rintro ⟨r, hr, -⟩ s hcomes
    by_contra hnot
    obtain ⟨hok, fuel, hfuel, heq⟩ := vcardEmulOptions_comesTo hcomes
    obtain ⟨e, he⟩ := parseParam_unclosed hok hnot
    obtain ⟨fuel, rfl⟩ : ∃ n, fuel = n + 1 := ⟨fuel - 1, by omega⟩
    rw [heq] at hr
    simp only [parseParams, he, bind, Except.bind] at hr
    cases hr
  · exact parseParams_closed .start (parsing_start_ok args) (Nat.lt_succ_self _) h

/-- `soft=(a,b,CAC,,c`, cut off where its certificate ends. -/
theorem staysInside_cut : ¬StaysInside false
    [0x73, 0x6f, 0x66, 0x74, 0x3d, 0x28, 0x61, 0x2c, 0x62, 0x2c, 0x43, 0x41, 0x43, 0x2c, 0x2c,
      0x63] := by
  rintro ⟨r, hr, -⟩
  have : vcardEmulOptions false [0x73, 0x6f, 0x66, 0x74, 0x3d, 0x28, 0x61, 0x2c, 0x62, 0x2c, 0x43,
    0x41, 0x43, 0x2c, 0x2c, 0x63] = .error .nullPointer := by decide +kernel
  rw [this] at hr
  cases hr

end Loop

end Libcacard
