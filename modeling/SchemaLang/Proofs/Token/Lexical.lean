import Mathlib
import SchemaLang.Proofs.Token.Scan

/-!
# The lexical grammar

What a text is made of, said without cutting it. A segment may stand before the rest of a
text when it is as long as its kind allows there (`Precedes`). Every text has exactly one
division into such segments (`splits_iff`), and scanning gives the tokens of those that have
a meaning, each with the line and column of its first character; the only fault is a quoted
text without end, which is the last segment then (`ofText_splits`).
-/

namespace SchemaLang

/-! ## Lines and columns -/

namespace Position

/-- The place behind so many characters: line feeds tell the line, and what follows the
last of them the column. -/
def behind (before : List Char) : Position :=
  ⟨before.count '\n' + 1, (before.rtakeWhile (· ≠ '\n')).length + 1⟩

theorem behind_concat (before : List Char) (c : Char) :
    behind (before ++ [c]) = (behind before).next c := by
  rw [behind, behind, next, List.count_append, List.rtakeWhile_concat]
  by_cases hc : c = '\n'
  · simp [hc]
  · simp [hc]

theorem advance_start (before : List Char) : start.advance before = behind before := by
  induction before using List.reverseRecOn with
  | nil => rfl
  | append_singleton before c ih =>
    rw [advance_append, ih, behind_concat]
    rfl

theorem behind_advance (before text : List Char) :
    (behind before).advance text = behind (before ++ text) := by
  rw [← advance_start, ← advance_start, advance_append]

end Position

namespace Segment

/-! ## The grammar -/

/-- What stands between the quotes of a text, and what it says: a character stands for
itself, a backslash with the character behind it for what is escaped. -/
inductive Content : List Char → List Char → Prop where
  | nil : Content [] []
  | plain {c : Char} {body content : List Char} (unquoted : c ≠ '\x22') (unescaped : c ≠ '\\')
    (others : Content body content) : Content (c :: body) (c :: content)
  | escape {c : Char} {body content : List Char} (others : Content body content) :
    Content ('\\' :: c :: body) (unescape c :: content)

/-- A segment that may stand before the rest of a text. Words and numbers go as far as they
can, comments to the first end there is; a quoted text without end takes all that is left. -/
inductive Precedes : Segment → List Char → Prop where
  | word {c : Char} {text rest : List Char} (starts : isWordStart c = true)
    (continued : ∀ d ∈ text, isWordChar d = true)
    (maximal : ∀ d ∈ rest.head?, isWordChar d = false) : Precedes (.word (c :: text)) rest
  | number {c : Char} {text rest : List Char} (starts : c.isDigit = true)
    (continued : ∀ d ∈ text, isNumberChar d = true)
    (maximal : ∀ d ∈ rest.head?, isNumberChar d = false) : Precedes (.number (c :: text)) rest
  | quoted {body content : List Char} (closed : Content body content) (rest : List Char) :
    Precedes (.quoted body) rest
  | symbol (s : Symbol) (rest : List Char) : Precedes (.symbol s) rest
  | lineComment {text : List Char} (oneLine : '\n' ∉ text) (rest : List Char) :
    Precedes (.comment ('/' :: '/' :: (text ++ ['\n']))) rest
  | lastLineComment {text : List Char} (oneLine : '\n' ∉ text) :
    Precedes (.comment ('/' :: '/' :: text)) []
  | blockComment {text : List Char} (first : ¬['*', '/'] <:+: text ++ ['*']) (rest : List Char) :
    Precedes (.comment ('/' :: '*' :: (text ++ ['*', '/']))) rest
  | lastBlockComment {text : List Char} (unended : ¬['*', '/'] <:+: text) :
    Precedes (.comment ('/' :: '*' :: text)) []
  | skipped {c : Char} {rest : List Char} (noQuote : c ≠ '\x22') (noWord : isWordStart c = false)
    (noNumber : c.isDigit = false) (noSymbol : ∀ s : Symbol, s.char ≠ c)
    (noComment : c = '/' → ∀ d ∈ rest.head?, d ≠ '/' ∧ d ≠ '*') : Precedes (.skipped c) rest
  | unclosed {body content : List Char} (unended : Content body content) :
    Precedes (.unclosed body) []
  | unclosedEscape {body content : List Char} (unended : Content body content) :
    Precedes (.unclosed (body ++ ['\\'])) []

/-- A division of a text into segments. -/
inductive Splits : List Char → List Segment → Prop where
  | nil : Splits [] []
  | cons {s : Segment} {rest : List Char} {ss : List Segment} (precedes : s.Precedes rest)
    (others : Splits rest ss) : Splits (s.chars ++ rest) (s :: ss)

/-! ## Quoted texts -/

theorem decode_plain {c : Char} (hc : c ≠ '\\') (rest : List Char) :
    decode (c :: rest) = c :: decode rest := by
  rw [decode]
  rintro d tail rfl -
  exact hc rfl

theorem Content.decode_eq {body content : List Char} (h : Content body content) :
    decode body = content := by
  induction h with
  | nil => rfl
  | @plain c body content hq he others ih =>
    rw [decode_plain he, ih]
  | escape others ih => rw [decode, ih]

theorem quotedBody_plain {c : Char} (hquote : c ≠ '\x22') (hescape : c ≠ '\\')
    (rest : List Char) :
    quotedBody (c :: rest) = (c :: (quotedBody rest).1, (quotedBody rest).2) := by
  rw [quotedBody, if_neg hquote]
  rintro d tail rfl -
  exact hescape rfl

theorem content_of_quotedBody {text body after : List Char}
    (h : quotedBody text = (body, some after)) : Content body (decode body) := by
  fun_induction quotedBody text generalizing body after with
  | case1 => cases h
  | case2 c rest inner rest' heq ih =>
    cases h
    exact .escape (ih heq)
  | case3 rest =>
    cases h
    exact .nil
  | case4 c rest hc hq inner rest' heq ih =>
    cases h
    have hne : c ≠ '\\' := by
      rintro rfl
      cases rest with
      | nil => cases heq
      | cons d tail => exact hc d tail rfl rfl
    rw [decode_plain hne]
    exact .plain hq hne (ih heq)

theorem content_of_quotedBody_none {text : List Char} (h : (quotedBody text).2 = none) :
    ∃ body content, Content body content ∧ (text = body ∨ text = body ++ ['\\']) := by
  fun_induction quotedBody text with
  | case1 => exact ⟨[], [], .nil, Or.inl rfl⟩
  | case2 c rest inner rest' heq ih =>
    obtain ⟨body, content, hbody, htext⟩ := ih (by rw [heq]; exact h)
    refine ⟨'\\' :: c :: body, _, .escape hbody, ?_⟩
    rcases htext with rfl | rfl
    · exact Or.inl rfl
    · exact Or.inr rfl
  | case3 rest => cases h
  | case4 c rest hc hq inner rest' heq ih =>
    obtain ⟨body, content, hbody, htext⟩ := ih (by rw [heq]; exact h)
    by_cases hne : c = '\\'
    · -- a backslash that escapes nothing is the last character
      subst hne
      cases rest with
      | nil => exact ⟨[], [], .nil, Or.inr rfl⟩
      | cons d tail => exact absurd rfl (hc d tail rfl)
    · refine ⟨c :: body, _, .plain hq hne hbody, ?_⟩
      rcases htext with rfl | rfl
      · exact Or.inl rfl
      · exact Or.inr rfl

theorem Content.quotedBody_append {body content : List Char} (h : Content body content)
    (rest : List Char) : quotedBody (body ++ '\x22' :: rest) = (body, some rest) := by
  induction h with
  | nil => simp [quotedBody]
  | plain hq he others ih => rw [List.cons_append, quotedBody_plain hq he, ih]
  | escape others ih => rw [List.cons_append, List.cons_append, quotedBody, ih]

theorem Content.quotedBody_eq {body content : List Char} (h : Content body content) :
    quotedBody body = (body, none) := by
  induction h with
  | nil => rfl
  | plain hq he others ih => rw [quotedBody_plain hq he, ih]
  | escape others ih => rw [quotedBody, ih]

theorem Content.quotedBody_escape {body content : List Char} (h : Content body content) :
    quotedBody (body ++ ['\\']) = (body ++ ['\\'], none) := by
  induction h with
  | nil => rfl
  | plain hq he others ih => rw [List.cons_append, quotedBody_plain hq he, ih]
  | escape others ih => rw [List.cons_append, List.cons_append, quotedBody, ih]

/-! ## Comments -/

theorem lineEnd_cases (text : List Char) :
    (∃ body rest, '\n' ∉ body ∧ lineEnd text = (body ++ ['\n'], rest)) ∨
      '\n' ∉ text ∧ lineEnd text = (text, []) := by
  fun_induction lineEnd text with
  | case1 => exact Or.inr ⟨by simp, rfl⟩
  | case2 rest => exact Or.inl ⟨[], rest, by simp, rfl⟩
  | case3 c rest hc inner after heq ih =>
    rcases ih with ⟨body, rest', hbody, hline⟩ | ⟨hrest, hline⟩
    · obtain ⟨rfl, rfl⟩ := Prod.mk.inj (heq.symm.trans hline)
      exact Or.inl ⟨c :: body, after, by simp [hbody, Ne.symm hc], rfl⟩
    · obtain ⟨rfl, rfl⟩ := Prod.mk.inj (heq.symm.trans hline)
      exact Or.inr ⟨by simp [hrest, Ne.symm hc], rfl⟩

theorem lineEnd_append_newline {body : List Char} (h : '\n' ∉ body) (rest : List Char) :
    lineEnd (body ++ '\n' :: rest) = (body ++ ['\n'], rest) := by
  induction body with
  | nil => simp [lineEnd]
  | cons c body ih =>
    rw [List.mem_cons, not_or] at h
    rw [List.cons_append, lineEnd, if_neg (Ne.symm h.1), ih h.2]
    rfl

theorem lineEnd_eq {text : List Char} (h : '\n' ∉ text) : lineEnd text = (text, []) := by
  induction text with
  | nil => rfl
  | cons c rest ih =>
    rw [List.mem_cons, not_or] at h
    rw [lineEnd, if_neg (Ne.symm h.1), ih h.2]

theorem not_infix_cons {c : Char} {rest : List Char} :
    ¬['*', '/'] <:+: c :: rest ↔
      (c = '*' → rest.head? ≠ some '/') ∧ ¬['*', '/'] <:+: rest := by
  have hprefix : ['*', '/'] <+: c :: rest ↔ c = '*' ∧ rest.head? = some '/' := by
    rw [List.cons_prefix_cons, eq_comm]
    cases rest <;> simp [eq_comm]
  rw [List.infix_cons_iff, hprefix, not_or, not_and]

theorem blockEnd_cons {c : Char} {rest : List Char} (h : c = '*' → rest.head? ≠ some '/') :
    blockEnd (c :: rest) = (c :: (blockEnd rest).1, (blockEnd rest).2) := by
  rw [blockEnd]
  rintro after rfl rfl
  exact h rfl rfl

theorem blockEnd_cases (text : List Char) :
    (∃ body rest, ¬['*', '/'] <:+: body ++ ['*'] ∧ blockEnd text = (body ++ ['*', '/'], rest)) ∨
      ¬['*', '/'] <:+: text ∧ blockEnd text = (text, []) := by
  fun_induction blockEnd text with
  | case1 => exact Or.inr ⟨by simp, rfl⟩
  | case2 rest => exact Or.inl ⟨[], rest, by decide, rfl⟩
  | case3 c rest hc inner after heq ih =>
    have hhead : c = '*' → rest.head? ≠ some '/' := by
      rintro rfl hslash
      obtain ⟨tail, rfl⟩ := List.head?_eq_some_iff.mp hslash
      exact hc tail rfl rfl
    rcases ih with ⟨body, rest', hbody, hblock⟩ | ⟨hrest, hblock⟩
    · obtain ⟨rfl, rfl⟩ := Prod.mk.inj (heq.symm.trans hblock)
      refine Or.inl ⟨c :: body, after, ?_, rfl⟩
      rw [List.cons_append, not_infix_cons]
      refine ⟨fun hstar hslash => hhead hstar ?_, hbody⟩
      rw [← blockEnd_append rest, hblock]
      cases body with
      | nil => cases hslash
      | cons d tail => exact hslash
    · obtain ⟨rfl, rfl⟩ := Prod.mk.inj (heq.symm.trans hblock)
      exact Or.inr ⟨not_infix_cons.mpr ⟨hhead, hrest⟩, rfl⟩

theorem blockEnd_append_end {body : List Char} (h : ¬['*', '/'] <:+: body ++ ['*'])
    (rest : List Char) :
    blockEnd (body ++ '*' :: '/' :: rest) = (body ++ ['*', '/'], rest) := by
  induction body with
  | nil => rfl
  | cons c body ih =>
    rw [List.cons_append, not_infix_cons] at h
    rw [List.cons_append, blockEnd_cons, ih h.2]
    · rfl
    · cases body with
      | nil => simp
      | cons d tail => exact h.1

theorem blockEnd_eq {text : List Char} (h : ¬['*', '/'] <:+: text) :
    blockEnd text = (text, []) := by
  induction text with
  | nil => rfl
  | cons c rest ih =>
    rw [not_infix_cons] at h
    rw [blockEnd_cons h.1, ih h.2]

/-! ## Cutting keeps to the grammar -/

theorem head?_dropWhile_eq_false {p : Char → Bool} {text : List Char} :
    ∀ d ∈ (text.dropWhile p).head?, p d = false := by
  intro d hd
  have hstop := List.head?_dropWhile_not p text
  rw [hd] at hstop
  simpa using hstop

/-- What is cut off may stand before what is left. -/
theorem precedes_cut (c : Char) (rest : List Char) : (cut c rest).1.Precedes (cut c rest).2 := by
  unfold cut
  split
  · next hq =>
    split
    · next heq => exact .quoted (content_of_quotedBody heq) _
    · next body heq =>
      obtain ⟨inner, content, hinner, htext⟩ := content_of_quotedBody_none (congrArg Prod.snd heq)
      obtain rfl := quotedBody_unclosed heq
      rcases htext with rfl | rfl
      · exact .unclosed hinner
      · exact .unclosedEscape hinner
  · next hq =>
    split
    · next hw =>
      exact .word hw (fun d hd => List.mem_takeWhile_imp hd) head?_dropWhile_eq_false
    · next hw =>
      split
      · next hn =>
        exact .number hn (fun d hd => List.mem_takeWhile_imp hd) head?_dropWhile_eq_false
      · next hn =>
        split
        · next inner =>
          rcases lineEnd_cases inner with ⟨body, after, hbody, hline⟩ | ⟨hinner, hline⟩
          · rw [hline]
            exact .lineComment hbody after
          · rw [hline]
            exact .lastLineComment hinner
        · next inner =>
          rcases blockEnd_cases inner with ⟨body, after, hbody, hblock⟩ | ⟨hinner, hblock⟩
          · rw [hblock]
            exact .blockComment hbody after
          · rw [hblock]
            exact .lastBlockComment hinner
        · next c rest hline hblock =>
          split
          · exact .symbol _ _
          · next hs =>
            refine .skipped hq (by simpa using hw) (by simpa using hn) ?_ ?_
            · rintro s rfl
              rw [Symbol.ofChar?_char] at hs
              cases hs
            · rintro rfl d hd
              obtain ⟨tail, rfl⟩ := List.head?_eq_some_iff.mp hd
              constructor
              · rintro rfl
                exact hline tail rfl rfl
              · rintro rfl
                exact hblock tail rfl rfl

theorem takeWhile_append_of_maximal {p : Char → Bool} {text rest : List Char}
    (htext : ∀ d ∈ text, p d = true) (hrest : ∀ d ∈ rest.head?, p d = false) :
    (text ++ rest).takeWhile p = text ∧ (text ++ rest).dropWhile p = rest := by
  rw [List.takeWhile_append_of_pos htext, List.dropWhile_append_of_pos htext]
  cases rest with
  | nil => simp
  | cons d tail => simp [hrest d rfl]

theorem isWordStart_of_isDigit {c : Char} (h : c.isDigit = true) : isWordStart c = false := by
  have hne : c ≠ '_' := by
    rintro rfl
    cases h
  simp only [Char.isDigit, Bool.and_eq_true, decide_eq_true_eq, ge_iff_le,
    UInt32.le_iff_toNat_le] at h
  simp only [isWordStart, Char.isAlpha, Char.isUpper, Char.isLower, hne, decide_false,
    Bool.or_false, Bool.or_eq_false_iff, Bool.and_eq_false_iff, decide_eq_false_iff_not,
    ge_iff_le, UInt32.le_iff_toNat_le]
  change 48 ≤ c.val.toNat ∧ c.val.toNat ≤ 57 at h
  change ¬(65 ≤ c.val.toNat ∧ c.val.toNat ≤ 90) ∧ (¬97 ≤ c.val.toNat ∨ ¬c.val.toNat ≤ 122)
  omega

theorem cut_quote (rest : List Char) :
    cut '\x22' rest = match quotedBody rest with
      | (body, some after) => (quoted body, after)
      | (body, none) => (unclosed body, []) := rfl

theorem cut_word {c : Char} (h : isWordStart c = true) (rest : List Char) :
    cut c rest = (word (c :: rest.takeWhile isWordChar), rest.dropWhile isWordChar) := by
  have hquote : c ≠ '\x22' := by
    rintro rfl
    revert h
    decide
  unfold cut
  rw [if_neg hquote, if_pos h]

theorem cut_number {c : Char} (h : c.isDigit = true) (rest : List Char) :
    cut c rest =
      (number (c :: rest.takeWhile isNumberChar), rest.dropWhile isNumberChar) := by
  have hquote : c ≠ '\x22' := by
    rintro rfl
    cases h
  unfold cut
  rw [if_neg hquote, if_neg (by simp [isWordStart_of_isDigit h]), if_pos h]

theorem cut_symbol (s : Symbol) (rest : List Char) : cut s.char rest = (symbol s, rest) := by
  cases s <;> rfl

theorem cut_lineComment (inner : List Char) :
    cut '/' ('/' :: inner) =
      (comment ('/' :: '/' :: (lineEnd inner).1), (lineEnd inner).2) := rfl

theorem cut_blockComment (inner : List Char) :
    cut '/' ('*' :: inner) =
      (comment ('/' :: '*' :: (blockEnd inner).1), (blockEnd inner).2) := rfl

theorem cut_skipped {c : Char} {rest : List Char} (hquote : c ≠ '\x22')
    (hword : isWordStart c = false) (hnumber : c.isDigit = false)
    (hsymbol : ∀ s : Symbol, s.char ≠ c)
    (hcomment : c = '/' → ∀ d ∈ rest.head?, d ≠ '/' ∧ d ≠ '*') :
    cut c rest = (skipped c, rest) := by
  have hnone : Symbol.ofChar? c = none := by
    cases hs : Symbol.ofChar? c with
    | none => rfl
    | some s => exact absurd (Symbol.char_of_ofChar? hs) (hsymbol s)
  unfold cut
  rw [if_neg hquote, if_neg (by simp [hword]), if_neg (by simp [hnumber])]
  split
  · exact absurd rfl (hcomment rfl '/' rfl).1
  · exact absurd rfl (hcomment rfl '*' rfl).2
  · rw [hnone]

/-- Where a segment may stand, it is what is cut off. -/
theorem Precedes.cut_eq {s : Segment} {rest : List Char} (h : s.Precedes rest) :
    ∃ c tail, s.chars ++ rest = c :: tail ∧ cut c tail = (s, rest) := by
  cases h with
  | @word c text rest hstart htext hrest =>
    obtain ⟨htake, hdrop⟩ := takeWhile_append_of_maximal htext hrest
    exact ⟨c, text ++ rest, rfl, by rw [cut_word hstart, htake, hdrop]⟩
  | @number c text rest hstart htext hrest =>
    obtain ⟨htake, hdrop⟩ := takeWhile_append_of_maximal htext hrest
    exact ⟨c, text ++ rest, rfl, by rw [cut_number hstart, htake, hdrop]⟩
  | @quoted body content hbody =>
    exact ⟨'\x22', body ++ '\x22' :: rest, by simp [chars],
      by rw [cut_quote, hbody.quotedBody_append]⟩
  | symbol s => exact ⟨s.char, rest, rfl, cut_symbol s rest⟩
  | @lineComment text hline =>
    exact ⟨'/', '/' :: (text ++ '\n' :: rest), by simp [chars],
      by rw [cut_lineComment, lineEnd_append_newline hline]⟩
  | @lastLineComment text hline =>
    exact ⟨'/', '/' :: text, by simp [chars], by rw [cut_lineComment, lineEnd_eq hline]⟩
  | @blockComment text hfirst =>
    exact ⟨'/', '*' :: (text ++ '*' :: '/' :: rest), by simp [chars],
      by rw [cut_blockComment, blockEnd_append_end hfirst]⟩
  | @lastBlockComment text hunended =>
    exact ⟨'/', '*' :: text, by simp [chars], by rw [cut_blockComment, blockEnd_eq hunended]⟩
  | @skipped c rest hquote hword hnumber hsymbol hcomment =>
    exact ⟨c, rest, rfl, cut_skipped hquote hword hnumber hsymbol hcomment⟩
  | @unclosed body content hbody =>
    exact ⟨'\x22', body, by simp [chars], by rw [cut_quote, hbody.quotedBody_eq]⟩
  | @unclosedEscape body content hbody =>
    exact ⟨'\x22', body ++ ['\\'], by simp [chars],
      by rw [cut_quote, hbody.quotedBody_escape]⟩

theorem splits_segments (text : List Char) : Splits text (segments text) := by
  fun_induction segments text with
  | case1 => exact .nil
  | case2 c rest ih =>
    rw [← chars_cut c rest]
    exact .cons (precedes_cut c rest) ih

/-- A text has one division into segments. -/
theorem splits_iff {text : List Char} {ss : List Segment} :
    Splits text ss ↔ ss = segments text := by
  constructor
  · intro h
    induction h with
    | nil => rw [segments]
    | @cons s rest ss hs _ ih =>
      obtain ⟨c, tail, htext, hcut⟩ := hs.cut_eq
      rw [htext, segments, hcut, ih]
  · rintro rfl
    exact splits_segments text

/-- The star that opens a block comment is not the one that ends it. -/
example : segments "/*/ x".toList = [.comment "/*/ x".toList] := by cbv

end Segment

/-! ## Tokens -/

/-- The kind of a word: the reserved word that it spells in some letter case, a truth
value, or a name. -/
inductive Token.Classifies (word : List Char) : Token.Kind → Prop where
  | keyword {k : Keyword} (spelled : word.map Char.toLower = k.name.toList) :
    Classifies word (.keyword k)
  | boolean (spelled : word.map Char.toLower = "true".toList ∨
    word.map Char.toLower = "false".toList) : Classifies word .boolean
  | identifier (unreserved : ∀ k : Keyword, word.map Char.toLower ≠ k.name.toList)
    (untrue : word.map Char.toLower ≠ "true".toList)
    (unfalse : word.map Char.toLower ≠ "false".toList) : Classifies word .identifier

namespace Keyword

theorem mem_all (k : Keyword) : k ∈ all := by
  cases k with
  | declare kind => cases kind <;> decide
  | importFile => decide
  | visibility v => cases v <;> decide

theorem lowerCase_ofList (word : List Char) :
    lowerCase (String.ofList word) = String.ofList (word.map Char.toLower) := by
  rw [lowerCase, String.toList_ofList]

end Keyword

theorem Token.classifies_ofWord (word : List Char) :
    Classifies word (Token.Kind.ofWord (String.ofList word)) := by
  have hspelled (name : String) : Keyword.lowerCase (String.ofList word) = name ↔
      word.map Char.toLower = name.toList := by
    rw [Keyword.lowerCase_ofList, String.ext_iff, String.toList_ofList]
  unfold Token.Kind.ofWord
  cases hk : Keyword.ofWord? (String.ofList word) with
  | some k =>
    have hname : k.name = Keyword.lowerCase (String.ofList word) := by
      simpa using List.find?_some hk
    exact .keyword ((hspelled _).mp hname.symm)
  | none =>
    have hfree : ∀ k : Keyword, k.name ≠ Keyword.lowerCase (String.ofList word) := by
      intro k
      simpa using List.find?_eq_none.mp hk k (Keyword.mem_all k)
    dsimp only
    split
    · next h =>
      rw [hspelled, hspelled] at h
      exact .boolean h
    · next h =>
      rw [hspelled, hspelled, not_or] at h
      exact .identifier (fun k hlower => hfree k ((hspelled _).mpr hlower).symm) h.1 h.2

namespace Segment

/-- The token that a segment is when it starts at a place. -/
inductive Means (p : Position) : Segment → Token → Prop where
  | word {text : List Char} {kind : Token.Kind} (classified : Token.Classifies text kind) :
    Means p (.word text) ⟨kind, String.ofList text, p.line, p.offset⟩
  | number (text : List Char) :
    Means p (.number text) ⟨.number, String.ofList text, p.line, p.offset⟩
  | quoted {body content : List Char} (closed : Content body content) :
    Means p (.quoted body) ⟨.string, String.ofList content, p.line, p.offset⟩
  | symbol (s : Symbol) :
    Means p (.symbol s) ⟨.symbol s, String.ofList [s.char], p.line, p.offset⟩

/-- A segment without a meaning. -/
inductive Silent : Segment → Prop where
  | comment (text : List Char) : Silent (.comment text)
  | skipped (c : Char) : Silent (.skipped c)
  | unclosed (body : List Char) : Silent (.unclosed body)

/-- The tokens of segments that stand behind so many characters, and the end of the input. -/
inductive Emits : List Char → List Segment → List Token → Prop where
  | finish {before : List Char} {p : Position} (ends : p = .behind before) :
    Emits before [] [⟨.endOfInput, "", p.line, p.offset⟩]
  | token {before : List Char} {s : Segment} {ss : List Segment} {t : Token} {ts : List Token}
    (means : s.Means (.behind before) t) (others : Emits (before ++ s.chars) ss ts) :
    Emits before (s :: ss) (t :: ts)
  | silent {before : List Char} {s : Segment} {ss : List Segment} {ts : List Token}
    (silent : s.Silent) (others : Emits (before ++ s.chars) ss ts) : Emits before (s :: ss) ts

theorem token?_cases {s : Segment} {rest : List Char} (h : s.Precedes rest) (p : Position) :
    (∃ t, s.token? p = some t ∧ s.Means p t) ∨ s.token? p = none ∧ s.Silent := by
  cases s with
  | word text => exact Or.inl ⟨_, rfl, .word (Token.classifies_ofWord text)⟩
  | number text => exact Or.inl ⟨_, rfl, .number text⟩
  | quoted body =>
    cases h with
    | quoted hbody =>
      refine Or.inl ⟨_, rfl, ?_⟩
      rw [hbody.decode_eq]
      exact .quoted hbody
  | symbol s => exact Or.inl ⟨_, rfl, .symbol s⟩
  | comment text => exact Or.inr ⟨rfl, .comment text⟩
  | skipped c => exact Or.inr ⟨rfl, .skipped c⟩
  | unclosed body => exact Or.inr ⟨rfl, .unclosed body⟩

/-- The tokens of placed segments are those that the segments mean, in order. -/
theorem Splits.emits {text : List Char} {ss : List Segment} (h : Splits text ss)
    (before : List Char) :
    Emits before ss ((place (.behind before) ss).filterMap (fun s => s.2.token? s.1) ++
      [.ofPosition .endOfInput "" (.behind (before ++ text))]) := by
  induction h generalizing before with
  | nil =>
    rw [List.append_nil]
    exact .finish rfl
  | @cons s rest ss hs _ ih =>
    have hrest := ih (before ++ s.chars)
    rw [List.append_assoc] at hrest
    rw [place, Position.behind_advance, List.filterMap_cons]
    rcases token?_cases hs (.behind before) with ⟨t, ht, hmeans⟩ | ⟨hnone, hsilent⟩
    · rw [ht]
      exact .token hmeans hrest
    · rw [hnone]
      exact .silent hsilent hrest

theorem place_append (p : Position) (xs ys : List Segment) :
    place p (xs ++ ys) = place p xs ++ place (p.advance (xs.flatMap chars)) ys := by
  induction xs generalizing p with
  | nil => rfl
  | cons s rest ih =>
    rw [List.cons_append, place, ih, List.flatMap_cons, Position.advance_append]
    rfl

/-- Only the last segment can be unclosed. -/
theorem Splits.closed_init {text : List Char} {init : List Segment} {last : Segment}
    (h : Splits text (init ++ [last])) : ∀ s ∈ init, s.isUnclosed = false := by
  induction init generalizing text with
  | nil => simp
  | cons s rest ih =>
    cases h with
    | @cons _ after _ hs hrest =>
      refine List.forall_mem_cons.mpr ⟨?_, ih hrest⟩
      have hafter : after ≠ [] := by
        rintro rfl
        have hnone := splits_iff.mp hrest
        rw [segments] at hnone
        simp at hnone
      cases hs with
      | unclosed => exact absurd rfl hafter
      | unclosedEscape => exact absurd rfl hafter
      | _ => rfl

theorem filter_place_of_closed {ss : List Segment} (h : ∀ s ∈ ss, s.isUnclosed = false)
    (p : Position) : (place p ss).filter (·.2.isUnclosed) = [] := by
  rw [List.filter_eq_nil_iff]
  rintro ⟨q, s⟩ hs
  rw [h s (mem_of_mem_place hs)]
  simp

end Segment

namespace Scan

/-- The last segment alone decides what is wrong. -/
theorem errors_of_splits {source : String} (path : Option String) {init : List Segment}
    {last : Segment} (h : Segment.Splits source.toList (init ++ [last])) :
    (ofText source path).errors =
      if last.isUnclosed then
        [unterminatedString path (.behind (init.flatMap Segment.chars))]
      else [] := by
  have hplace : Segment.place .start (Segment.segments source.toList) =
      Segment.place .start init ++ [(.behind (init.flatMap Segment.chars), last)] := by
    rw [← Segment.splits_iff.mp h, Segment.place_append, Position.advance_start]
    rfl
  simp only [ofText, hplace, List.filter_append,
    Segment.filter_place_of_closed h.closed_init, List.nil_append]
  cases hlast : last.isUnclosed <;> simp [hlast]

/-- A text has one division into segments, and the tokens are those of its segments. Nothing
is wrong unless the last segment is a quoted text without end, which is reported where it
begins. -/
theorem ofText_splits (source : String) (path : Option String) :
    ∃ ss, (∀ ss', Segment.Splits source.toList ss' ↔ ss' = ss) ∧
      ss.flatMap Segment.chars = source.toList ∧
      Segment.Emits [] ss (ofText source path).tokens ∧
      ((ofText source path).ok = false ↔ ∃ init body, ss = init ++ [.unclosed body]) ∧
      ∀ init body, ss = init ++ [.unclosed body] →
        (ofText source path).errors = [⟨.unterminatedString, "string not terminated",
          (Position.behind (init.flatMap Segment.chars)).line,
          (Position.behind (init.flatMap Segment.chars)).offset, path⟩] := by
  have hsplits : Segment.Splits source.toList (Segment.segments source.toList) :=
    Segment.splits_iff.mpr rfl
  refine ⟨Segment.segments source.toList, fun _ => Segment.splits_iff,
    Segment.chars_segments source.toList, ?_, ?_, ?_⟩
  · have hemits := hsplits.emits []
    rwa [List.nil_append, ← Position.advance_start source.toList] at hemits
  · rcases List.eq_nil_or_concat (Segment.segments source.toList) with hnil | ⟨init, last, hss⟩
    · simp [ok, ofText, hnil, Segment.place]
    · rw [List.concat_eq_append] at hss
      rw [hss] at hsplits ⊢
      rw [ok, errors_of_splits path hsplits]
      cases last <;> simp [Segment.isUnclosed]
  · intro init body hss
    rw [hss] at hsplits
    rw [errors_of_splits path hsplits]
    rfl

end Scan
end SchemaLang
