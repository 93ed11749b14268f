import Proctor.Proofs.Filter.Separator

/-! # One scan of a filter text

A scan that goes once through a filter text tells apart plain characters, escaped ones and
operators. What it sees does not depend on where it starts: a part of a well escaped text that
begins and ends between two marks is scanned as the same marks when it is cut out. Cutting at
separators, cutting at operators and taking escapes away are all read off the marks. -/

namespace Proctor.Filter
open Proctor.Text

/-- What the scan tells apart. -/
inductive Mark
  | bare (c : Char)
  /-- A character behind the backslash that takes it. -/
  | escaped (c : Char)
  | operator (op : Operation)
  deriving Repr, DecidableEq

namespace Mark

/-- How the mark is written. -/
def spelling : Mark → List Char
  | bare c => [c]
  | escaped c => ['\\', c]
  | operator op => op.symbol

/-- What the mark stands for. -/
def text : Mark → List Char
  | bare c | escaped c => [c]
  | operator op => op.symbol

def separator? : Mark → Option Token
  | bare c => Token.ofSeparator? c
  | escaped _ | operator _ => none

def isSeparator (m : Mark) : Bool := m.separator?.isSome

def isOperator : Mark → Bool
  | operator _ => true
  | bare _ | escaped _ => false

/-- Each backslash stands in front of a special character. -/
def Proper : Mark → Prop
  | bare c => c ≠ '\\'
  | escaped c => isSpecial c
  | operator _ => True

instance : DecidablePred Proper
  | bare c => inferInstanceAs (Decidable (c ≠ '\\'))
  | escaped c => inferInstanceAs (Decidable (isSpecial c))
  | operator _ => inferInstanceAs (Decidable True)

end Mark

/-- The marks of a text. A backslash takes the next character with it, whichever it is, and of `!=`
and `=` the longer operator is seen. -/
def marks : List Char → List Mark
  | [] => []
  | '\\' :: c :: rest => .escaped c :: marks rest
  | '!' :: '=' :: rest => .operator .notEqual :: marks rest
  | '!' :: '~' :: rest => .operator .notContains :: marks rest
  | '=' :: rest => .operator .equal :: marks rest
  | '~' :: rest => .operator .contains :: marks rest
  | c :: rest => .bare c :: marks rest

/-- Marks as they are written. -/
def spell (ms : List Mark) : List Char := ms.flatMap Mark.spelling

/-- What marks stand for. -/
def meaning (ms : List Mark) : List Char := ms.flatMap Mark.text

variable {s t : List Char} {ms ns : List Mark} {c : Char}

@[simp] theorem spell_cons (m : Mark) (ms : List Mark) : spell (m :: ms) = m.spelling ++ spell ms :=
  rfl

@[simp] theorem spell_append (ms ns : List Mark) : spell (ms ++ ns) = spell ms ++ spell ns :=
  List.flatMap_append

@[simp] theorem meaning_cons (m : Mark) (ms : List Mark) :
    meaning (m :: ms) = m.text ++ meaning ms := rfl

@[simp] theorem meaning_append (ms ns : List Mark) :
    meaning (ms ++ ns) = meaning ms ++ meaning ns := List.flatMap_append

@[simp] theorem meaning_map_bare (s : List Char) : meaning (s.map .bare) = s := by
  induction s with
  | nil => rfl
  | cons c s ih => exact congrArg (c :: ·) ih

/-- The text is all that was scanned. -/
@[simp] theorem spell_marks (s : List Char) : spell (marks s) = s := by
  fun_induction marks s with
  | case1 => rfl
  | case2 c s ih | case3 s ih | case4 s ih | case5 s ih | case6 s ih | case7 c s _ _ _ _ _ ih =>
    simp [ih, Mark.spelling, Operation.symbol]

example : marks "A\\=!!=".toList =
    [.bare 'A', .escaped '=', .bare '!', .operator .notEqual] := rfl

/-- A plain character is a mark by itself. -/
theorem Plain.marks_cons (h : Plain c s) : marks (c :: s) = .bare c :: marks s := by
  rw [marks]
  · exact h.not_pair
  · exact h.not_equal
  · exact h.not_tilde
  · exact h.ne_equal
  · exact h.ne_tilde

theorem marks_symbol_append (op : Operation) (s : List Char) :
    marks (op.symbol ++ s) = .operator op :: marks s := by
  cases op <;> simp [Operation.symbol, marks]

theorem marks_blank_append {p : List Char} (hp : allBlank p) (s : List Char) :
    marks (p ++ s) = p.map .bare ++ marks s := by
  induction p with
  | nil => rfl
  | cons c p ih =>
    obtain ⟨hc, hp⟩ := allBlank_cons.1 hp
    rw [List.cons_append, (Plain.of_blank hc _).marks_cons, ih hp]
    rfl

theorem marks_of_blank {p : List Char} (hp : allBlank p) : marks p = p.map .bare := by
  simpa [marks] using marks_blank_append hp []

/-! ### Scanning a part anew -/

/-- Marks that a scan finds again when they are written out. -/
inductive Scanned : List Mark → Prop
  | nil : Scanned []
  | bare {c : Char} {ms : List Mark} (hc : c ≠ '\\') (hplain : Plain c (spell ms))
      (rest : Scanned ms) : Scanned (.bare c :: ms)
  | escaped {c : Char} {ms : List Mark} (hc : isSpecial c) (rest : Scanned ms) :
      Scanned (.escaped c :: ms)
  | operator {op : Operation} {ms : List Mark} (rest : Scanned ms) : Scanned (.operator op :: ms)

theorem scanned_marks (hs : WellEscaped s) : Scanned (marks s) := by
  fun_induction marks s with
  | case1 => exact .nil
  | case2 c s ih => exact .escaped hs.of_pair.1 (ih hs.of_pair.2)
  | case3 s ih | case4 s ih => exact .operator (ih ((hs.of_cons (by decide)).of_cons (by decide)))
  | case5 s ih | case6 s ih => exact .operator (ih (hs.of_cons (by decide)))
  | case7 c s hpair hequal htilde he ht ih =>
    have hplain := Plain.of_last hpair hequal htilde he ht
    have hb := hplain.ne_backslash hs
    exact .bare hb (by rwa [spell_marks]) (ih (hs.of_cons hb))

namespace Scanned

theorem proper (h : Scanned ms) : ∀ m ∈ ms, m.Proper := by
  induction h with
  | nil => simp
  | bare hc _ _ ih => exact List.forall_mem_cons.2 ⟨hc, ih⟩
  | escaped hc _ ih => exact List.forall_mem_cons.2 ⟨hc, ih⟩
  | operator _ ih => exact List.forall_mem_cons.2 ⟨trivial, ih⟩

/-- Behind such marks the scan begins anew, unless a `!` at their end could be a part of an
operator. -/
theorem marks_spell_append (h : Scanned ms) (ht : ∀ d ∈ t.head?, d ≠ '=' ∧ d ≠ '~') :
    marks (spell ms ++ t) = ms ++ marks t := by
  induction h with
  | nil => rfl
  | bare hc hplain _ ih =>
    have hnext := (hplain.append hc ht).marks_cons
    rw [ih] at hnext
    exact hnext
  | escaped _ _ ih => exact congrArg (Mark.escaped _ :: ·) ih
  | @operator op ms _ ih =>
    rw [spell_cons, List.append_assoc]
    exact (marks_symbol_append op _).trans (congrArg _ ih)

theorem marks_spell (h : Scanned ms) : marks (spell ms) = ms := by
  simpa [marks] using h.marks_spell_append (t := []) (by simp)

/-- Taking the escapes away leaves what the marks stand for. -/
theorem unescape_spell (h : Scanned ms) : unescape (spell ms) = some (meaning ms) := by
  induction h with
  | nil => rfl
  | bare hc _ _ ih => simp [Mark.spelling, Mark.text, unescape_cons hc, ih]
  | escaped hc _ ih => simp [Mark.spelling, Mark.text, unescape, hc, ih]
  | @operator op ms _ ih =>
    cases op <;> simp [Mark.spelling, Mark.text, Operation.symbol, unescape_cons, ih]

theorem wellEscaped (h : Scanned (marks s)) : WellEscaped s := by
  have hplain := h.unescape_spell
  rw [spell_marks] at hplain
  exact unescape_isSome_iff.1 (by simp [hplain])

theorem of_append (h : Scanned (ms ++ ns)) : Scanned ms ∧ Scanned ns := by
  induction ms with
  | nil => exact ⟨.nil, h⟩
  | cons m ms ih =>
    cases h with
    | bare hc hplain rest =>
      obtain ⟨hms, hns⟩ := ih rest
      have hprefix : spell ms <+: spell (ms ++ ns) := by simp
      exact ⟨.bare hc (hplain.of_isPrefix hprefix) hms, hns⟩
    | escaped hc rest => exact ⟨.escaped hc (ih rest).1, (ih rest).2⟩
    | operator rest => exact ⟨.operator (ih rest).1, (ih rest).2⟩

end Scanned

theorem unescape_eq_meaning (hs : WellEscaped s) : unescape s = some (meaning (marks s)) := by
  simpa using (scanned_marks hs).unescape_spell

theorem marks_append (hs : WellEscaped s) (ht : ∀ d ∈ t.head?, d ≠ '=' ∧ d ≠ '~') :
    marks (s ++ t) = marks s ++ marks t := by
  simpa using (scanned_marks hs).marks_spell_append ht

/-- A blank is no part of an operator. -/
theorem marks_append_blank_cons {x : Char} (hs : WellEscaped s) (hx : isBlank x) (t : List Char) :
    marks (s ++ x :: t) = marks s ++ .bare x :: marks t := by
  have hhead : ∀ d ∈ (x :: t).head?, d ≠ '=' ∧ d ≠ '~' := by
    intro d hd
    obtain rfl := Option.some.inj hd
    exact ne_operator_of_isBlank hx
  rw [marks_append hs hhead, (Plain.of_blank hx t).marks_cons]

/-- The marks of a text with blanks around it at will. -/
def Around (s : List Char) (ms : List Mark) : Prop :=
  ∃ p q, allBlank p ∧ allBlank q ∧ ms = p.map .bare ++ marks s ++ q.map .bare

/-- Trimming takes marks of blanks away and leaves the others as they are. -/
theorem around_trim (hs : WellEscaped s) : Around (trim s) (marks s) := by
  obtain ⟨p, q, hp, hq, he⟩ := exists_trim s
  have htrim := WellEscaped.trim_iff.2 hs
  refine ⟨p, q, hp, hq, ?_⟩
  have hend : marks (trim s ++ q) = marks (trim s) ++ q.map .bare := by
    cases q with
    | nil => simp
    | cons x q =>
      obtain ⟨hx, hq⟩ := allBlank_cons.1 hq
      rw [marks_append_blank_cons htrim hx, marks_of_blank hq]
      rfl
  calc marks s = marks (p ++ trim s ++ q) := congrArg marks he
    _ = p.map .bare ++ marks (trim s) ++ q.map .bare := by
      rw [List.append_assoc, marks_blank_append hp, hend, List.append_assoc]

/-! ### Cutting at separators -/

namespace Token.Cut

theorem head_isPrefix (s : List Char) : (ofText s).head <+: s := by
  fun_induction ofText s with
  | case1 => exact List.prefix_rfl
  | case2 c s ih => exact (List.prefix_append_right_inj ['\\', c]).2 ih
  | case3 => exact List.nil_prefix
  | case4 c s _ _ ih => exact (List.prefix_append_right_inj [c]).2 ih

/-- A character of an operator is no separator, wherever the operator begins. -/
theorem ofText_symbol_append (op : Operation) (s : List Char) :
    ofText (op.symbol ++ s) = (ofText s).prepend op.symbol := by
  cases op <;> simp [Operation.symbol, ofText, Token.ofSeparator?, prepend]

/-- The texts between separators. -/
def texts (cut : Cut) : List (List Char) := cut.head :: cut.tail.map Prod.snd

/-- What is cut between separators is what lies between their marks. -/
structure Agrees (cut : Cut) (ms : List Mark) : Prop where
  separators : ms.filterMap Mark.separator? = cut.tail.map Prod.fst
  split : ms.splitOnP Mark.isSeparator = cut.texts.map marks
  texts : ∀ s ∈ cut.texts, ∀ m ∈ marks s, ¬ m.isSeparator

theorem Agrees.prepend {cut : Cut} {m : Mark} (h : cut.Agrees ms) (hm : m.separator? = none)
    (hhead : marks (s ++ cut.head) = m :: marks cut.head) :
    (cut.prepend s).Agrees (m :: ms) := by
  have hplain : ¬ m.isSeparator := by simp [Mark.isSeparator, hm]
  obtain ⟨hfirst, hothers⟩ := List.forall_mem_cons.1 h.texts
  refine ⟨(List.filterMap_cons_none hm).trans h.separators, ?_, ?_⟩
  · rw [List.splitOnP_cons_eq_if_modifyHead, if_neg hplain, h.split]
    exact congrArg (· :: _) hhead.symm
  · refine List.forall_mem_cons.2 ⟨?_, hothers⟩
    rw [Cut.prepend, hhead]
    exact List.forall_mem_cons.2 ⟨hplain, hfirst⟩

theorem Agrees.behind {cut : Cut} {m : Mark} {separator : Token} (h : cut.Agrees ms)
    (hm : m.separator? = some separator) :
    Agrees ⟨[], (separator, cut.head) :: cut.tail⟩ (m :: ms) := by
  have hseparator : m.isSeparator := by simp [Mark.isSeparator, hm]
  refine ⟨?_, ?_, List.forall_mem_cons.2 ⟨by simp [marks], h.texts⟩⟩
  · rw [List.filterMap_cons_some hm, h.separators]
    rfl
  · rw [List.splitOnP_cons_eq_if_modifyHead, if_pos hseparator, h.split]
    rfl

theorem agrees_marks (s : List Char) : (ofText s).Agrees (marks s) := by
  have hoperator (op : Operation) {s : List Char} (ih : (ofText s).Agrees (marks s)) :
      (ofText (op.symbol ++ s)).Agrees (.operator op :: marks s) := by
    rw [ofText_symbol_append]
    exact ih.prepend rfl (marks_symbol_append op _)
  fun_induction marks s with
  | case1 => exact ⟨rfl, rfl, by simp [texts, ofText, marks]⟩
  | case2 c s ih => exact ih.prepend rfl rfl
  | case3 s ih => exact hoperator .notEqual ih
  | case4 s ih => exact hoperator .notContains ih
  | case5 s ih => exact hoperator .equal ih
  | case6 s ih => exact hoperator .contains ih
  | case7 c s hpair hequal htilde he ht ih =>
    have hplain := Plain.of_last hpair hequal htilde he ht
    rw [ofText.eq_3 c s hpair]
    cases hc : ofSeparator? c with
    | some separator => exact ih.behind hc
    | none => exact ih.prepend hc (hplain.of_isPrefix (head_isPrefix s)).marks_cons

end Token.Cut

theorem filterMap_separator? (s : List Char) :
    (marks s).filterMap Mark.separator? = separators s :=
  (Token.Cut.agrees_marks s).separators.trans (Token.Cut.separators_eq s)

/-! ### Cutting at operators -/

namespace Cut

/-- The marks of a text that has been cut at operators. -/
def marked (front : List Char) (tail : List (Operation × List Char)) : List Mark :=
  marks front ++ tail.flatMap fun piece => .operator piece.1 :: marks piece.2

theorem head_isPrefix (s : List Char) : (ofText s).head <+: s :=
  ⟨_, join_ofText s⟩

/-- What is cut at operators is what lies between their marks. -/
structure Agrees (cut : Cut) (ms : List Mark) : Prop where
  marked_eq : marked cut.head cut.tail = ms
  head : ∀ m ∈ marks cut.head, ¬ m.isOperator
  tail : ∀ piece ∈ cut.tail, ∀ m ∈ marks piece.2, ¬ m.isOperator

theorem Agrees.prepend {cut : Cut} {m : Mark} (h : cut.Agrees ms) (hm : ¬ m.isOperator)
    (hhead : marks (s ++ cut.head) = m :: marks cut.head) : (cut.prepend s).Agrees (m :: ms) where
  marked_eq := by
    rw [Cut.prepend, marked, hhead, ← h.marked_eq, marked]
    rfl
  head := by
    rw [Cut.prepend, hhead]
    exact List.forall_mem_cons.2 ⟨hm, h.head⟩
  tail := h.tail

theorem Agrees.behind {cut : Cut} (h : cut.Agrees ms) (op : Operation) :
    (cut.behind op).Agrees (.operator op :: ms) where
  marked_eq := congrArg (Mark.operator op :: ·) h.marked_eq
  head := by simp [Cut.behind, marks]
  tail := List.forall_mem_cons.2 ⟨h.head, h.tail⟩

theorem agrees_marks (s : List Char) : (ofText s).Agrees (marks s) := by
  fun_induction marks s with
  | case1 => exact ⟨rfl, by simp [ofText, marks], by simp [ofText]⟩
  | case2 c s ih => exact ih.prepend (by simp [Mark.isOperator]) rfl
  | case3 s ih => exact ih.behind .notEqual
  | case4 s ih => exact ih.behind .notContains
  | case5 s ih => exact ih.behind .equal
  | case6 s ih => exact ih.behind .contains
  | case7 c s hpair hequal htilde he ht ih =>
    have hplain := Plain.of_last hpair hequal htilde he ht
    rw [ofText_cons hplain]
    exact ih.prepend (by simp [Mark.isOperator]) (hplain.of_isPrefix (head_isPrefix s)).marks_cons

end Cut
end Proctor.Filter
