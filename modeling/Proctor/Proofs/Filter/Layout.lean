import Mathlib.Data.List.Forall2
import Mathlib.Data.List.TakeWhile
import Proctor.Proofs.Filter.Acceptance
import Proctor.Proofs.Filter.Mark

/-! # Conditions where the scan sees them

An accepted filter text is tokenized, its operands are cut into pieces, each piece is cut at its
operator, and name and value are trimmed and rid of their escapes, every time by a scan that begins
anew. One scan of the whole text sees all of it at once: each condition is an operator between two
rows of other marks, which are its name and its value. -/

namespace Proctor.Filter
open Proctor.Text

variable {s t : List Char} {ms ns name value : List Mark} {c d : Condition} {piece : List Char}

/-- What the marks say without escapes and without blanks around it. -/
def wording (ms : List Mark) : String := String.ofList (trim (meaning ms))

namespace Around

theorem refl (s : List Char) : Around s (marks s) := ⟨[], [], rfl, rfl, by simp⟩

theorem blank_append {p : List Char} (hp : allBlank p) (h : Around s ms) :
    Around s (p.map .bare ++ ms) := by
  obtain ⟨p', q, hp', hq, rfl⟩ := h
  exact ⟨p ++ p', q, allBlank_append.2 ⟨hp, hp'⟩, hq, by simp⟩

theorem append_blank {q : List Char} (hq : allBlank q) (h : Around s ms) :
    Around s (ms ++ q.map .bare) := by
  obtain ⟨p, q', hp, hq', rfl⟩ := h
  exact ⟨p, q' ++ q, hp, allBlank_append.2 ⟨hq', hq⟩, by simp⟩

theorem wording_eq (h : Around s ms) : wording ms = wording (marks s) := by
  obtain ⟨p, q, hp, hq, rfl⟩ := h
  simp only [wording, meaning_append, meaning_map_bare, trim_append_blank hq, trim_blank_append hp]

end Around

/-- Neither an operator nor a separator. -/
def Mark.IsLiteral (m : Mark) : Prop := ¬ m.isOperator ∧ ¬ m.isSeparator

theorem Mark.isLiteral_of_blank {p : List Char} (hp : allBlank p) :
    ∀ m ∈ p.map Mark.bare, m.IsLiteral := by
  intro m hm
  obtain ⟨c, hc, rfl⟩ := List.mem_map.1 hm
  have hblank : isBlank c := List.all_eq_true.1 hp c hc
  exact ⟨by simp [isOperator], by simp [isSeparator, separator?, ofSeparator?_of_isBlank hblank]⟩

/-- A row of literal marks that says a word, read from a text that shows the same marks when it is
trimmed and scanned by itself. -/
structure Literal (s : List Char) (word : String) (ms : List Mark) : Prop where
  literal : ∀ m ∈ ms, m.IsLiteral
  wording_eq : wording ms = word
  around : Around (trim s) ms

namespace Literal
variable {word : String}

theorem of_unescape (h : unescape (trim s) = some word.toList)
    (hms : ∀ m ∈ marks s, m.IsLiteral) : Literal s word (marks s) where
  literal := hms
  wording_eq := by
    have htrim := unescape_trim (unescape_eq_meaning (wellEscaped_of_unescape_trim h))
    rw [h] at htrim
    rw [wording, ← Option.some.inj htrim, String.ofList_toList]
  around := around_trim (wellEscaped_of_unescape_trim h)

theorem of_around (h : Literal s word ms) (hns : ∀ m ∈ ns, m.IsLiteral)
    (ha : Around (trim s) ns) : Literal s word ns where
  literal := hns
  wording_eq := by rw [← h.wording_eq, ha.wording_eq, h.around.wording_eq]
  around := ha

theorem blank_append {p : List Char} (hp : allBlank p) (h : Literal s word ms) :
    Literal s word (p.map .bare ++ ms) :=
  h.of_around (List.forall_mem_append.2 ⟨Mark.isLiteral_of_blank hp, h.literal⟩)
    (h.around.blank_append hp)

theorem append_blank {q : List Char} (hq : allBlank q) (h : Literal s word ms) :
    Literal s word (ms ++ q.map .bare) :=
  h.of_around (List.forall_mem_append.2 ⟨h.literal, Mark.isLiteral_of_blank hq⟩)
    (h.around.append_blank hq)

end Literal

/-- One condition: the marks of its name and those of its value, with the operator between them. The
piece of the text that it is read from shows the same marks when it is scanned by itself, and so do
name and value. -/
structure Clause (c : Condition) (piece : List Char) (name value : List Mark) : Prop where
  parse : Condition.parse piece = .ok c
  around : Around piece (name ++ .operator c.operation :: value)
  parts : ∃ front back, Cut.ofText piece = ⟨front, [(c.operation, back)]⟩ ∧
    Literal front c.name name ∧ Literal back c.value value

namespace Clause

theorem literal_name (h : Clause c piece name value) : ∀ m ∈ name, m.IsLiteral := by
  obtain ⟨front, back, -, hname, -⟩ := h.parts
  exact hname.literal

theorem wording_name (h : Clause c piece name value) : wording name = c.name := by
  obtain ⟨front, back, -, hname, -⟩ := h.parts
  exact hname.wording_eq

theorem blank_append {p : List Char} (hp : allBlank p) (h : Clause c piece name value) :
    Clause c piece (p.map .bare ++ name) value where
  parse := h.parse
  around := by
    rw [List.append_assoc]
    exact h.around.blank_append hp
  parts := by
    obtain ⟨front, back, hcut, hname, hvalue⟩ := h.parts
    exact ⟨front, back, hcut, hname.blank_append hp, hvalue⟩

theorem append_blank {q : List Char} (hq : allBlank q) (h : Clause c piece name value) :
    Clause c piece name (value ++ q.map .bare) where
  parse := h.parse
  around := by simpa using h.around.append_blank hq
  parts := by
    obtain ⟨front, back, hcut, hname, hvalue⟩ := h.parts
    exact ⟨front, back, hcut, hname, hvalue.append_blank hq⟩

theorem of_parse (h : Condition.parse piece = .ok c) (hsep : ∀ m ∈ marks piece, ¬ m.isSeparator) :
    ∃ name value, marks piece = name ++ .operator c.operation :: value ∧
      Clause c piece name value := by
  obtain ⟨front, back, hcut, -, hfront, hback⟩ := Condition.parse_eq_ok.1 h
  obtain ⟨hmarked, hhead, htail⟩ := Cut.agrees_marks piece
  simp only [hcut, List.forall_mem_singleton] at hhead htail
  have hmarks : marks piece = marks front ++ .operator c.operation :: marks back := by
    rw [← hmarked, hcut]
    simp [Cut.marked]
  simp only [hmarks, List.forall_mem_append, List.forall_mem_cons] at hsep
  obtain ⟨hfrontsep, -, hbacksep⟩ := hsep
  have hname : Literal front c.name (marks front) :=
    .of_unescape hfront fun m hm => ⟨hhead m hm, hfrontsep m hm⟩
  have hvalue : Literal back c.value (marks back) :=
    .of_unescape hback fun m hm => ⟨htail m hm, hbacksep m hm⟩
  exact ⟨marks front, marks back, hmarks, h, hmarks ▸ .refl piece, front, back, hcut, hname, hvalue⟩

/-- The same of a text with blanks around. -/
theorem of_parse_trim (hs : WellEscaped s) (h : Condition.parse (trim s) = .ok c)
    (hsep : ∀ m ∈ marks s, ¬ m.isSeparator) :
    ∃ name value, marks s = name ++ .operator c.operation :: value ∧
      Clause c (trim s) name value := by
  obtain ⟨p, q, hp, hq, hmarks⟩ := around_trim hs
  have hinner : ∀ m ∈ marks (trim s), ¬ m.isSeparator := by
    intro m hm
    exact hsep m (by simp [hmarks, hm])
  obtain ⟨name, value, heq, hclause⟩ := of_parse h hinner
  refine ⟨p.map .bare ++ name, value ++ q.map .bare, ?_, (hclause.blank_append hp).append_blank hq⟩
  rw [hmarks, heq]
  simp

end Clause

/-! ### The conditions of one operand -/

/-- Conditions that are only set apart by blanks, with the pieces of the text they are read from.
The cut between two operators is at a blank that no backslash has taken, and the name behind it has
none, so it is the last one before that name. -/
inductive Clauses : List Condition → List (List Char) → List Mark → Prop
  | last {c : Condition} {piece : List Char} {name value : List Mark}
      (h : Clause c piece name value) :
      Clauses [c] [piece] (name ++ .operator c.operation :: value)
  | next {c d : Condition} {cs : List Condition} {piece : List Char} {pieces : List (List Char)}
      {name value ms : List Mark} {x : Char} (h : Clause c piece name value) (hx : isBlank x)
      (hd : ∀ y ∈ d.name.toList, ¬ isBlank y) (rest : Clauses (d :: cs) pieces (.bare x :: ms)) :
      Clauses (c :: d :: cs) (piece :: pieces)
        (name ++ .operator c.operation :: (value ++ .bare x :: ms))

namespace Clauses
variable {cs : List Condition} {pieces : List (List Char)}

theorem blank_append {p : List Char} (hp : allBlank p) (h : Clauses cs pieces ms) :
    Clauses cs pieces (p.map .bare ++ ms) := by
  cases h with
  | last h =>
    rw [← List.append_assoc]
    exact .last (h.blank_append hp)
  | next h hx hd rest =>
    rw [← List.append_assoc]
    exact .next (h.blank_append hp) hx hd rest

theorem append_blank {q : List Char} (hq : allBlank q) (h : Clauses cs pieces ms) :
    Clauses cs pieces (ms ++ q.map .bare) := by
  induction h with
  | last h =>
    rw [List.append_assoc]
    exact .last (h.append_blank hq)
  | next h hx hd rest ih =>
    rw [List.append_assoc, List.cons_append, List.append_assoc]
    exact .next h hx hd ih

/-- The name of the first condition is what stands before the first operator. -/
theorem wording_takeWhile (h : Clauses (d :: cs) pieces ms) :
    wording (ms.takeWhile fun m => !m.isOperator) = d.name := by
  have htake {c : Condition} {piece : List Char} {name value : List Mark}
      (hc : Clause c piece name value) (ms : List Mark) :
      wording ((name ++ .operator c.operation :: ms).takeWhile fun m => !m.isOperator) =
        c.name := by
    rw [List.takeWhile_append_of_pos fun m hm => by simpa using (hc.literal_name m hm).1]
    simpa [Mark.isOperator] using hc.wording_name
  cases h with
  | last h => exact htake h _
  | next h _ _ _ => exact htake h _

theorem exists_cons (h : Clauses cs pieces ms) : ∃ d cs', cs = d :: cs' := by
  cases h with
  | last | next => exact ⟨_, _, rfl⟩

end Clauses

theorem meaning_subset_spell (ms : List Mark) : meaning ms ⊆ spell ms := by
  intro c hc
  obtain ⟨m, hm, hc⟩ := List.mem_flatMap.1 hc
  refine List.mem_flatMap.2 ⟨m, hm, ?_⟩
  cases m with
  | bare | operator => exact hc
  | escaped => exact List.mem_cons_of_mem _ hc

/-- A text that begins with a blank and has no other one but at its end. -/
def SetApart (s : List Char) : Prop :=
  ∃ x word q, s = x :: word ++ q ∧ isBlank x ∧ (∀ y ∈ word, ¬ isBlank y) ∧ allBlank q

/-- What is cut off between two operators as the next name. -/
theorem setApart_of_gap? {between value name : List Char}
    (h : gap? between = some (value, name)) : SetApart name := by
  obtain ⟨q, hq, hbetween⟩ := exists_trimEnd between
  simp only [gap?] at h
  generalize trimEnd between = kept at h hbetween
  split at h
  · next hlast =>
    obtain ⟨rfl, rfl⟩ := Prod.mk.inj (Option.some.inj h)
    simp only [Bool.and_eq_true, decide_eq_true_eq] at hlast
    have hblank : ∃ c ∈ kept, isBlank c := by
      by_contra hnone
      rw [List.takeWhile_eq_self_iff.2 (by simpa using hnone)] at hlast
      simp at hlast
    obtain ⟨value, x, word, rfl, hx, hword⟩ := exists_last_blank hblank
    have hlength : (value ++ x :: word).length - word.reverse.length - 1 = value.length := by
      simp only [List.length_append, List.length_cons, List.length_reverse]
      omega
    refine ⟨x, word, q, ?_, hx, hword, hq⟩
    rw [takeWhile_reverse_append_cons hx hword, hlength, List.take_left, hbetween,
      List.append_assoc, List.drop_left]
  · cases h

namespace SetApart

/-- Neither an escape nor an operator reaches over the blank. -/
theorem marks_append (h : SetApart t) (hs : WellEscaped (s ++ t)) :
    marks (s ++ t) = marks s ++ marks t := by
  obtain ⟨x, word, q, rfl, hx, -⟩ := h
  have hvalue : WellEscaped s := by
    refine hs.of_append fun c hc hspecial => ?_
    obtain rfl := Option.some.inj hc
    exact not_isBlank_of_isSpecial hspecial hx
  rw [List.cons_append, marks_append_blank_cons hvalue hx, (Plain.of_blank hx _).marks_cons]

theorem exists_marks (h : SetApart s) : ∃ x ms, isBlank x ∧ marks s = .bare x :: ms := by
  obtain ⟨x, word, q, rfl, hx, -⟩ := h
  exact ⟨x, _, hx, (Plain.of_blank hx _).marks_cons⟩

/-- A name behind the last blank has none itself. -/
theorem not_isBlank_wording (h : SetApart s) (hs : WellEscaped s) :
    ∀ y ∈ (wording (marks s)).toList, ¬ isBlank y := by
  obtain ⟨x, word, q, rfl, hx, hword, hq⟩ := h
  have htrim : trim (x :: word ++ q) = trim word := by
    have hp : allBlank [x] := by simpa using hx
    rw [trim_append_blank hq]
    exact trim_blank_append hp
  rw [(around_trim hs).wording_eq, htrim, wording, String.toList_ofList]
  intro y hy
  have hspell : y ∈ spell (marks (trim word)) :=
    meaning_subset_spell _ ((trim_isInfix _).subset hy)
  rw [spell_marks] at hspell
  exact hword y ((trim_isInfix word).subset hspell)

end SetApart

theorem Clauses.cons {cs : List Condition} {pieces : List (List Char)} {op : Operation}
    (hc : Clause c piece name value) (hs : SetApart s) (hescaped : WellEscaped s)
    (hplain : ∀ m ∈ marks s, ¬ m.isOperator)
    (rest : Clauses cs pieces (marks s ++ .operator op :: ms)) :
    Clauses (c :: cs) (piece :: pieces)
      (name ++ .operator c.operation :: value ++ (marks s ++ .operator op :: ms)) := by
  obtain ⟨d, cs, rfl⟩ := rest.exists_cons
  have hname : wording (marks s) = d.name := by
    rw [← rest.wording_takeWhile, List.takeWhile_append_of_pos (by simpa using hplain)]
    simp [Mark.isOperator]
  have hd : ∀ y ∈ d.name.toList, ¬ isBlank y := hname ▸ hs.not_isBlank_wording hescaped
  obtain ⟨x, word, hx, hmarks⟩ := hs.exists_marks
  rw [hmarks, List.cons_append] at rest ⊢
  rw [List.append_assoc]
  exact .next hc hx hd rest

namespace Cut
variable {front between value name : List Char} {op : Operation}
  {tail : List (Operation × List Char)} {cs : List Condition}

theorem marked_nil : marked front [] = marks front := List.append_nil _

theorem marked_cons :
    marked front ((op, between) :: tail) =
      marks front ++ .operator op :: marks between ++
        tail.flatMap fun piece => .operator piece.1 :: marks piece.2 := by
  simp [marked]

/-- What has been cut is scanned as before when it is put together again. -/
theorem marks_join (h : Scanned (marks front ++ .operator op :: marks between)) :
    marks (front ++ op.symbol ++ between) = marks front ++ .operator op :: marks between := by
  have hspell := h.marks_spell
  simp only [spell_append, spell_cons, spell_marks, Mark.spelling] at hspell
  rwa [List.append_assoc]

theorem marked_join (h : Scanned (marked front ((op, between) :: tail))) :
    marked front ((op, between) :: tail) = marked (front ++ op.symbol ++ between) tail := by
  rw [marked_cons] at h
  rw [marked_cons, ← marks_join h.of_append.1, marked]

/-- The cut between two operators is not inside an escape or an operator. -/
theorem marks_of_gap? (hgap : gap? between = some (value, name))
    (h : Scanned (marked front ((op, between) :: tail))) :
    marks between = marks value ++ marks name := by
  rw [marked_cons] at h
  cases h.of_append.1.of_append.2 with
  | operator hbetween =>
    have hescaped := hbetween.wellEscaped
    rw [eq_append_of_gap? hgap] at hescaped ⊢
    exact (setApart_of_gap? hgap).marks_append hescaped

theorem marked_of_gap? (hgap : gap? between = some (value, name))
    (h : Scanned (marked front ((op, between) :: tail))) :
    marked front ((op, between) :: tail) =
      marks (front ++ op.symbol ++ value) ++ marked name tail := by
  have hmarks := marks_of_gap? hgap h
  have hsplit : marked front ((op, between) :: tail) =
      (marks front ++ .operator op :: marks value) ++ marked name tail := by
    simp [marked, hmarks]
  rw [hsplit] at h ⊢
  rw [marks_join h.of_append.1]

theorem clauses_of_single (h : [trim front].mapM Condition.parse = .ok cs)
    (hscan : Scanned (marks front)) (hsep : ∀ m ∈ marks front, ¬ m.isSeparator) :
    Clauses cs [trim front] (marks front) := by
  obtain ⟨c, _, hc, hnil, rfl⟩ := mapM_cons_eq_ok.1 h
  obtain rfl := pure_eq_ok.1 hnil
  obtain ⟨name, value, hmarks, hclause⟩ := Clause.of_parse_trim hscan.wellEscaped hc hsep
  rw [hmarks]
  exact .last hclause

/-- The pieces that a text is cut into are read as conditions where its marks show them. -/
theorem clauses_of_pieces (h : (pieces front tail).mapM Condition.parse = .ok cs)
    (hscan : Scanned (marked front tail)) (hsep : ∀ m ∈ marked front tail, ¬ m.isSeparator)
    (hplain : ∀ part ∈ tail, ∀ m ∈ marks part.2, ¬ m.isOperator) :
    Clauses cs (pieces front tail) (marked front tail) := by
  fun_induction pieces front tail generalizing cs with
  | case1 front =>
    rw [marked_nil] at hscan hsep ⊢
    exact clauses_of_single h hscan hsep
  | case2 front op value =>
    have hjoin := marked_join hscan
    rw [hjoin, marked_nil] at hscan hsep ⊢
    exact clauses_of_single h hscan hsep
  | case3 front op between next rest value name hgap ih =>
    obtain ⟨hbetween, hrest⟩ := List.forall_mem_cons.1 hplain
    obtain ⟨c, cs, hc, hcs, rfl⟩ := mapM_cons_eq_ok.1 h
    have hmarks := marks_of_gap? hgap hscan
    have hname : ∀ m ∈ marks name, ¬ m.isOperator := by
      intro m hm
      exact hbetween m (by simp [hmarks, hm])
    have hcut := marked_of_gap? hgap hscan
    rw [hcut] at hscan hsep ⊢
    obtain ⟨hfirst, hscan⟩ := hscan.of_append
    obtain ⟨hfirstsep, hsep⟩ := List.forall_mem_append.1 hsep
    obtain ⟨name', value', hsplit, hclause⟩ := Clause.of_parse_trim hfirst.wellEscaped hc hfirstsep
    rw [hsplit]
    have hescaped := (Scanned.of_append hscan).1.wellEscaped
    exact .cons hclause (setApart_of_gap? hgap) hescaped hname (ih hcs hscan hsep hrest)
  | case4 front op between next rest hgap ih =>
    -- the text between the operators belongs to the name of a condition that cannot be read
    have hjoin := marked_join hscan
    rw [hjoin] at hscan hsep ⊢
    exact ih h hscan hsep (List.forall_mem_cons.1 hplain).2

end Cut

/-! ### The operands of a text -/

/-- What lies between two separators, with the conditions read from it. Trimming leaves an operand
that shows the same marks, and the pieces of this operand are those of the conditions. -/
structure ReadAs (ms : List Mark) (cs : List Condition) : Prop where
  operand_around : Around (trim (spell ms)) ms
  clauses : Clauses cs (splitJuxtaposed (trim (spell ms))) ms

theorem readAs_of_mapM {cs : List Condition}
    (h : (splitJuxtaposed (trim s)).mapM Condition.parse = .ok cs)
    (hsep : ∀ m ∈ marks s, ¬ m.isSeparator) : ReadAs (marks s) cs := by
  have hescaped : WellEscaped (trim s) := wellEscaped_of_splitJuxtaposed fun piece hpiece =>
    have ⟨_, hc⟩ := exists_of_mapM h hpiece
    Condition.wellEscaped_of_parse hc
  obtain ⟨p, q, hp, hq, hmarks⟩ := around_trim (WellEscaped.trim_iff.1 hescaped)
  obtain ⟨hmarked, -, hplain⟩ := Cut.agrees_marks (trim s)
  have hinner : ∀ m ∈ marks (trim s), ¬ m.isSeparator := by
    intro m hm
    exact hsep m (by simp [hmarks, hm])
  have hclauses : Clauses cs (splitJuxtaposed (trim s)) (marks (trim s)) := by
    rw [← hmarked] at hinner ⊢
    exact Cut.clauses_of_pieces h (hmarked ▸ scanned_marks hescaped) hinner hplain
  constructor
  · rw [spell_marks]
    exact ⟨p, q, hp, hq, hmarks⟩
  · rw [spell_marks, hmarks]
    exact (hclauses.blank_append hp).append_blank hq

/-- What lies between the separators of a text, where it is not blank. -/
def spans (text : List Char) : List (List Mark) :=
  ((marks text).splitOnP Mark.isSeparator).filter fun ms => !allBlank (spell ms)

theorem exists_marks_of_mem_spans {text : List Char} (h : ms ∈ spans text) :
    ∃ s, ms = marks s ∧ ∀ m ∈ marks s, ¬ m.isSeparator := by
  have hagrees := Token.Cut.agrees_marks text
  have h := (List.mem_filter.1 h).1
  rw [hagrees.split] at h
  obtain ⟨s, hs, rfl⟩ := List.mem_map.1 h
  exact ⟨s, rfl, hagrees.texts s hs⟩

namespace Token

theorem operand?_eq (s : List Char) :
    operand? s = ([marks s].filter fun ms => !allBlank (spell ms)).map fun ms =>
      .operand (trim (spell ms)) := by
  by_cases hs : allBlank s
  · simp [operand?_of_blank hs, hs]
  · have hne : trim s ≠ [] := fun hnil => hs (trim_eq_nil.1 hnil)
    simp [operand?, hs, hne]

theorem map_spans (text : List Char) :
    ((spans text).map fun ms => .operand (trim (spell ms))) =
      (Cut.ofText text).texts.flatMap operand? := by
  rw [spans, (Cut.agrees_marks text).split]
  induction (Cut.ofText text).texts with
  | nil => rfl
  | cons s texts ih =>
    rw [List.map_cons, ← List.singleton_append, List.filter_append, List.map_append, ih,
      ← operand?_eq]
    rfl

theorem filter_operands_operand? (s : List Char) :
    (operand? s).filter (fun token => !token.isSeparator) = operand? s := by
  simp only [operand?]
  split <;> rfl

/-- The tokens that are no separators are the spans. -/
theorem filter_operands (text : List Char) :
    (ofText text).filter (fun token => !token.isSeparator) =
      (spans text).map fun ms => .operand (trim (spell ms)) := by
  have hseparators : ∀ piece ∈ (Cut.ofText text).tail, piece.1.isSeparator := by
    intro piece hpiece
    have hmem : piece.1 ∈ separators text := Cut.separators_eq text ▸ List.mem_map_of_mem hpiece
    exact (List.filter_eq_self.1 (filter_separators text)) _ hmem
  rw [map_spans, Cut.texts, List.flatMap_cons, ofText, List.filter_append, filter_operands_operand?]
  congr 1
  generalize (Cut.ofText text).tail = tail at hseparators
  induction tail with
  | nil => rfl
  | cons piece tail ih =>
    obtain ⟨hpiece, htail⟩ := List.forall_mem_cons.1 hseparators
    simp [filter_operands_operand?, hpiece, ih htail]

/-- Separators with what stands before, between and behind them. A blank part is no token. -/
def interleave : List Token → List (List Mark) → List Token
  | _, [] => []
  | [], ms :: _ => operand? (spell ms)
  | separator :: separators, ms :: parts =>
    operand? (spell ms) ++ separator :: interleave separators parts

/-- The marks decide on all tokens and their order. -/
theorem ofText_eq_interleave (text : List Char) :
    ofText text = interleave ((marks text).filterMap Mark.separator?)
      ((marks text).splitOnP Mark.isSeparator) := by
  have hagrees := Cut.agrees_marks text
  rw [hagrees.separators, hagrees.split, ofText, Cut.texts]
  generalize (Cut.ofText text).head = head
  induction (Cut.ofText text).tail generalizing head with
  | nil => simp [interleave]
  | cons piece tail ih =>
    have ih := ih piece.2
    simp only [List.map_cons, interleave, spell_marks, List.flatMap_cons] at ih ⊢
    rw [← ih]
    simp

theorem flatMap_pieces (tokens : List Token) :
    (tokens.filter fun token => !token.isSeparator).flatMap pieces = tokens.flatMap pieces := by
  induction tokens with
  | nil => rfl
  | cons token tokens ih =>
    rw [List.filter_cons, List.flatMap_cons]
    cases token with
    | connective _ | opening | closing => exact ih
    | operand text => exact congrArg (splitJuxtaposed text ++ ·) ih

end Token

theorem exists_flatten_of_mapM {α β γ ε : Type} {f : α → List β} {g : β → Except ε γ} {as : List α}
    {cs : List γ} (h : (as.flatMap f).mapM g = .ok cs) :
    ∃ css, css.flatten = cs ∧ List.Forall₂ (fun a cs => (f a).mapM g = .ok cs) as css := by
  induction as generalizing cs with
  | nil =>
    obtain rfl := pure_eq_ok.1 h
    exact ⟨[], rfl, .nil⟩
  | cons a as ih =>
    rw [List.flatMap_cons, List.mapM_append] at h
    obtain ⟨front, hfront, h⟩ := bind_eq_ok.1 h
    obtain ⟨back, hback, h⟩ := bind_eq_ok.1 h
    obtain rfl := pure_eq_ok.1 h
    obtain ⟨css, rfl, hcss⟩ := ih hback
    exact ⟨front :: css, rfl, .cons hfront hcss⟩

/-- One scan of an accepted filter sees all that the others see. Each backslash stands in front of a
special character, the separators it sees are those among the tokens, and the operands are what lies
between them. Each operand is made of conditions, an operator between two rows of other marks, and
these are in their order the conditions of the filter. -/
theorem every_scan_agrees {text : List Char} {e : Expression} (h : Expression.parse text = .ok e) :
    (∀ m ∈ marks text, m.Proper) ∧
      Token.ofText text = Token.interleave ((marks text).filterMap Mark.separator?)
        ((marks text).splitOnP Mark.isSeparator) ∧
      (marks text).filterMap Mark.separator? = (Token.ofText text).filter Token.isSeparator ∧
      ((spans text).map fun ms => .operand (trim (spell ms))) =
        (Token.ofText text).filter (fun token => !token.isSeparator) ∧
      ∃ tree set css, Expression.parseTree text = .ok (tree, set) ∧
        (set.map .oneOf).getD tree = e ∧ css.flatten = tree.leaves ∧
        List.Forall₂ ReadAs (spans text) css := by
  obtain ⟨ts, r, tree, ha, he⟩ := Accepted.of_parse h
  refine ⟨(scanned_marks ha.wellEscaped).proper, Token.ofText_eq_interleave text, ?_,
    (Token.filter_operands text).symm, ?_⟩
  · rw [filterMap_separator?, Token.filter_ofText]
  · have hpieces := mapM_pieces ha.terminals
    rw [← Token.flatMap_pieces, Token.filter_operands, List.flatMap_map] at hpieces
    obtain ⟨css, hcss, hread⟩ := exists_flatten_of_mapM hpieces
    refine ⟨tree, _, css, ha.parseTree_eq, he, hcss.trans ha.faithful.leaves.symm, ?_⟩
    have hspans := (List.forall₂_and_left _ _).2 ⟨fun ms hms => hms, hread⟩
    refine hspans.imp fun ms cs ⟨hms, hcs⟩ => ?_
    obtain ⟨s, rfl, hsep⟩ := exists_marks_of_mem_spans hms
    rw [spell_marks] at hcs
    exact readAs_of_mapM hcs hsep

/-- Escaped separators and operators are text, also beside the real ones. -/
theorem escaped_syntax_is_text :
    let text := "A\\&B!=x\\=1 y C=z|(D~\\()|".toList
    let a : Condition := ⟨"A&B", .notEqual, "x=1 y"⟩
    let b : Condition := ⟨"C", .equal, "z"⟩
    let c : Condition := ⟨"D", .contains, "("⟩
    Expression.parse text = .ok (.binary .or (.leaf a) (.binary .or (.leaf b) (.leaf c))) ∧
      (marks text).filterMap Mark.separator? =
        [.connective .or, .opening, .closing, .connective .or] ∧
      ∃ css, css.flatten = [a, b, c] ∧ List.Forall₂ ReadAs (spans text) css := by
  intro text a b c
  have h : Expression.parse text =
      .ok (.binary .or (.leaf a) (.binary .or (.leaf b) (.leaf c))) := rfl
  have htree : Expression.parseTree text =
      .ok (.binary .or (.leaf a) (.binary .or (.leaf b) (.leaf c)), none) := rfl
  obtain ⟨-, -, hseparators, -, tree, set, css, htree', -, hcss, hread⟩ := every_scan_agrees h
  obtain ⟨rfl, -⟩ := Prod.mk.inj (Except.ok.inj (htree.symm.trans htree'))
  exact ⟨h, hseparators, css, hcss, hread⟩

end Proctor.Filter
