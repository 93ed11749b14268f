import Proctor.Filter.Condition
import Proctor.Proofs.Filter.Escape

/-! # Conditions and the blanks around them

A text that is read as a condition is well escaped, and it is read as the same one condition with or
without blanks around it. -/

namespace Proctor.Filter
open Proctor.Text

/-- In front of this text the character is plain: neither an escape nor an operator begins there. -/
structure Plain (c : Char) (s : List Char) : Prop where
  unpaired : c = '\\' → s = []
  alone : c = '!' → s.head? ≠ some '=' ∧ s.head? ≠ some '~'
  ne_equal : c ≠ '='
  ne_tilde : c ≠ '~'

namespace Plain
variable {c : Char} {s t : List Char}

/-- The last case of a scan for operators. -/
theorem of_last (hpair : ∀ d rest, c = '\\' → s = d :: rest → False)
    (hequal : ∀ rest, c = '!' → s = '=' :: rest → False)
    (htilde : ∀ rest, c = '!' → s = '~' :: rest → False) (he : c ≠ '=') (ht : c ≠ '~') :
    Plain c s := by
  refine ⟨eq_nil_of_not_pair hpair, fun hc => ⟨fun hd => ?_, fun hd => ?_⟩, he, ht⟩
  · obtain ⟨rest, rfl⟩ := List.head?_eq_some_iff.1 hd
    exact hequal rest hc rfl
  · obtain ⟨rest, rfl⟩ := List.head?_eq_some_iff.1 hd
    exact htilde rest hc rfl

theorem not_pair (h : Plain c s) : ∀ d rest, c = '\\' → s = d :: rest → False := by
  rintro d rest hc rfl
  exact List.cons_ne_nil _ _ (h.unpaired hc)

theorem not_equal (h : Plain c s) : ∀ rest, c = '!' → s = '=' :: rest → False := by
  rintro rest hc rfl
  exact (h.alone hc).1 rfl

theorem not_tilde (h : Plain c s) : ∀ rest, c = '!' → s = '~' :: rest → False := by
  rintro rest hc rfl
  exact (h.alone hc).2 rfl

theorem of_not_isSpecial (hc : ¬ isSpecial c) (s : List Char) : Plain c s := by
  have hne {d : Char} (hd : isSpecial d) : c ≠ d := by
    rintro rfl
    exact hc hd
  exact ⟨fun h => absurd h (hne (by decide)), fun h => absurd h (hne (by decide)),
    hne (by decide), hne (by decide)⟩

theorem of_blank (hc : isBlank c) (s : List Char) : Plain c s :=
  of_not_isSpecial (fun hspecial => not_isBlank_of_isSpecial hspecial hc) s

theorem ne_backslash (h : Plain c s) (hs : WellEscaped (c :: s)) : c ≠ '\\' :=
  hs.ne_backslash h.unpaired

/-- A character stays plain if the text behind it is cut off somewhere. -/
theorem of_isPrefix (h : Plain c s) (hp : t <+: s) : Plain c t where
  unpaired hc := List.prefix_nil.1 (h.unpaired hc ▸ hp)
  alone hc := by
    obtain ⟨rest, rfl⟩ := hp
    obtain ⟨he, ht⟩ := h.alone hc
    cases t with
    | nil => simp
    | cons d t => exact ⟨he, ht⟩
  ne_equal := h.ne_equal
  ne_tilde := h.ne_tilde

/-- A character stays plain if something that is no part of an operator is put behind the text. -/
theorem append (h : Plain c s) (hc : c ≠ '\\') (ht : ∀ d ∈ t.head?, d ≠ '=' ∧ d ≠ '~') :
    Plain c (s ++ t) where
  unpaired h := absurd h hc
  alone hc := by
    cases s with
    | nil => exact ⟨fun hd => (ht _ hd).1 rfl, fun hd => (ht _ hd).2 rfl⟩
    | cons d s => exact h.alone hc
  ne_equal := h.ne_equal
  ne_tilde := h.ne_tilde

end Plain

/-- A blank is no part of an operator. -/
theorem ne_operator_of_isBlank {c : Char} (hc : isBlank c) : c ≠ '=' ∧ c ≠ '~' :=
  ⟨ne_of_isBlank hc (by decide), ne_of_isBlank hc (by decide)⟩

namespace Cut

/-- Adds to the last piece. -/
def extendLast (t : List Char) : List Char → List (Operation × List Char) → Cut
  | head, [] => ⟨head ++ t, []⟩
  | head, (op, piece) :: tail => ((extendLast t piece tail).behind op).prepend head

def extend (cut : Cut) (t : List Char) : Cut := extendLast t cut.head cut.tail

/-- The text that was cut. -/
def join (cut : Cut) : List Char :=
  cut.head ++ cut.tail.flatMap fun piece => piece.1.symbol ++ piece.2

theorem extend_prepend (s t : List Char) (cut : Cut) :
    (cut.prepend s).extend t = (cut.extend t).prepend s := by
  obtain ⟨head, tail⟩ := cut
  cases tail <;> simp [extend, extendLast, prepend, behind]

theorem extend_behind (op : Operation) (t : List Char) (cut : Cut) :
    (cut.behind op).extend t = (cut.extend t).behind op := rfl

theorem join_prepend (s : List Char) (cut : Cut) : (cut.prepend s).join = s ++ cut.join := by
  simp [join, prepend]

theorem join_behind (op : Operation) (cut : Cut) :
    (cut.behind op).join = op.symbol ++ cut.join := by
  simp [join, behind]

/-- What is neither an escape nor an operator is plain text. -/
theorem ofText_cons {c : Char} {s : List Char} (h : Plain c s) :
    ofText (c :: s) = (ofText s).prepend [c] := by
  rw [ofText]
  · exact h.not_pair
  · exact h.not_equal
  · exact h.not_tilde
  · exact h.ne_equal
  · exact h.ne_tilde

theorem ofText_blank_append {p : List Char} (hp : allBlank p) (s : List Char) :
    ofText (p ++ s) = (ofText s).prepend p := by
  induction p with
  | nil => rfl
  | cons c p ih =>
    obtain ⟨hc, hp⟩ := allBlank_cons.1 hp
    rw [List.cons_append, ofText_cons (.of_blank hc _), ih hp]
    rfl

theorem ofText_blank {q : List Char} (hq : allBlank q) : ofText q = ⟨q, []⟩ := by
  have h := ofText_blank_append hq []
  simpa [ofText, prepend] using h

theorem ofText_append_blank {s q : List Char} (hs : WellEscaped s) (hq : allBlank q) :
    ofText (s ++ q) = (ofText s).extend q := by
  fun_induction ofText s with
  | case1 => simp [ofText_blank hq, extend, extendLast]
  | case2 c s ih => simp only [List.cons_append, ofText, ih hs.of_pair.2, extend_prepend]
  | case3 s ih | case4 s ih =>
    have hs' : WellEscaped s := (hs.of_cons (by decide)).of_cons (by decide)
    simp only [List.cons_append, ofText, ih hs', extend_behind]
  | case5 s ih | case6 s ih =>
    simp only [List.cons_append, ofText, ih (hs.of_cons (by decide)), extend_behind]
  | case7 c s hpair hne hnc he ht ih =>
    have hplain := Plain.of_last hpair hne hnc he ht
    have hb := hplain.ne_backslash hs
    rw [extend_prepend, ← ih (hs.of_cons hb)]
    refine ofText_cons (hplain.append hb fun d hd => ne_operator_of_isBlank ?_)
    exact List.all_eq_true.1 hq d (List.mem_of_mem_head? hd)

theorem join_ofText (s : List Char) : (ofText s).join = s := by
  fun_induction ofText s with
  | case1 => rfl
  | case2 c s ih => simp [join_prepend, ih]
  | case3 s ih | case4 s ih | case5 s ih | case6 s ih =>
    simp [join_behind, ih, Operation.symbol]
  | case7 c s _ _ _ _ _ ih => simp [join_prepend, ih]

/-- A text is well escaped if all pieces between its operators are. -/
theorem wellEscaped_of_pieces {s : List Char} (hh : WellEscaped (ofText s).head)
    (ht : ∀ piece ∈ (ofText s).tail, WellEscaped piece.2) : WellEscaped s := by
  fun_induction ofText s with
  | case1 => exact .nil
  | case2 c s ih =>
    obtain ⟨hc, hh⟩ := hh.of_pair
    exact .pair hc (ih hh ht)
  | case3 s ih | case4 s ih =>
    simp only [behind, List.forall_mem_cons] at ht
    exact .plain (by decide) (.plain (by decide) (ih ht.1 ht.2))
  | case5 s ih | case6 s ih =>
    simp only [behind, List.forall_mem_cons] at ht
    exact .plain (by decide) (ih ht.1 ht.2)
  | case7 c s hpair _ _ _ _ ih =>
    have hb : c ≠ '\\' := hh.ne_backslash fun hc => by
      rw [eq_nil_of_not_pair hpair hc]
      rfl
    exact .plain hb (ih (hh.of_cons hb) ht)

/-- Where a text has a single operator, it has the same one without the blanks around it. -/
theorem ofText_trim {s front back : List Char} {op : Operation} (hs : WellEscaped s)
    (h : ofText s = ⟨front, [(op, back)]⟩) :
    ∃ front' back', ofText (trim s) = ⟨front', [(op, back')]⟩ ∧
      trim front' = trim front ∧ trim back' = trim back := by
  obtain ⟨p, q, hp, hq, he⟩ := exists_trim s
  rw [he, List.append_assoc, ofText_blank_append hp,
    ofText_append_blank (WellEscaped.trim_iff.2 hs) hq] at h
  match hu : ofText (trim s) with
  | ⟨front', []⟩ => simp [hu, extend, extendLast, prepend] at h
  | ⟨front', (op', back') :: []⟩ =>
    simp only [hu, extend, extendLast, behind, prepend, mk.injEq, List.cons.injEq,
      Prod.mk.injEq, and_true, List.append_nil] at h
    obtain ⟨rfl, rfl, rfl⟩ := h
    exact ⟨front', back', rfl, (trim_blank_append hp).symm, (trim_append_blank hq).symm⟩
  | ⟨front', _ :: _ :: _⟩ => simp [hu, extend, extendLast, behind, prepend] at h

end Cut

theorem splitJuxtaposed_of_single {token front back : List Char} {op : Operation}
    (h : Cut.ofText token = ⟨front, [(op, back)]⟩) : splitJuxtaposed token = [trim token] := by
  have hj := Cut.join_ofText token
  simp only [h, Cut.join, List.flatMap_cons, List.flatMap_nil, List.append_nil] at hj
  simp [splitJuxtaposed, h, Cut.pieces, hj]

theorem eq_append_of_gap? {between value name : List Char}
    (h : gap? between = some (value, name)) : between = value ++ name := by
  simp only [gap?] at h
  split at h
  · obtain ⟨rfl, rfl⟩ := Prod.mk.inj (Option.some.inj h)
    obtain ⟨p, -, hp⟩ := exists_trimEnd between
    have hvalue (n : Nat) : (trimEnd between).take n <+: between :=
      (List.take_prefix n (trimEnd between)).trans ⟨p, hp.symm⟩
    exact (List.prefix_iff_eq_append.1 (hvalue _)).symm
  · cases h

theorem Cut.wellEscaped_join {front : List Char} {tail : List (Operation × List Char)}
    (h : ∀ piece ∈ pieces front tail, WellEscaped piece) : WellEscaped (join ⟨front, tail⟩) := by
  fun_induction pieces front tail with
  | case1 front =>
    have hfront := WellEscaped.trim_iff.1 (h _ (List.mem_singleton_self _))
    simpa [join] using hfront
  | case2 front op value =>
    have hwhole := WellEscaped.trim_iff.1 (h _ (List.mem_singleton_self _))
    simpa [join] using hwhole
  | case3 front op between next rest value name hgap ih =>
    obtain ⟨hfirst, hrest⟩ := List.forall_mem_cons.1 h
    have happend := (WellEscaped.trim_iff.1 hfirst).append (ih hrest)
    simpa [join, eq_append_of_gap? hgap] using happend
  | case4 front op between next rest hgap ih => simpa [join] using ih h

/-- A text is well escaped if the conditions that it splits into are. -/
theorem wellEscaped_of_splitJuxtaposed {token : List Char}
    (h : ∀ piece ∈ splitJuxtaposed token, WellEscaped piece) : WellEscaped token := by
  have hjoin := Cut.wellEscaped_join h
  rwa [show Cut.mk _ _ = Cut.ofText token from rfl, Cut.join_ofText] at hjoin

namespace Condition
variable {token : List Char} {c : Condition}

theorem wellEscaped_of_parse (h : parse token = .ok c) : WellEscaped token := by
  obtain ⟨front, back, hcut, -, hf, hb⟩ := parse_eq_ok.1 h
  apply Cut.wellEscaped_of_pieces
  · rw [hcut]
    exact wellEscaped_of_unescape_trim hf
  · simpa [hcut] using wellEscaped_of_unescape_trim hb

theorem parse_trim (h : parse token = .ok c) : parse (trim token) = .ok c := by
  obtain ⟨front, back, hcut, hne, hf, hb⟩ := parse_eq_ok.1 h
  obtain ⟨front', back', hcut', htf, htb⟩ := Cut.ofText_trim (wellEscaped_of_parse h) hcut
  exact parse_eq_ok.2 ⟨front', back', hcut', by rwa [htf], by rwa [htf], by rwa [htb]⟩

theorem splitJuxtaposed_trim (h : parse token = .ok c) :
    splitJuxtaposed (trim token) = [trim token] := by
  obtain ⟨front, back, hcut, -⟩ := parse_eq_ok.1 (parse_trim h)
  simpa using splitJuxtaposed_of_single hcut

theorem trim_ne_nil_of_parse (h : parse token = .ok c) : trim token ≠ [] := by
  obtain ⟨front, back, hcut, -⟩ := parse_eq_ok.1 (parse_trim h)
  intro hnil
  simp [hnil, Cut.ofText] at hcut

end Condition
end Proctor.Filter
