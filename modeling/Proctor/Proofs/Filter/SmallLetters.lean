import Proctor.Proofs.Filter.Substitution

/-! # Filter texts in small letters

No letter has a meaning in the filter grammar, and letters are never blank. So a text in small
letters is cut into tokens, pieces and conditions at the same places, and each of them is what it
was, in small letters. -/

namespace Proctor.Text

/-- The text in small letters. -/
abbrev small (s : List Char) : List Char := s.map Char.toLower

theorem small_cons (c : Char) (s : List Char) : small (c :: s) = c.toLower :: small s := rfl

theorem isUpper_iff {c : Char} : c.isUpper ↔ 65 ≤ c.toNat ∧ c.toNat ≤ 90 := by
  show decide (65 ≤ c.val ∧ c.val ≤ 90) ↔ _
  simp [UInt32.le_iff_toNat_le, ← Char.toNat_val]

theorem isLower_iff {c : Char} : c.isLower ↔ 97 ≤ c.toNat ∧ c.toNat ≤ 122 := by
  show (decide (97 ≤ c.val) && decide (c.val ≤ 122)) ↔ _
  simp [UInt32.le_iff_toNat_le, ← Char.toNat_val]

theorem isAlpha_iff {c : Char} : c.isAlpha ↔ c.isUpper ∨ c.isLower :=
  Bool.or_eq_true_iff

theorem toNat_toLower {c : Char} (h : c.isUpper) : c.toLower.toNat = c.toNat + 32 := by
  have hrange := isUpper_iff.1 h
  have hval : c.toLower.val = c.val + 32 := by
    unfold Char.toLower
    rw [dif_pos (of_decide_eq_true h)]
    rfl
  rw [← Char.toNat_val, hval, UInt32.toNat_add, Char.toNat_val]
  exact Nat.mod_eq_of_lt (show c.toNat + 32 < 2 ^ 32 by omega)

theorem toLower_of_not_isUpper {c : Char} (h : ¬ c.isUpper) : c.toLower = c := by
  unfold Char.toLower
  exact dif_neg fun hrange => h (decide_eq_true hrange)

/-- A letter stays a letter, and nothing else changes. -/
theorem toLower_cases (c : Char) : c.toLower = c ∨ c.isAlpha ∧ c.toLower.isAlpha := by
  by_cases hc : c.isUpper
  · have hlower : c.toLower.isLower := by
      have hrange := isUpper_iff.1 hc
      rw [isLower_iff, toNat_toLower hc]
      omega
    exact .inr ⟨isAlpha_iff.2 (.inl hc), isAlpha_iff.2 (.inr hlower)⟩
  · exact .inl (toLower_of_not_isUpper hc)

/-- What makes no difference between letters makes none between their cases. -/
theorem apply_toLower {α : Type} {f : Char → α} {a : α} (h : ∀ c : Char, c.isAlpha → f c = a)
    (c : Char) : f c.toLower = f c := by
  rcases toLower_cases c with hsame | ⟨hc, hlower⟩
  · rw [hsame]
  · rw [h c hc, h _ hlower]

theorem toLower_eq_iff {c d : Char} (hd : ¬ d.isAlpha) : c.toLower = d ↔ c = d := by
  rcases toLower_cases c with h | ⟨hc, hlower⟩
  · rw [h]
  · refine iff_of_false ?_ ?_
    · rintro rfl
      exact hd hlower
    · rintro rfl
      exact hd hc

theorem not_isBlank_of_isAlpha {c : Char} (h : c.isAlpha) : ¬ isBlank c := by
  rw [isAlpha_iff, isUpper_iff, isLower_iff] at h
  simp only [isBlank, blankRuns, List.any_cons, List.any_nil, Bool.or_eq_true, Bool.and_eq_true,
    decide_eq_true_eq, Bool.or_false]
  omega

@[simp] theorem isBlank_toLower (c : Char) : isBlank c.toLower = isBlank c :=
  apply_toLower (fun _ halpha => Bool.eq_false_iff.2 (not_isBlank_of_isAlpha halpha)) c

theorem isBlank_comp_toLower : isBlank ∘ Char.toLower = isBlank := funext isBlank_toLower

@[simp] theorem allBlank_small (s : List Char) : allBlank (small s) = allBlank s := by
  simp [allBlank, List.all_map, isBlank_comp_toLower]

@[simp] theorem trimStart_small (s : List Char) : trimStart (small s) = small (trimStart s) := by
  rw [trimStart, List.dropWhile_map, isBlank_comp_toLower]
  rfl

@[simp] theorem trimEnd_small (s : List Char) : trimEnd (small s) = small (trimEnd s) := by
  simp only [trimEnd, small, ← List.map_reverse]
  rw [trimStart_small, ← List.map_reverse]

@[simp] theorem trim_small (s : List Char) : trim (small s) = small (trim s) := by
  rw [trim, trimStart_small, trimEnd_small]
  rfl

end Proctor.Text

namespace Proctor.Filter
open Proctor.Text

/-! ### Characters and escapes -/

theorem not_isSpecial_of_isAlpha {c : Char} (h : c.isAlpha) : ¬ isSpecial c := by
  have hplain : specialCharacters.all (fun d => !d.isAlpha) := by decide
  intro hspecial
  have hc := List.all_eq_true.1 hplain c (isSpecial_iff.1 hspecial)
  simp [h] at hc

@[simp] theorem isSpecial_toLower (c : Char) : isSpecial c.toLower = isSpecial c :=
  apply_toLower (fun _ halpha => Bool.eq_false_iff.2 (not_isSpecial_of_isAlpha halpha)) c

theorem toLower_eq_iff_of_isSpecial {c d : Char} (hd : isSpecial d) : c.toLower = d ↔ c = d :=
  toLower_eq_iff fun halpha => not_isSpecial_of_isAlpha halpha hd

theorem head?_small {d : Char} (hd : isSpecial d) (s : List Char) :
    (small s).head? = some d ↔ s.head? = some d := by
  cases s with
  | nil => rfl
  | cons c s => simp [toLower_eq_iff_of_isSpecial hd]

theorem unescape_small (s : List Char) : unescape (small s) = (unescape s).map small := by
  fun_induction unescape s with
  | case1 | case2 => rfl
  | case3 c s hc ih => simp [unescape, hc, ih, Function.comp_def]
  | case4 c s hc => simp [unescape, hc]
  | case5 c s hlone hpair ih =>
    have hc : c.toLower ≠ '\\' :=
      fun h => ne_backslash_of_plain hlone hpair ((toLower_eq_iff_of_isSpecial (by decide)).1 h)
    simp [unescape_cons hc, ih, Function.comp_def]

/-! ### Conditions -/

theorem Plain.small {c : Char} {s : List Char} (h : Plain c s) : Plain c.toLower (small s) := by
  have hkeep {d : Char} (hd : isSpecial d) : c.toLower = d → c = d :=
    (toLower_eq_iff_of_isSpecial hd).1
  refine ⟨fun hc => ?_, fun hc => ?_, fun hc => ?_, fun hc => ?_⟩
  · rw [h.unpaired (hkeep (by decide) hc)]
    rfl
  · obtain ⟨hequal, htilde⟩ := h.alone (hkeep (by decide) hc)
    exact ⟨fun hd => hequal ((head?_small (by decide) s).1 hd),
      fun hd => htilde ((head?_small (by decide) s).1 hd)⟩
  · exact h.ne_equal (hkeep (by decide) hc)
  · exact h.ne_tilde (hkeep (by decide) hc)

namespace Cut

def lowered (cut : Cut) : Cut :=
  ⟨small cut.head, cut.tail.map fun piece => (piece.1, small piece.2)⟩

theorem lowered_prepend (s : List Char) (cut : Cut) :
    (cut.prepend s).lowered = cut.lowered.prepend (small s) := by
  simp [lowered, prepend]

theorem lowered_behind (op : Operation) (cut : Cut) :
    (cut.behind op).lowered = cut.lowered.behind op := rfl

theorem ofText_small (s : List Char) : ofText (small s) = (ofText s).lowered := by
  fun_induction ofText s with
  | case1 => rfl
  | case2 c s ih => simp [ofText, ih, lowered_prepend]
  | case3 s ih | case4 s ih | case5 s ih | case6 s ih => simp [ofText, ih, lowered_behind]
  | case7 c s hpair hne hnc he ht ih =>
    have hplain := (Plain.of_last hpair hne hnc he ht).small
    rw [small_cons, ofText_cons hplain, ih, lowered_prepend]
    rfl

theorem lowered_eq_single {cut : Cut} {front back : List Char} {op : Operation} :
    cut.lowered = ⟨front, [(op, back)]⟩ ↔
      ∃ front' back', cut = ⟨front', [(op, back')]⟩ ∧ small front' = front ∧
        small back' = back := by
  obtain ⟨head, tail⟩ := cut
  constructor
  · intro h
    obtain ⟨hfront, htail⟩ := Cut.mk.inj h
    match tail, htail with
    | [(op', back')], htail =>
      obtain ⟨rfl, hback⟩ := Prod.mk.inj (List.cons.inj htail).1
      exact ⟨head, back', rfl, hfront, hback⟩
  · rintro ⟨front', back', hcut, rfl, rfl⟩
    rw [hcut]
    rfl

end Cut

theorem small_piece (front : List Char) (op : Operation) (back : List Char) :
    small (front ++ op.symbol ++ back) = small front ++ op.symbol ++ small back := by
  cases op <;> simp [Operation.symbol]

theorem gap?_small (s : List Char) : gap? (small s) = (gap? s).map (Prod.map small small) := by
  have hblank : (fun c => !isBlank c) ∘ Char.toLower = fun c => !isBlank c :=
    funext fun c => congrArg not (isBlank_toLower c)
  simp only [gap?, trimEnd_small, ← List.map_reverse, List.takeWhile_map, hblank, List.length_map,
    ← List.map_take, ← List.map_drop, allBlank_small]
  split <;> rfl

/-- Blanks decide where an operand is cut, and these have no case. -/
theorem Cut.pieces_small (front : List Char) (tail : List (Operation × List Char)) :
    pieces (small front) (tail.map fun piece => (piece.1, small piece.2)) =
      (pieces front tail).map small := by
  fun_induction pieces front tail with
  | case1 front => simp [pieces]
  | case2 front op value =>
    rw [List.map_cons, List.map_nil, pieces, ← small_piece, trim_small]
    rfl
  | case3 front op between next rest value name hgap ih =>
    rw [List.map_cons] at ih
    simp only [List.map_cons, pieces, gap?_small, hgap, Option.map_some, Prod.map, ih,
      ← small_piece, trim_small]
  | case4 front op between next rest hgap ih =>
    rw [List.map_cons] at ih
    simp only [List.map_cons, pieces, gap?_small, hgap, Option.map_none, ih, ← small_piece]

theorem splitJuxtaposed_small (token : List Char) :
    splitJuxtaposed (small token) = (splitJuxtaposed token).map small := by
  rw [splitJuxtaposed, Cut.ofText_small]
  exact Cut.pieces_small _ _

namespace Condition

def lowered (c : Condition) : Condition :=
  { c with name := String.ofList (lower c.name), value := String.ofList (lower c.value) }

theorem unescape_small_eq_some {s : List Char} {u : String} :
    unescape (small s) = some u.toList ↔
      ∃ v : String, unescape s = some v.toList ∧ String.ofList (lower v) = u := by
  rw [unescape_small, Option.map_eq_some_iff]
  constructor
  · rintro ⟨v, hv, hu⟩
    exact ⟨String.ofList v, by simpa using hv, by simpa [lower] using congrArg String.ofList hu⟩
  · rintro ⟨v, hv, rfl⟩
    exact ⟨v.toList, hv, by simp [lower]⟩

/-- The conditions of small texts are the small conditions. -/
theorem parse_small {token : List Char} {d : Condition} :
    parse (small token) = .ok d ↔ ∃ c, parse token = .ok c ∧ c.lowered = d := by
  simp only [parse_eq_ok, Cut.ofText_small, Cut.lowered_eq_single]
  constructor
  · rintro ⟨_, _, ⟨front, back, hcut, rfl, rfl⟩, hname, hn, hv⟩
    rw [trim_small, unescape_small_eq_some] at hn hv
    obtain ⟨name, hn, hname'⟩ := hn
    obtain ⟨value, hv, hvalue⟩ := hv
    refine ⟨⟨name, d.operation, value⟩, ⟨front, back, hcut, ?_, hn, hv⟩, ?_⟩
    · simpa using hname
    · rw [lowered, hname', hvalue]
  · rintro ⟨c, ⟨front, back, hcut, hname, hn, hv⟩, rfl⟩
    refine ⟨_, _, ⟨front, back, hcut, rfl, rfl⟩, ?_, ?_, ?_⟩
    · simpa using hname
    · rw [trim_small, unescape_small_eq_some]
      exact ⟨c.name, hn, rfl⟩
    · rw [trim_small, unescape_small_eq_some]
      exact ⟨c.value, hv, rfl⟩

end Condition

/-! ### Tokens -/

namespace Token

def lowered : Token → Token
  | operand text => operand (small text)
  | connective op => connective op
  | opening => opening
  | closing => closing

theorem ofSeparator?_toLower (c : Char) : ofSeparator? c.toLower = ofSeparator? c :=
  apply_toLower (fun _ halpha => ofSeparator?_of_not_isSpecial (not_isSpecial_of_isAlpha halpha)) c

theorem lowered_of_ofSeparator? {c : Char} {separator : Token}
    (h : ofSeparator? c = some separator) : separator.lowered = separator := by
  have hseparator := isSeparator_of_ofSeparator? h
  cases separator with
  | operand text => cases hseparator
  | connective op | opening | closing => rfl

def Cut.lowered (cut : Cut) : Cut :=
  ⟨small cut.head, cut.tail.map fun piece => (piece.1.lowered, small piece.2)⟩

theorem Cut.not_pair_small {c : Char} {s : List Char}
    (h : ∀ d rest, c = '\\' → s = d :: rest → False) :
    ∀ d rest, c.toLower = '\\' → small s = d :: rest → False := by
  intro d rest hc hs
  obtain ⟨e, rest', rfl, -, -⟩ := List.map_eq_cons_iff.1 hs
  exact h e rest' ((toLower_eq_iff_of_isSpecial (by decide)).1 hc) rfl

theorem Cut.ofText_small (s : List Char) : ofText (small s) = (ofText s).lowered := by
  fun_induction ofText s with
  | case1 => rfl
  | case2 c s ih => simp [ofText, ih, prepend, lowered]
  | case3 c s hpair separator hc cut ih =>
    rw [small_cons, ofText, ofSeparator?_toLower, hc]
    · simp [ih, lowered, cut, lowered_of_ofSeparator? hc]
    · exact not_pair_small hpair
  | case4 c s hpair hc ih =>
    rw [small_cons, ofText, ofSeparator?_toLower, hc]
    · simp [ih, lowered, prepend]
    · exact not_pair_small hpair

theorem operand?_small (s : List Char) : operand? (small s) = (operand? s).map lowered := by
  simp only [operand?, trim_small, List.isEmpty_map]
  split <;> rfl

theorem ofText_small (s : List Char) : ofText (small s) = (ofText s).map lowered := by
  simp only [ofText, Cut.ofText_small, Cut.lowered, operand?_small, List.map_append,
    List.flatMap_map, List.map_flatMap, List.map_cons]

theorem lowered_eq_iff {token separator : Token} (h : separator.isSeparator) :
    token.lowered = separator ↔ token = separator := by
  cases separator with
  | operand text => cases h
  | connective op | opening | closing => cases token <;> simp [lowered]

theorem hasEmptyParenthesis_lowered (tokens : List Token) :
    hasEmptyParenthesis (tokens.map lowered) = hasEmptyParenthesis tokens := by
  fun_induction hasEmptyParenthesis tokens with
  | case1 rest => rfl
  | case2 token rest hnot ih =>
    rw [List.map_cons, hasEmptyParenthesis, ih]
    intro rest' htoken hrest
    obtain ⟨next, rest'', rfl, hnext, -⟩ := List.map_eq_cons_iff.1 hrest
    obtain rfl := (lowered_eq_iff rfl).1 hnext
    exact hnot rest'' ((lowered_eq_iff rfl).1 htoken) rfl
  | case3 => rfl

end Token

/-! ### Terminals -/

namespace Terminal

theorem ofToken_lowered {token : Token} {us : List Terminal} :
    ofToken token.lowered = .ok us ↔
      ∃ ts, ofToken token = .ok ts ∧ ts.map (mapCondition Condition.lowered) = us := by
  cases token with
  | connective op | opening | closing => simp [Token.lowered, ofToken, mapCondition]
  | operand text =>
    have hmap (cs : List Condition) : (cs.map condition).map (mapCondition Condition.lowered) =
        (cs.map Condition.lowered).map condition := by
      simp only [List.map_map]
      rfl
    simp only [Token.lowered, ofToken_operand, splitJuxtaposed_small,
      mapM_map_eq_ok fun token d => Condition.parse_small]
    constructor
    · rintro ⟨_, ⟨cs, hcs, rfl⟩, rfl⟩
      exact ⟨_, ⟨cs, hcs, rfl⟩, hmap cs⟩
    · rintro ⟨_, ⟨cs, hcs, rfl⟩, rfl⟩
      exact ⟨_, ⟨cs, hcs, rfl⟩, (hmap cs).symm⟩

end Terminal

theorem terminals_lowered {tokens : List Token} {us : List Terminal} :
    terminals (tokens.map Token.lowered) = .ok us ↔
      ∃ ts, terminals tokens = .ok ts ∧ ts.map (Terminal.mapCondition Condition.lowered) = us := by
  induction tokens generalizing us with
  | nil => simp [terminals]
  | cons token tokens ih =>
    simp only [List.map_cons, terminals_cons_eq_ok, Terminal.ofToken_lowered, ih]
    constructor
    · rintro ⟨_, _, ⟨s, hs, rfl⟩, ⟨s', hs', rfl⟩, rfl⟩
      exact ⟨s ++ s', ⟨s, s', hs, hs', rfl⟩, List.map_append ..⟩
    · rintro ⟨_, ⟨s, s', hs, hs', rfl⟩, rfl⟩
      exact ⟨_, _, ⟨s, hs, rfl⟩, ⟨s', hs', rfl⟩, (List.map_append ..).symm⟩

/-- The terminals of a text in small letters. -/
theorem terminals_small {text : List Char} {us : List Terminal} :
    terminals (Token.ofText (small text)) = .ok us ↔
      ∃ ts, terminals (Token.ofText text) = .ok ts ∧
        ts.map (Terminal.mapCondition Condition.lowered) = us := by
  rw [Token.ofText_small, terminals_lowered]

end Proctor.Filter
