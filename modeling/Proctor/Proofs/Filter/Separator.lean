import Proctor.Proofs.Filter.Stacks
import Proctor.Proofs.Filter.Token

/-! # The separators of a filter text

One scan of a text finds the separators among its tokens: a backslash takes the next character with
it, and all other `&`, `|`, `(` and `)` count. A text whose operands can be read as conditions is
well escaped, so no backslash at its end takes anything that stands behind it. -/

namespace Proctor.Filter
open Proctor.Text

/-- The separators that no backslash has taken. -/
def separators : List Char → List Token
  | [] => []
  | '\\' :: _ :: rest => separators rest
  | c :: rest => (Token.ofSeparator? c).toList ++ separators rest

theorem separators_cons {c : Char} {s : List Char} (h : c = '\\' → s = []) :
    separators (c :: s) = (Token.ofSeparator? c).toList ++ separators s := by
  rw [separators]
  rintro d rest rfl rfl
  exact List.cons_ne_nil _ _ (h rfl)

/-- A part of a text from its beginning on has no other separators than the text. -/
theorem separators_prefix {p s : List Char} (h : p <+: s) : separators p <+: separators s := by
  fun_induction separators s generalizing p with
  | case1 =>
    obtain rfl := List.prefix_nil.1 h
    exact List.prefix_rfl
  | case2 c s ih =>
    rcases p with _ | ⟨d, _ | ⟨e, p⟩⟩
    · exact List.nil_prefix
    · -- the part ends between a backslash and what it takes
      obtain ⟨rfl, -⟩ := List.cons_prefix_cons.1 h
      exact List.nil_prefix
    · obtain ⟨rfl, hrest⟩ := List.cons_prefix_cons.1 h
      show separators p <+: separators s
      exact ih (List.cons_prefix_cons.1 hrest).2
  | case3 c s hpair ih =>
    cases p with
    | nil => exact List.nil_prefix
    | cons d p =>
      obtain ⟨rfl, hrest⟩ := List.cons_prefix_cons.1 h
      have hlone : d = '\\' → p = [] :=
        fun hd => List.prefix_nil.1 (eq_nil_of_not_pair hpair hd ▸ hrest)
      rw [separators_cons hlone]
      exact (List.prefix_append_right_inj _).2 (ih hrest)

namespace Token

def isSeparator : Token → Bool
  | connective _ | opening | closing => true
  | operand _ => false

theorem isSeparator_of_ofSeparator? {c : Char} {token : Token} (h : ofSeparator? c = some token) :
    token.isSeparator := by
  unfold ofSeparator? at h
  split at h <;> cases h <;> rfl

theorem Cut.separators_eq (text : List Char) :
    (Cut.ofText text).tail.map Prod.fst = separators text := by
  fun_induction separators text with
  | case1 => rfl
  | case2 c s ih => exact ih
  | case3 c s hpair ih =>
    rw [Cut.ofText]
    · cases ofSeparator? c with
      | none => exact ih
      | some separator => simpa using ih
    · exact hpair

theorem filter_operand? (text : List Char) : (operand? text).filter isSeparator = [] := by
  simp only [operand?]
  split <;> rfl

theorem filter_separators (text : List Char) :
    (separators text).filter isSeparator = separators text := by
  rw [List.filter_eq_self]
  fun_induction separators text with
  | case1 => simp
  | case2 c s ih => exact ih
  | case3 c s _ ih =>
    intro token ht
    rcases List.mem_append.1 ht with ht | ht
    · exact isSeparator_of_ofSeparator? (Option.mem_toList.1 ht)
    · exact ih token ht

/-- The separators among the tokens are those of the text. -/
theorem filter_ofText (text : List Char) : (ofText text).filter isSeparator = separators text := by
  have htail (tail : List (Token × List Char)) :
      (tail.flatMap fun piece => piece.1 :: operand? piece.2).filter isSeparator =
        (tail.map Prod.fst).filter isSeparator := by
    induction tail with
    | nil => rfl
    | cons piece tail ih =>
      simp [List.filter_cons, filter_operand?, ih]
  have hcut : (ofText text).filter isSeparator =
      (((Cut.ofText text).tail.flatMap fun piece => piece.1 :: operand? piece.2).filter
        isSeparator) := by
    simp [ofText, filter_operand?]
  rw [hcut, htail, Cut.separators_eq, filter_separators]

/-- The texts of the conditions that a token holds. -/
def pieces : Token → List (List Char)
  | operand text => splitJuxtaposed text
  | connective _ | opening | closing => []

theorem Cut.wellEscaped {text : List Char} (hhead : WellEscaped (Cut.ofText text).head)
    (htail : ∀ piece ∈ (Cut.ofText text).tail, WellEscaped piece.2) : WellEscaped text := by
  fun_induction Cut.ofText text with
  | case1 => exact .nil
  | case2 c s ih =>
    obtain ⟨hc, hs⟩ := hhead.of_pair
    exact .pair hc (ih hs htail)
  | case3 c s hpair separator hc cut ih =>
    simp only [List.forall_mem_cons] at htail
    exact .plain (ne_backslash_of_separator hc) (ih htail.1 htail.2)
  | case4 c s hpair hc ih =>
    have hb : c ≠ '\\' := hhead.ne_backslash fun hc => by
      rw [eq_nil_of_not_pair hpair hc]
      rfl
    exact .plain hb (ih (hhead.of_cons hb) htail)

/-- A text is well escaped if its operands are. -/
theorem wellEscaped_of_operands {text : List Char}
    (h : ∀ operand, .operand operand ∈ ofText text → WellEscaped operand) : WellEscaped text := by
  have hof {s : List Char} (hs : ∀ operand, .operand operand ∈ operand? s → WellEscaped operand) :
      WellEscaped s := by
    by_cases hblank : trim s = []
    · exact .of_blank (trim_eq_nil.1 hblank)
    · exact WellEscaped.trim_iff.1 (hs _ (by simp [operand?, hblank]))
  apply Cut.wellEscaped
  · exact hof fun operand ho => h operand (by simp [ofText, ho])
  · intro piece hpiece
    refine hof fun operand ho => h operand ?_
    rw [ofText, List.mem_append, List.mem_flatMap]
    exact .inr ⟨piece, hpiece, List.mem_cons_of_mem _ ho⟩

end Token

/-! ### Texts that can be read -/

variable {tokens : List Token} {text : List Char} {ts : List Terminal}

theorem conditions_map_condition (cs : List Condition) :
    conditions (cs.map .condition) = cs := by
  simp [conditions, List.filterMap_map, Function.comp_def, Terminal.condition?]

theorem Terminal.ofToken_operand {operand : List Char} :
    ofToken (.operand operand) = .ok ts ↔
      ∃ cs, (splitJuxtaposed operand).mapM Condition.parse = .ok cs ∧ cs.map .condition = ts := by
  simp only [ofToken, bind_eq_ok, pure_eq_ok]

/-- The conditions are read from the pieces of the tokens, one after the other. -/
theorem mapM_pieces (h : terminals tokens = .ok ts) :
    (tokens.flatMap Token.pieces).mapM Condition.parse = .ok (conditions ts) := by
  induction tokens generalizing ts with
  | nil =>
    obtain rfl := Except.ok.inj h
    rfl
  | cons token tokens ih =>
    obtain ⟨s, s', hs, hs', rfl⟩ := terminals_cons_eq_ok.1 h
    have hpieces : token.pieces.mapM Condition.parse = .ok (conditions s) := by
      cases token with
      | connective _ | opening | closing =>
        obtain rfl := Except.ok.inj hs
        rfl
      | operand operand =>
        obtain ⟨cs, hcs, rfl⟩ := Terminal.ofToken_operand.1 hs
        rw [conditions_map_condition]
        exact hcs
    rw [List.flatMap_cons, List.mapM_append, hpieces, ih hs', conditions_append]
    rfl

/-- What is not a condition is a separator. -/
theorem filterMap_token? (h : terminals tokens = .ok ts) :
    ts.filterMap Terminal.token? = tokens.filter Token.isSeparator := by
  induction tokens generalizing ts with
  | nil =>
    obtain rfl := Except.ok.inj h
    rfl
  | cons token tokens ih =>
    obtain ⟨s, s', hs, hs', rfl⟩ := terminals_cons_eq_ok.1 h
    rw [List.filterMap_append, ih hs', ← List.singleton_append, List.filter_append]
    congr 1
    cases token with
    | connective _ | opening | closing =>
      obtain rfl := Except.ok.inj hs
      rfl
    | operand operand =>
      obtain ⟨cs, -, rfl⟩ := Terminal.ofToken_operand.1 hs
      simp [List.filterMap_map, Function.comp_def, Terminal.token?, Token.isSeparator]

theorem wellEscaped_of_terminals (h : terminals (Token.ofText text) = .ok ts) :
    WellEscaped text := by
  refine Token.wellEscaped_of_operands fun operand ho => wellEscaped_of_splitJuxtaposed fun piece hp => ?_
  have hmem : piece ∈ (Token.ofText text).flatMap Token.pieces :=
    List.mem_flatMap.2 ⟨.operand operand, ho, hp⟩
  obtain ⟨c, hc⟩ := exists_of_mapM (mapM_pieces h) hmem
  exact Condition.wellEscaped_of_parse hc

end Proctor.Filter
