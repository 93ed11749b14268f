import Mathlib.Data.List.Sort
import Proctor.Proofs.Filter.Completeness

/-! # A filter that is written out is read as itself

Names and values are escaped when a tree is written, and every connective stands in parentheses of
its own. So the text of a tree is a filter of the grammar, and it is read as the tree, except that
blanks around names and values are lost. What is read has no such blanks. -/

namespace Proctor.Filter
open Proctor.Text

/-! ### Conditions -/

namespace Cut

theorem ofText_escape_append (s t : List Char) :
    ofText (escape s ++ t) = (ofText t).prepend (escape s) := by
  induction s with
  | nil => rfl
  | cons c s ih =>
    rw [escape_cons]
    split
    · next hc =>
      simp only [List.cons_append, List.nil_append, ofText, ih]
      rfl
    · next hc =>
      rw [List.append_assoc, List.singleton_append, ofText_cons (.of_not_isSpecial hc _), ih]
      rfl

theorem ofText_escape (s : List Char) : ofText (escape s) = ⟨escape s, []⟩ := by
  have h := ofText_escape_append s []
  rw [List.append_nil] at h
  simp [h, ofText, prepend]

theorem ofText_symbol_append (op : Operation) (t : List Char) :
    ofText (op.symbol ++ t) = (ofText t).behind op := by
  cases op <;> simp [Operation.symbol, ofText]

end Cut

theorem not_hasSeparator_escape (s : List Char) : ¬ hasSeparator (escape s) := by
  induction s with
  | nil => simp [hasSeparator]
  | cons c s ih =>
    rw [escape_cons]
    split
    · next hc => simpa [hasSeparator] using ih
    · next hc =>
      simpa [hasSeparator_cons (ne_backslash_of_not_isSpecial hc),
        ofSeparator?_of_not_isSpecial hc] using ih

namespace Condition

/-- The condition without the blanks around its name and its value. -/
def trimmed (c : Condition) : Condition :=
  { c with
    name := String.ofList (trim c.name.toList)
    value := String.ofList (trim c.value.toList) }

theorem ofText_render (c : Condition) :
    Cut.ofText c.render = ⟨escape c.name.toList, [(c.operation, escape c.value.toList)]⟩ := by
  rw [render, List.append_assoc, Cut.ofText_escape_append, Cut.ofText_symbol_append,
    Cut.ofText_escape]
  simp [Cut.prepend, Cut.behind]

theorem parse_render {c : Condition} (h : ¬ allBlank c.name.toList) :
    parse c.render = .ok c.trimmed := by
  have hname := unescape_escape c.name.toList
  have hvalue := unescape_escape c.value.toList
  have hne : trim (escape c.name.toList) ≠ [] := by
    rwa [ne_eq, trim_eq_nil, allBlank_of_unescape hname]
  refine parse_eq_ok.2 ⟨_, _, c.ofText_render, hne, ?_, ?_⟩
  · simpa [trimmed] using unescape_trim hname
  · simpa [trimmed] using unescape_trim hvalue

theorem not_hasSeparator_render (c : Condition) : ¬ hasSeparator c.render := by
  have hs : ¬ hasSeparator c.operation.symbol := by cases c.operation <;> decide
  have hw : WellEscaped c.operation.symbol := by
    cases c.operation <;> exact unescape_isSome_iff.1 (by decide)
  simp [render, List.append_assoc, hasSeparator_append (wellEscaped_escape _),
    hasSeparator_append hw, not_hasSeparator_escape, hs]

variable {text : List Char} {c : Condition}

theorem trimmed_of_parse (h : parse text = .ok c) : c.trimmed = c := by
  obtain ⟨front, back, -, -, hname, hvalue⟩ := parse_eq_ok.1 h
  have keep {s : List Char} {u : String} (hu : unescape (trim s) = some u.toList) :
      String.ofList (trim u.toList) = u := by
    have ht := unescape_trim hu
    rw [trim_trim, hu] at ht
    rw [← Option.some.inj ht, String.ofList_toList]
  obtain ⟨name, operation, value⟩ := c
  simp only [trimmed, keep hname, keep hvalue]

theorem not_allBlank_of_parse (h : parse text = .ok c) : ¬ allBlank c.name.toList := by
  obtain ⟨front, back, -, hne, hname, -⟩ := parse_eq_ok.1 h
  rwa [← allBlank_of_unescape hname, ← trim_eq_nil, trim_trim]

end Condition

/-! ### Trees -/

namespace Expression

/-- The tree without the blanks around its names and values. -/
def trimmed : Expression → Expression
  | leaf c => leaf c.trimmed
  | binary op left right => binary op left.trimmed right.trimmed
  | oneOf set => oneOf set

/-- The terminals that are written for a tree. -/
def spelling : Expression → List Terminal
  | leaf c => [.condition c.trimmed]
  | binary op left right =>
    .opening :: (left.spelling ++ .connective op :: right.spelling) ++ [.closing]
  | oneOf _ => []

theorem derives_spelling {e : Expression} (h : e.IsTree) :
    Derives .atom e.spelling e.trimmed := by
  induction e with
  | leaf c => exact .condition c.trimmed
  | binary op left right ihl ihr =>
    have hl := ihl h.1
    have hr := ihr h.2
    cases op with
    | or => exact .group ((Derives.filter_of_atom hl).snoc (.single hr))
    | and =>
      have hl : Derives (.chain .and) left.spelling left.trimmed := .single hl
      exact .group (.single (hl.snoc hr))
  | oneOf set => exact h.elim

end Expression

theorem Written.blank_append {ts : List Terminal} {text p : List Char} (hp : allBlank p)
    (h : Written ts text) : Written ts (p ++ text) := by
  cases h with
  | blank hs => exact .blank (allBlank_append.2 ⟨hp, hs⟩)
  | @cons t ts q s text hq hs rest =>
    rw [← List.append_assoc, ← List.append_assoc]
    exact .cons (allBlank_append.2 ⟨hp, hq⟩) hs rest

/-- The text of a tree, in front of more text. -/
theorem Expression.written_render {e : Expression} (h : e.IsTree)
    (hname : ∀ c ∈ e.leaves, ¬ allBlank c.name.toList) {ts : List Terminal} {text : List Char}
    (ht : Written ts text) : Written (e.spelling ++ ts) (e.render ++ text) := by
  induction e generalizing ts text with
  | leaf c =>
    have hc := Condition.parse_render (hname c (by simp [leaves]))
    exact .cons (p := []) rfl ⟨c.not_hasSeparator_render, hc⟩ ht
  | binary op left right ihl ihr =>
    have space : allBlank [' '] := rfl
    have hclose : Written (.closing :: ts) (')' :: text) :=
      .cons (p := []) (s := [')']) rfl rfl ht
    have hr := ihr h.2 (fun c hc => hname c (by simp [leaves, hc])) hclose
    have hop : Written (.connective op :: (right.spelling ++ .closing :: ts))
        ([' ', op.symbol, ' '] ++ (right.render ++ ')' :: text)) :=
      .cons (p := [' ']) (s := [op.symbol]) space rfl (hr.blank_append space)
    have hl := ihl h.1 (fun c hc => hname c (by simp [leaves, hc])) hop
    have hopen : Written (.opening :: (left.spelling ++ _)) ('(' :: (left.render ++ _)) :=
      .cons (p := []) (s := ['(']) rfl rfl hl
    simpa [spelling, render] using hopen
  | oneOf set => exact h.elim

/-! ### Reading the text of a tree -/

theorem ValueSet.mem_ofList {values : List String} {v : String} :
    v ∈ ValueSet.ofList values ↔ v ∈ values := by
  have hfold (s : ValueSet) :
      v ∈ values.foldl (fun s v => s.insert v) s ↔ v ∈ s ∨ v ∈ values := by
    induction values generalizing s with
    | nil => simp
    | cons w values ih =>
      rw [List.foldl_cons, ih, mem_insert, List.mem_cons]
      tauto
  rw [ofList, hfold]
  simp [not_mem_empty]

/-- A set is determined by its members, for there is one ascending list of them. -/
theorem ValueSet.eq_of_mem_iff {s t : ValueSet} (h : ∀ v, v ∈ s ↔ v ∈ t) : s = t := by
  obtain ⟨s, hs⟩ := s
  obtain ⟨t, ht⟩ := t
  have he : s = t := hs.eq_of_mem_iff ht h
  subst he
  rfl

/-- The conditions of an accepted filter were each read from a text. -/
theorem exists_parse_of_terminals {tokens : List Token} {ts : List Terminal} {c : Condition}
    (h : terminals tokens = .ok ts) (hc : c ∈ conditions ts) :
    ∃ text, Condition.parse text = .ok c := by
  induction tokens generalizing ts with
  | nil =>
    obtain rfl := Except.ok.inj h
    simp [conditions] at hc
  | cons token tokens ih =>
    obtain ⟨s, s', hs, hs', rfl⟩ := terminals_cons_eq_ok.1 h
    rw [conditions_append, List.mem_append] at hc
    rcases hc with hc | hc
    · cases token with
      | connective _ | opening | closing =>
        obtain rfl := Except.ok.inj hs
        simp at hc
      | operand text =>
        obtain ⟨cs, hcs, hs⟩ := bind_eq_ok.1 hs
        obtain rfl := pure_eq_ok.1 hs
        have hc : c ∈ cs := by
          simpa [conditions, List.filterMap_map, Function.comp_def, Terminal.condition?] using hc
        obtain ⟨piece, -, hpiece⟩ := exists_of_mem_mapM hcs hc
        exact ⟨piece, hpiece⟩
    · exact ih hs' hc

namespace Expression

theorem trimmed_eq_self {e : Expression} (h : ∀ c ∈ e.leaves, c.trimmed = c) : e.trimmed = e := by
  induction e with
  | leaf c => rw [trimmed, h c (by simp [leaves])]
  | binary op left right ihl ihr =>
    have hl := ihl fun c hc => h c (by simp [leaves, hc])
    have hr := ihr fun c hc => h c (by simp [leaves, hc])
    rw [trimmed, hl, hr]
  | oneOf set => rfl

/-- The text of a tree is read as the tree without the blanks around its names and values, or as the
set that stands for that tree. -/
theorem exists_parse_render {e : Expression} (h : e.IsTree)
    (hname : ∀ c ∈ e.leaves, ¬ allBlank c.name.toList) :
    ∃ ts set, parse e.render = .ok ((set.map oneOf).getD e.trimmed) ∧
      Faithful ts e.trimmed set := by
  have hd := Derives.filter_of_atom (derives_spelling h)
  have hw : Written e.spelling e.render := by
    simpa using written_render h hname (.blank allBlank_nil)
  obtain ⟨set, hset, hf⟩ :=
    ofTokens_of_derives (hw.terminals_ofText hd.alternates.separated) hd
  exact ⟨_, set, parse_eq_ok.2 ⟨_, set, hset, rfl⟩, hf⟩

/-- An accepted filter that is no set is a tree of conditions that have no blanks to lose, and does
not list the values of one property. -/
theorem tree_of_parse {text : List Char} {e : Expression} (h : parse text = .ok e)
    (he : ∀ set, e ≠ oneOf set) :
    e.IsTree ∧ (∀ c ∈ e.leaves, ¬ allBlank c.name.toList) ∧ e.trimmed = e ∧
      ¬ ∃ name, e.Lists name := by
  obtain ⟨tree, set, htree, rfl⟩ := parse_eq_ok.1 h
  obtain ⟨ts, hts, hf⟩ := faithful_of_ofTokens htree
  cases set with
  | some s => exact absurd rfl (he s)
  | none =>
    have hread : ∀ c ∈ tree.leaves, ∃ piece, Condition.parse piece = .ok c :=
      fun c hc => exists_parse_of_terminals hts (hf.leaves ▸ hc)
    refine ⟨hf.isTree, fun c hc => ?_, trimmed_eq_self fun c hc => ?_, hf.not_lists_of_none⟩
    · obtain ⟨piece, hpiece⟩ := hread c hc
      exact Condition.not_allBlank_of_parse hpiece
    · obtain ⟨piece, hpiece⟩ := hread c hc
      exact Condition.trimmed_of_parse hpiece

end Expression

/-- Whatever a tree has for names and values, as long as no name is blank, its text is read as the
tree with blanks taken from both ends of each, or, if this lists the values of one property, as the
set of these. A filter that was read as a tree and written out is read as the same tree. -/
theorem parse_render_inverse :
    (∀ e : Expression, e.IsTree → (∀ c ∈ e.leaves, ¬ allBlank c.name.toList) →
      ((¬ ∃ name, e.trimmed.Lists name) → Expression.parse e.render = .ok e.trimmed) ∧
      ∀ name, e.trimmed.Lists name →
        Expression.parse e.render =
          .ok (.oneOf ⟨name, .ofList (e.trimmed.leaves.map Condition.value)⟩)) ∧
    ∀ (text : List Char) (e : Expression), Expression.parse text = .ok e →
      (∀ set, e ≠ .oneOf set) → Expression.parse e.render = .ok e := by
  have hread : ∀ e : Expression, e.IsTree → (∀ c ∈ e.leaves, ¬ allBlank c.name.toList) →
      (¬ ∃ name, e.trimmed.Lists name) → Expression.parse e.render = .ok e.trimmed := by
    intro e ht hname hn
    obtain ⟨ts, set, hparse, hf⟩ := Expression.exists_parse_render ht hname
    cases set with
    | none => exact hparse
    | some s => exact absurd ⟨s.name, hf.lists_of_some.1⟩ hn
  refine ⟨fun e ht hname => ⟨hread e ht hname, fun name hl => ?_⟩, fun text e h he => ?_⟩
  · obtain ⟨ts, set, hparse, hf⟩ := Expression.exists_parse_render ht hname
    cases set with
    | none => exact absurd ⟨name, hl⟩ hf.not_lists_of_none
    | some s =>
      obtain ⟨hs, hmem⟩ := hf.lists_of_some
      obtain rfl : s.name = name := hs.name_eq hf.isTree hl
      have hvalues : s.values = .ofList (e.trimmed.leaves.map Condition.value) :=
        ValueSet.eq_of_mem_iff fun v => by rw [hmem, ValueSet.mem_ofList, List.mem_map]
      rw [hparse, ← hvalues]
      rfl
  · obtain ⟨ht, hname, htrim, hn⟩ := Expression.tree_of_parse h he
    have hself := hread e ht hname (by rwa [htrim])
    rwa [htrim] at hself

theorem nested_tree_is_read_back :
    let a : Condition := ⟨" A(", .notEqual, "x|y "⟩
    let b : Condition := ⟨"B!", .contains, "\\"⟩
    let c : Condition := ⟨"C", .equal, " "⟩
    let e : Expression := .binary .and (.leaf a) (.binary .or (.leaf b) (.leaf c))
    let l : Expression := .binary .or (.leaf c) (.leaf c)
    let f : Expression := .binary .and (.leaf ⟨"A", .equal, "1"⟩)
      (.binary .or (.leaf ⟨"B", .notEqual, "2"⟩) (.leaf ⟨"(", .contains, "3"⟩))
    Expression.parse e.render = .ok e.trimmed ∧
      Expression.parse l.render =
        .ok (.oneOf ⟨"C", .ofList (l.trimmed.leaves.map Condition.value)⟩) ∧
      Expression.parse f.render = .ok f := by
  intro a b c e l f
  have he : ¬ ∃ name, e.trimmed.Lists name := by
    rintro ⟨name, hno, -⟩
    exact hno (by decide)
  have hl : l.trimmed.Lists "C" := ⟨by decide, by decide⟩
  have hf : Expression.parse " A = 1 & (B!=2| \\( ~3 )".toList = .ok f := by decide
  exact ⟨(parse_render_inverse.1 e ⟨trivial, trivial, trivial⟩ (by decide)).1 he,
    (parse_render_inverse.1 l ⟨trivial, trivial⟩ (by decide)).2 "C" hl,
    parse_render_inverse.2 _ f hf nofun⟩

end Proctor.Filter
