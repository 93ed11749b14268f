import Proctor.Proofs.Filter.Display
import Proctor.Proofs.Filter.Rejection

/-! # Conditions with nothing but blanks between them

Conditions that are written one after the other make a single operand. It is cut once between every
two of them, at the last blank before the next operator, and each piece is read as a condition. What
is then missing is a connective. -/

namespace Proctor.Filter
open Proctor.Text

/-! ### Where an operand is cut -/

/-- An escaped text is cut at its last blank, if something stands on both sides of it. -/
theorem gap?_escape {a b : List Char} {c : Char} (hc : isBlank c) (hb : ∀ d ∈ b, ¬ isBlank d)
    (hne : b ≠ []) (ha : ¬ allBlank a) :
    gap? (escape (a ++ c :: b)) = some (escape a, escape (c :: b)) := by
  have htext : escape (a ++ c :: b) = escape a ++ c :: escape b := by
    rw [escape_append, escape_cons_blank hc]
  have hend : trimEnd (escape a ++ c :: escape b) = escape a ++ c :: escape b := by
    rw [← htext, trimEnd_eq_self, getLast?_escape, List.getLast?_append_of_ne_nil _ (by simp),
      List.getLast?_cons_of_ne_nil hne]
    exact fun d hd => hb d (List.mem_of_getLast? hd)
  have hname : (escape a ++ c :: escape b).reverse.takeWhile (fun d => !isBlank d) =
      (escape b).reverse := takeWhile_reverse_append_cons hc (not_isBlank_escape hb)
  have hlength : (escape a ++ c :: escape b).length - (escape b).reverse.length - 1 =
      (escape a).length := by
    simp only [List.length_append, List.length_cons, List.length_reverse]
    omega
  have hsome : (escape b).reverse.length < (escape a ++ c :: escape b).length := by
    simp only [List.length_append, List.length_cons, List.length_reverse]
    omega
  have hvalue : allBlank (escape a) = false :=
    Bool.eq_false_iff.2 fun hblank => ha (allBlank_escape.1 hblank)
  simp only [gap?, htext, hend, hname, hlength, List.take_left, List.drop_left, hsome, hvalue,
    decide_true, Bool.not_false, Bool.and_true, if_true, escape_cons_blank hc]

/-! ### Conditions side by side -/

/-- A condition that has a name, and no blanks at the ends of its name or value. -/
structure Condition.Tidy (c : Condition) : Prop where
  name_ne : c.name.toList ≠ []
  trim_name : trim c.name.toList = c.name.toList
  trim_value : trim c.value.toList = c.value.toList

/-- Conditions as they are written, with the given blanks before each one but the first. -/
def juxtaposed (c : Condition) : List (List Char × Condition) → List Char
  | [] => c.render
  | (blanks, d) :: rest => c.render ++ (blanks ++ juxtaposed d rest)

/-- What follows each operator up to the next one. -/
def stretches (c : Condition) : List (List Char × Condition) → List (Operation × List Char)
  | [] => [(c.operation, escape c.value.toList)]
  | (blanks, d) :: rest =>
    (c.operation, escape (c.value.toList ++ (blanks ++ d.name.toList))) :: stretches d rest

namespace Condition
variable {c d : Condition}

theorem Tidy.not_allBlank_name (h : c.Tidy) : ¬ allBlank c.name.toList := by
  rw [← trim_eq_nil, h.trim_name]
  exact h.name_ne

theorem Tidy.not_allBlank_value (h : c.Tidy) (hv : c.value ≠ "") : ¬ allBlank c.value.toList := by
  rw [← trim_eq_nil, h.trim_value]
  simpa using hv

theorem Tidy.wellEscaped_render (h : c.Tidy) : WellEscaped c.render :=
  wellEscaped_of_parse (parse_render h.not_allBlank_name)

theorem Tidy.trim_render (h : c.Tidy) : trim c.render = c.render := by
  obtain ⟨hname, -⟩ := trim_eq_self.1 h.trim_name
  obtain ⟨-, hvalue⟩ := trim_eq_self.1 h.trim_value
  refine trim_eq_self.2 ⟨?_, ?_⟩
  · have hne : escape c.name.toList ≠ [] := fun hnil => h.not_allBlank_name (by
      rw [← allBlank_escape, hnil]
      rfl)
    rw [render, List.append_assoc, List.head?_append_of_ne_nil _ hne]
    exact not_isBlank_head?_escape hname
  · rw [render, List.getLast?_append, getLast?_escape]
    cases hlast : c.value.toList.getLast? with
    | some e => simpa [hlast] using hvalue e hlast
    | none =>
      -- an empty value leaves the operator at the end
      rw [List.getLast?_append]
      cases c.operation <;> simp [Operation.symbol] <;> decide

theorem Tidy.render_ne_nil (h : c.Tidy) : c.render ≠ [] := by
  rw [← h.trim_render]
  exact trim_ne_nil_of_parse (parse_render h.not_allBlank_name)

/-- Between the operators of two conditions stands a blank, with something else on both sides, after
which there is none. -/
theorem Tidy.exists_last_blank (hc : c.Tidy) (hd : d.Tidy) (hv : c.value ≠ "")
    {blanks : List Char} (hne : blanks ≠ []) (hb : allBlank blanks) :
    ∃ a x b, c.value.toList ++ (blanks ++ d.name.toList) = a ++ x :: b ∧ isBlank x ∧
      (∀ y ∈ b, ¬ isBlank y) ∧ b ≠ [] ∧ ¬ allBlank a := by
  have hblank : ∃ x ∈ blanks ++ d.name.toList, isBlank x := by
    obtain ⟨x, hx⟩ := List.exists_mem_of_ne_nil _ hne
    exact ⟨x, by simp [hx], List.all_eq_true.1 hb x hx⟩
  obtain ⟨a, x, b, hsplit, hx, hword⟩ := Text.exists_last_blank hblank
  refine ⟨c.value.toList ++ a, x, b, by rw [hsplit, List.append_assoc], hx, hword, ?_, ?_⟩
  · rintro rfl
    -- the name of the second condition would end in the blank
    have hlast : d.name.toList.getLast? = some x := by
      rw [← List.getLast?_append_of_ne_nil blanks hd.name_ne, hsplit, List.getLast?_concat]
    exact (trim_eq_self.1 hd.trim_name).2 x hlast hx
  · rw [allBlank_append]
    exact fun ha => hc.not_allBlank_value hv ha.1

/-- A piece that is cut off between blanks is read as a condition. -/
theorem parse_piece {name : List Char} (h : ¬ allBlank name) (op : Operation)
    (value : List Char) :
    ∃ d, parse (trim (escape name ++ op.symbol ++ escape value)) = .ok d := by
  have hparse := parse_render (c := ⟨String.ofList name, op, String.ofList value⟩)
    (by simpa using h)
  have htrim := parse_trim hparse
  simp only [render, String.toList_ofList] at htrim
  exact ⟨_, htrim⟩

end Condition

section
variable {c : Condition} {rest : List (List Char × Condition)}

theorem ofText_juxtaposed (hb : ∀ part ∈ rest, allBlank part.1) :
    Cut.ofText (juxtaposed c rest) = ⟨escape c.name.toList, stretches c rest⟩ := by
  induction rest generalizing c with
  | nil => exact c.ofText_render
  | cons part rest ih =>
    obtain ⟨blanks, d⟩ := part
    obtain ⟨hblank, hrest⟩ := List.forall_mem_cons.1 hb
    rw [juxtaposed, Condition.render, List.append_assoc, List.append_assoc,
      Cut.ofText_escape_append, Cut.ofText_symbol_append, Cut.ofText_escape_append,
      Cut.ofText_blank_append hblank, ih hrest]
    simp [Cut.prepend, Cut.behind, stretches, escape_append, escape_of_blank hblank]

theorem wellEscaped_juxtaposed (htidy : ∀ d ∈ c :: rest.map Prod.snd, d.Tidy)
    (hb : ∀ part ∈ rest, allBlank part.1) : WellEscaped (juxtaposed c rest) := by
  induction rest generalizing c with
  | nil => exact (htidy c (by simp)).wellEscaped_render
  | cons part rest ih =>
    obtain ⟨hblank, hrest⟩ := List.forall_mem_cons.1 hb
    obtain ⟨hc, htail⟩ := List.forall_mem_cons.1 htidy
    exact hc.wellEscaped_render.append ((WellEscaped.of_blank hblank).append (ih htail hrest))

theorem not_hasSeparator_juxtaposed (htidy : ∀ d ∈ c :: rest.map Prod.snd, d.Tidy)
    (hb : ∀ part ∈ rest, allBlank part.1) : ¬ hasSeparator (juxtaposed c rest) := by
  induction rest generalizing c with
  | nil => exact c.not_hasSeparator_render
  | cons part rest ih =>
    obtain ⟨hblank, hrest⟩ := List.forall_mem_cons.1 hb
    obtain ⟨hc, htail⟩ := List.forall_mem_cons.1 htidy
    simp [juxtaposed, hasSeparator_append hc.wellEscaped_render,
      hasSeparator_append (.of_blank hblank), c.not_hasSeparator_render,
      not_hasSeparator_of_blank hblank, ih htail hrest]

theorem trim_juxtaposed (htidy : ∀ d ∈ c :: rest.map Prod.snd, d.Tidy) :
    juxtaposed c rest ≠ [] ∧ trim (juxtaposed c rest) = juxtaposed c rest := by
  induction rest generalizing c with
  | nil =>
    have hc := htidy c (by simp)
    exact ⟨hc.render_ne_nil, hc.trim_render⟩
  | cons part rest ih =>
    obtain ⟨hc, htail⟩ := List.forall_mem_cons.1 htidy
    obtain ⟨hne, htrim⟩ := ih htail
    obtain ⟨hhead, -⟩ := trim_eq_self.1 hc.trim_render
    obtain ⟨-, hlast⟩ := trim_eq_self.1 htrim
    refine ⟨by simp [juxtaposed, hc.render_ne_nil], trim_eq_self.2 ⟨?_, ?_⟩⟩
    · rwa [juxtaposed, List.head?_append_of_ne_nil _ hc.render_ne_nil]
    · rwa [juxtaposed, ← List.append_assoc, List.getLast?_append_of_ne_nil _ hne]

/-- Each of the conditions comes out as a piece that is read as a condition. -/
theorem exists_mapM_stretches {name : List Char} (hname : ¬ allBlank name)
    (htidy : ∀ d ∈ c :: rest.map Prod.snd, d.Tidy)
    (hb : ∀ part ∈ rest, part.1 ≠ [] ∧ allBlank part.1)
    (hv : ∀ d ∈ (c :: rest.map Prod.snd).dropLast, d.value ≠ "") :
    ∃ cs, (Cut.pieces (escape name) (stretches c rest)).mapM Condition.parse = .ok cs ∧
      cs.length = rest.length + 1 := by
  induction rest generalizing c name with
  | nil =>
    obtain ⟨d, hd⟩ := Condition.parse_piece hname c.operation c.value.toList
    refine ⟨[d], ?_, rfl⟩
    rw [stretches, Cut.pieces, List.mapM_cons, hd]
    rfl
  | cons part rest ih =>
    obtain ⟨blanks, d⟩ := part
    obtain ⟨⟨hne, hblank⟩, hrest⟩ := List.forall_mem_cons.1 hb
    obtain ⟨hc, htail⟩ := List.forall_mem_cons.1 htidy
    simp only [List.map_cons, List.dropLast_cons_cons, List.forall_mem_cons] at hv
    obtain ⟨a, x, b, hsplit, hx, hword, hbne, ha⟩ :=
      hc.exists_last_blank (htail d (by simp)) hv.1 hne hblank
    have hnext : ¬ allBlank (x :: b) := by
      obtain ⟨y, hy⟩ := List.exists_mem_of_ne_nil _ hbne
      exact fun hall => hword y hy (List.all_eq_true.1 hall y (by simp [hy]))
    obtain ⟨first, hfirst⟩ := Condition.parse_piece hname c.operation a
    obtain ⟨cs, hcs, hlength⟩ := ih hnext htail hrest hv.2
    refine ⟨first :: cs, ?_, by simp [hlength]⟩
    have hpieces : Cut.pieces (escape name) (stretches c ((blanks, d) :: rest)) =
        trim (escape name ++ c.operation.symbol ++ escape a) ::
          Cut.pieces (escape (x :: b)) (stretches d rest) := by
      cases rest <;> simp only [stretches, Cut.pieces, hsplit, gap?_escape hx hword hbne ha]
    rw [hpieces, List.mapM_cons, hfirst, ok_bind, hcs]
    rfl

end

/-- Conditions that are written one after the other with nothing but blanks between them lack a
connective, whatever characters and inner blanks they have. Only the last one may have an empty
value: no operand is cut where nothing stands between an operator and the next name. -/
theorem juxtaposed_conditions_lack_connective {c : Condition}
    {rest : List (List Char × Condition)} (hne : rest ≠ [])
    (htidy : ∀ d ∈ c :: rest.map Prod.snd, d.Tidy)
    (hb : ∀ part ∈ rest, part.1 ≠ [] ∧ allBlank part.1)
    (hv : ∀ d ∈ (c :: rest.map Prod.snd).dropLast, d.value ≠ "") :
    Expression.parse (juxtaposed c rest) = .error .missingOperator := by
  have hblank : ∀ part ∈ rest, allBlank part.1 := fun part hpart => (hb part hpart).2
  obtain ⟨htext, htrim⟩ := trim_juxtaposed htidy
  have htokens : Token.ofText (juxtaposed c rest) = [.operand (juxtaposed c rest)] := by
    rw [Token.ofText_plain (wellEscaped_juxtaposed htidy hblank)
      (not_hasSeparator_juxtaposed htidy hblank), Token.operand?, htrim]
    simp [htext]
  obtain ⟨cs, hcs, hlength⟩ :=
    exists_mapM_stretches (htidy c (by simp)).not_allBlank_name htidy hb hv
  have hsplit : splitJuxtaposed (juxtaposed c rest) =
      Cut.pieces (escape c.name.toList) (stretches c rest) := by
    rw [splitJuxtaposed, ofText_juxtaposed hblank]
  rw [← hsplit] at hcs
  have hterminals : terminals (Token.ofText (juxtaposed c rest)) =
      .ok (cs.map .condition) := by
    rw [htokens]
    exact terminals_cons_eq_ok.2
      ⟨_, _, Terminal.ofToken_operand.2 ⟨cs, hcs, rfl⟩, rfl, List.append_nil _⟩
  obtain ⟨xs, hxs, hcount⟩ := exists_operandsLeft_conditions cs
  have hrest := List.length_pos_iff.2 hne
  have hempty : ¬ Token.hasEmptyParenthesis (Token.ofText (juxtaposed c rest)) := by
    simp [htokens, Token.hasEmptyParenthesis]
  exact parse_eq_error hempty hterminals (.inr ⟨xs, hxs, faultOf?_of_two_le (by omega)⟩)

theorem inner_blanks_do_not_connect :
    Expression.parse "My \\(Name!=two words \tB\\~~a\\=b\u3000C d=".toList =
      .error .missingOperator := by
  let a : Condition := ⟨"My (Name", .notEqual, "two words"⟩
  let b : Condition := ⟨"B~", .contains, "a=b"⟩
  let c : Condition := ⟨"C d", .equal, ""⟩
  have htext : juxtaposed a [([' ', '\t'], b), (['\u3000'], c)] =
      "My \\(Name!=two words \tB\\~~a\\=b\u3000C d=".toList := by decide
  have htidy : ∀ d ∈ [a, b, c], d.Tidy := by
    simp only [List.forall_mem_cons]
    exact ⟨⟨by decide, by decide, by decide⟩, ⟨by decide, by decide, by decide⟩,
      ⟨by decide, by decide, by decide⟩, nofun⟩
  rw [← htext]
  exact juxtaposed_conditions_lack_connective (by decide) htidy (by decide) (by decide)

end Proctor.Filter
