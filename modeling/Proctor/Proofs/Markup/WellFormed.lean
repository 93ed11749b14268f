import Proctor.Proofs.Markup.Tree

/-! # Well-formed documents

A document whose tags, texts and other pieces are each well-formed is read as its own events. -/

namespace Proctor.Markup
open Proctor.Text

/-! ### The pieces of a document -/

/-- A name has at least one character, and none that means something in a tag. -/
def IsName (name : List Char) : Prop :=
  name ≠ [] ∧ ∀ c ∈ name, ¬ isBlank c ∧ ¬ IsQuote c ∧ c ∉ ['<', '>', '/', '!', '?', '=']

instance (c : Char) : Decidable (IsQuote c) := inferInstanceAs (Decidable (_ ∨ _))

instance (name : List Char) : Decidable (IsName name) :=
  @instDecidableAnd _ _ _ (List.decidableBAll _ name)

/-- The text of a tag: outside of quotes there is no `>` in it, and every quote is closed. -/
inductive TagText : List Char → Prop
  | nil : TagText []
  | plain {c : Char} {s : List Char} (hgt : c ≠ '>') (hquote : ¬ IsQuote c) (h : TagText s) :
      TagText (c :: s)
  | quoted {q : Char} {value s : List Char} (hquote : IsQuote q) (hvalue : q ∉ value)
      (h : TagText s) : TagText (q :: (value ++ q :: s))

/-- What stands in a start tag, and in a tag that closes itself in front of its `/`. -/
structure IsTag (content : List Char) : Prop where
  name : IsName (tagName content)
  text : TagText content
  last : content.getLast? ≠ some '/'

/-- What can stand between tags: text, comments, CDATA sections and processing instructions, each of
which ends where its end mark stands first. -/
def Event.IsPlain : Event → Prop
  | text content => content ≠ [] ∧ '<' ∉ content
  | comment content => ¬ "-->".toList <:+: content
  | cdata content => ¬ "]]>".toList <:+: content
  | instruction content => ¬ ['?', '>'] <:+: content ∧ content.head? ≠ some '>'
  | start _ | empty _ | close _ | doctype _ => False

/-- A run of text of its own. -/
def Node.text? : Node → Option (List Char)
  | leaf (.text content) _ => some content
  | leaf _ _ | element _ _ | empty _ => none

mutual

def Node.WellFormed : Node → Prop
  | .element content children => IsTag content ∧ WellFormedNodes children
  | .empty content => IsTag content
  | .leaf e _ => e.IsPlain

/-- Two runs of text do not stand one right behind the other: they would be one. -/
def WellFormedNodes : List Node → Prop
  | [] => True
  | node :: nodes =>
    node.WellFormed ∧ WellFormedNodes nodes ∧
      (node.text?.isSome → ∀ other ∈ nodes.head?, other.text? = none)

end

section
variable {content : List Char} {children nodes : List Node} {node : Node}

@[simp] theorem wellFormed_element :
    (Node.element content children).WellFormed ↔ IsTag content ∧ WellFormedNodes children := by
  rw [Node.WellFormed]

@[simp] theorem wellFormed_empty : (Node.empty content).WellFormed ↔ IsTag content := by
  rw [Node.WellFormed]

@[simp] theorem wellFormed_leaf {e : Event} {plain : e.isTag = false} :
    (Node.leaf e plain).WellFormed ↔ e.IsPlain := by rw [Node.WellFormed]

@[simp] theorem wellFormedNodes_nil : WellFormedNodes [] := by
  rw [WellFormedNodes]
  trivial

@[simp] theorem wellFormedNodes_cons :
    WellFormedNodes (node :: nodes) ↔ node.WellFormed ∧ WellFormedNodes nodes ∧
      (node.text?.isSome → ∀ other ∈ nodes.head?, other.text? = none) := by
  rw [WellFormedNodes]

end

/-- The text of a document, in which blanks may follow the name in an end tag. -/
inductive Spelled : List Event → List Char → Prop
  | nil : Spelled [] []
  | close {name blanks s : List Char} {events : List Event} (hblanks : ∀ c ∈ blanks, isBlank c)
      (h : Spelled events s) :
      Spelled (.close name :: events) ('<' :: '/' :: (name ++ blanks ++ '>' :: s))
  | other {e : Event} {s : List Char} {events : List Event} (h : Spelled events s) :
      Spelled (e :: events) (e.render ++ s)

theorem spelled_render (events : List Event) : Spelled events (render events) := by
  induction events with
  | nil => exact .nil
  | cons e events ih => exact .other ih

/-! ### The pieces end where they are meant to end -/

theorem tagEnd_value {q : Char} {value : List Char} (hvalue : q ∉ value) (s : List Char) :
    tagEnd (some q) (value ++ q :: s) =
      (tagEnd none s).map fun (content, rest) => (value ++ q :: content, rest) := by
  induction value with
  | nil => simp [tagEnd]
  | cons c value ih =>
    obtain ⟨hc, hvalue⟩ : q ≠ c ∧ q ∉ value := by simpa using hvalue
    simp [tagEnd, Ne.symm hc, ih hvalue, Function.comp_def]

theorem TagText.delimited {s : List Char} (h : TagText s) : Delimited (tagEnd none) ['>'] s := by
  intro rest
  induction h with
  | nil => simp [tagEnd]
  | @plain c s hgt hquote _ ih =>
    have hafter : quoteAfter none c = none := if_neg (by simpa [IsQuote] using hquote)
    rw [List.cons_append, List.cons_append, tagEnd_cons fun _ => hgt, hafter, ih]
    rfl
  | @quoted q value s hquote hvalue _ ih =>
    have hgt : q ≠ '>' := by rcases hquote with rfl | rfl <;> decide
    have hafter : quoteAfter none q = some q := if_pos (by simpa [IsQuote] using hquote)
    rw [List.cons_append, List.cons_append, tagEnd_cons fun _ => hgt, hafter, List.append_assoc,
      List.append_assoc, List.cons_append, tagEnd_value hvalue, ← List.append_assoc, ih]
    rfl

theorem TagText.append {s t : List Char} (hs : TagText s) (ht : TagText t) :
    TagText (s ++ t) := by
  induction hs with
  | nil => exact ht
  | plain hgt hquote _ ih => exact .plain hgt hquote ih
  | quoted hquote hvalue _ ih => simpa using TagText.quoted hquote hvalue ih

/-- Characters without a meaning between quotes and angle brackets. -/
theorem tagText_of_forall {s : List Char} (h : ∀ c ∈ s, c ≠ '>' ∧ ¬ IsQuote c) : TagText s := by
  induction s with
  | nil => exact .nil
  | cons c s ih =>
    obtain ⟨hc, hs⟩ := List.forall_mem_cons.1 h
    exact .plain hc.1 hc.2 (ih hs)

theorem IsName.tagText {name : List Char} (h : IsName name) : TagText name := by
  refine tagText_of_forall fun c hc => ⟨?_, (h.2 c hc).2.1⟩
  rintro rfl
  exact (h.2 _ hc).2.2 (by decide)

/-- A tag may have nothing but its name. -/
theorem IsName.isTag {name : List Char} (h : IsName name) : IsTag name := by
  have hself : tagName name = name := List.takeWhile_eq_self_iff.2 fun c hc => by
    simpa using (h.2 c hc).1
  refine ⟨hself.symm ▸ h, h.tagText, fun hlast => ?_⟩
  exact (h.2 '/' (List.mem_of_getLast? hlast)).2.2 (by decide)

/-- A mark that no end of it begins is found first behind a text without it. -/
theorem delimited_of_no_mark {mark content : List Char}
    (hmark : ∀ k < mark.length, 0 < k → ¬ mark.drop k <+: mark) (h : ¬ mark <:+: content) :
    Delimited (splitAt? mark) mark content := by
  intro rest
  induction content with
  | nil => exact splitAt?_mark_append mark rest
  | cons c content ih =>
    have hnot : ¬ mark <+: c :: (content ++ mark ++ rest) := by
      rintro ⟨t, ht⟩
      rcases Nat.lt_or_ge (content.length + 1) mark.length with hlt | hge
      · -- the mark would begin in the content and end in the next mark
        have hdrop := congrArg (List.drop (content.length + 1)) ht
        have hoverlap : mark.drop (content.length + 1) ++ t = mark ++ rest := by
          rwa [List.drop_append_of_le_length hlt.le, List.append_assoc, List.drop_succ_cons,
            List.drop_left] at hdrop
        refine hmark _ hlt (Nat.succ_pos _) ?_
        exact List.prefix_of_prefix_length_le ⟨t, hoverlap⟩ (List.prefix_append mark rest) (by simp)
      · refine h (List.IsPrefix.isInfix ?_)
        exact List.prefix_of_prefix_length_le ⟨t, ht⟩ ⟨mark ++ rest, by simp⟩ (by simpa using hge)
    have hrest : ¬ mark <:+: content := fun hi => h (hi.trans (List.suffix_cons c content).isInfix)
    rw [List.cons_append, List.cons_append, splitAt?_cons hnot, ih hrest]
    rfl

/-! ### Every piece is read as itself -/

theorem IsName.opensTag {name rest : List Char} (h : IsName name) : OpensTag (name ++ rest) := by
  obtain ⟨c, name, rfl⟩ := List.exists_cons_of_ne_nil h.1
  obtain ⟨-, -, hmeaning⟩ := h.2 c (by simp)
  rintro _ ⟨⟩
  refine ⟨?_, ?_, ?_⟩ <;> rintro rfl <;> exact hmeaning (by decide)

theorem IsTag.opensTag {content : List Char} (h : IsTag content) (rest : List Char) :
    OpensTag (content ++ rest) := by
  have hsplit : content = tagName content ++ content.dropWhile fun c => !isBlank c :=
    List.takeWhile_append_dropWhile.symm
  rw [hsplit, List.append_assoc]
  exact h.name.opensTag

theorem endName_append {name blanks : List Char} (hname : IsName name)
    (hblanks : ∀ c ∈ blanks, isBlank c) : endName (name ++ blanks) = name := by
  obtain ⟨front, c, rfl⟩ := List.eq_nil_or_concat' name |>.resolve_left hname.1
  obtain ⟨hc, -⟩ := hname.2 c (by simp)
  have hkept : (front ++ [c] ++ blanks).reverse.dropWhile isBlank = c :: front.reverse := by
    rw [List.reverse_append, List.dropWhile_append_of_pos (by simpa using hblanks)]
    simp [hc]
  simp only [endName, hkept]
  simp

section
variable {opened opened' : Opened} {nodes : List Node} {events : List Event} {s : List Char}

theorem IsTag.stands_start {content : List Char} (h : IsTag content) (opened : Opened) :
    Stands opened (.start content) (tagName content :: opened) :=
  .start h.text.delimited (by simpa using h.opensTag []) h.last

theorem IsTag.stands_empty {content : List Char} (h : IsTag content) (opened : Opened) :
    Stands opened (.empty content) opened := by
  refine .empty (h.text.append (.plain ?_ ?_ .nil)).delimited (h.opensTag _) <;>
    simp [IsQuote]

theorem IsName.stands_close {name : List Char} (h : IsName name) (opened : Opened) :
    Stands (name :: opened) (.close name) opened := by
  refine .close h.tagText.delimited ?_
  have hend : endName (name ++ []) = name := endName_append h nofun
  rwa [List.append_nil] at hend

theorem Event.IsPlain.stands {e : Event} (h : e.IsPlain) (opened : Opened) :
    Stands opened e opened := by
  cases e with
  | text content => exact .text h.1 h.2
  | comment content => exact .comment (delimited_of_no_mark (by decide) h)
  | cdata content => exact .cdata (delimited_of_no_mark (by decide) h)
  | instruction content => exact .instruction (delimited_of_no_mark (by decide) h.1) h.2
  | start _ | empty _ | close _ | doctype _ => exact h.elim

theorem Node.not_isText_of_text? {node : Node} (h : node.text? = none) (rest : List Event) :
    ∀ f ∈ (node.events ++ rest).head?, ¬ f.isText := by
  cases node with
  | element content children =>
    rw [events_element]
    rintro _ ⟨⟩
    nofun
  | empty content =>
    rw [events_empty]
    rintro _ ⟨⟩
    nofun
  | leaf e plain =>
    rw [events_leaf]
    rintro _ ⟨⟩ htext
    cases e with
    | text content => cases h
    | start _ | empty _ | close _ | comment _ | cdata _ | instruction _ | doctype _ => cases htext

theorem not_isText_eventsOf (hnodes : ∀ node ∈ nodes.head?, node.text? = none)
    (hrest : ∀ f ∈ events.head?, ¬ f.isText) :
    ∀ f ∈ (eventsOf nodes ++ events).head?, ¬ f.isText := by
  cases nodes with
  | nil => simpa using hrest
  | cons node nodes =>
    rw [eventsOf_cons, List.append_assoc]
    exact Node.not_isText_of_text? (hnodes node rfl) _

mutual

theorem legible_events_append : ∀ (node : Node) {opened opened' : Opened} {events : List Event},
    node.WellFormed → Legible opened events opened' →
    (node.text?.isSome → ∀ f ∈ events.head?, ¬ f.isText) →
    Legible opened (node.events ++ events) opened'
  | .element content children, opened, opened', events, h, hrest, _ => by
    obtain ⟨htag, hchildren⟩ := wellFormed_element.1 h
    have hclose : Legible (tagName content :: opened) (.close (tagName content) :: events) opened' :=
      .cons (htag.name.stands_close opened) hrest nofun
    rw [events_element, List.cons_append, List.append_assoc]
    refine .cons (htag.stands_start opened) ?_ nofun
    exact legible_eventsOf_append children hchildren hclose (by rintro _ ⟨⟩; nofun)
  | .empty content, opened, opened', events, h, hrest, _ => by
    rw [events_empty]
    exact .cons ((wellFormed_empty.1 h).stands_empty opened) hrest nofun
  | .leaf e plain, opened, opened', events, h, hrest, hsep => by
    rw [events_leaf]
    refine .cons ((wellFormed_leaf.1 h).stands opened) hrest fun htext => hsep ?_
    cases e with
    | text content => rfl
    | start _ | empty _ | close _ | comment _ | cdata _ | instruction _ | doctype _ => cases htext

theorem legible_eventsOf_append : ∀ (nodes : List Node) {opened opened' : Opened}
    {events : List Event}, WellFormedNodes nodes → Legible opened events opened' →
    (∀ f ∈ events.head?, ¬ f.isText) → Legible opened (eventsOf nodes ++ events) opened'
  | [], opened, opened', events, _, hrest, _ => by simpa using hrest
  | node :: nodes, opened, opened', events, h, hrest, hsep => by
    obtain ⟨hnode, hnodes, hadjacent⟩ := wellFormedNodes_cons.1 h
    rw [eventsOf_cons, List.append_assoc]
    exact legible_events_append node hnode (legible_eventsOf_append nodes hnodes hrest hsep)
      fun htext => not_isText_eventsOf (hadjacent htext) hsep

end

theorem legible_eventsOf (h : WellFormedNodes nodes) (opened : Opened) :
    Legible opened (eventsOf nodes) opened := by
  simpa using legible_eventsOf_append nodes h (.nil opened) (by simp)

mutual

/-- The end tags of a document have the names of its elements. -/
theorem isName_of_close_mem : ∀ {node : Node} {name : List Char}, node.WellFormed →
    .close name ∈ node.events → IsName name
  | .element content children, name, h, hmem => by
    obtain ⟨htag, hchildren⟩ := wellFormed_element.1 h
    have hmem : .close name ∈ eventsOf children ∨ name = tagName content := by simpa using hmem
    rcases hmem with hmem | rfl
    · exact isName_of_close_mem_nodes hchildren hmem
    · exact htag.name
  | .empty content, name, h, hmem => by simp at hmem
  | .leaf e plain, name, h, hmem => by
    obtain rfl : .close name = e := by simpa using hmem
    cases plain

theorem isName_of_close_mem_nodes : ∀ {nodes : List Node} {name : List Char},
    WellFormedNodes nodes → .close name ∈ eventsOf nodes → IsName name
  | [], name, _, hmem => by simp at hmem
  | node :: nodes, name, h, hmem => by
    obtain ⟨hnode, hnodes, -⟩ := wellFormedNodes_cons.1 h
    rw [eventsOf_cons, List.mem_append] at hmem
    exact hmem.elim (isName_of_close_mem hnode) (isName_of_close_mem_nodes hnodes)

end

/-! ### Reading a document -/

theorem Spelled.atMarkup (hs : Spelled events s) (h : Legible opened events opened')
    (hhead : ∀ e ∈ events.head?, ¬ e.isText) : AtMarkup s := by
  cases hs with
  | nil => exact atMarkup_nil
  | close _ _ =>
    rintro _ ⟨⟩
    rfl
  | other _ =>
    cases h with
    | cons first _ _ => exact atMarkup_render first (hhead _ rfl) _

/-- An end tag is read as it was meant, whatever blanks stand behind its name. -/
theorem readFrom_close {name blanks : List Char} (hname : IsName name)
    (hblanks : ∀ c ∈ blanks, isBlank c) (opened : Opened) (s : List Char) :
    readFrom (name :: opened) ('<' :: '/' :: (name ++ blanks ++ '>' :: s)) =
      { readFrom opened s with events := .close name :: (readFrom opened s).events } := by
  have hplain : TagText blanks := tagText_of_forall fun c hc => by
    have hblank := hblanks c hc
    constructor
    · rintro rfl
      exact absurd hblank (by decide)
    · rintro (rfl | rfl) <;> exact absurd hblank (by decide)
  have hscan : tagEnd none (name ++ blanks ++ '>' :: s) = some (name ++ blanks, s) := by
    simpa using (hname.tagText.append hplain).delimited s
  have hnext : next (name :: opened) ('<' :: '/' :: (name ++ blanks ++ '>' :: s)) =
      .ok ⟨.close name, opened, s⟩ := by
    simp only [next, endTag, hscan, endName_append hname hblanks, if_true]
  rw [readFrom_cons (List.cons_ne_nil _ _) hnext]

theorem Legible.readFrom_spelled (h : Legible opened events opened') (hs : Spelled events s)
    (hnames : ∀ name, .close name ∈ events → IsName name) :
    readFrom opened s = ⟨events, none⟩ := by
  induction h generalizing s with
  | nil opened =>
    cases hs
    exact readFrom_nil opened
  | @cons opened opened₁ opened' e events first rest hsep ih =>
    have hnames' : ∀ name, .close name ∈ events → IsName name := fun name hmem =>
      hnames name (List.mem_cons_of_mem _ hmem)
    cases hs with
    | @close name blanks s _ hblanks hs =>
      cases first with
      | close _ _ => rw [readFrom_close (hnames name (by simp)) hblanks, ih hs hnames']
    | @other _ s _ hs =>
      rw [readFrom_of_stands first fun htext => hs.atMarkup rest (hsep htext), ih hs hnames']

/-- A well-formed document is read as its events, without an error. -/
theorem readFrom_of_wellFormed (h : WellFormedNodes nodes) (hs : Spelled (eventsOf nodes) s) :
    readFrom [] s = ⟨eventsOf nodes, none⟩ :=
  (legible_eventsOf h []).readFrom_spelled hs fun _ => isName_of_close_mem_nodes h

end

end Proctor.Markup
