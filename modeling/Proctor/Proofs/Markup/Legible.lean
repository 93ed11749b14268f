import Proctor.Proofs.Markup.Scan

/-! # Documents that are read as they were written

The text of an event is read as this event again, whatever stands behind it, and so is a sequence of
such events. Whatever the reader accepts is a document of this kind. -/

namespace Proctor.Markup
open Proctor.Text

/-! ### Events -/

/-- What begins like this, behind a `<`, is a start tag. -/
def OpensTag (s : List Char) : Prop := ∀ c ∈ s.head?, c ≠ '!' ∧ c ≠ '?' ∧ c ≠ '/'

instance (s : List Char) : Decidable (OpensTag s) :=
  match s with
  | [] => isTrue nofun
  | c :: _ => decidable_of_iff (c ≠ '!' ∧ c ≠ '?' ∧ c ≠ '/') (by simp [OpensTag])

/-- An event that can be told from what follows it, with the elements that are open before it and
those that are open behind it. -/
inductive Stands : Opened → Event → Opened → Prop
  | start {opened : Opened} {content : List Char}
      (hend : Delimited (tagEnd none) ['>'] content) (hopens : OpensTag content)
      (hlast : content.getLast? ≠ some '/') :
      Stands opened (.start content) (tagName content :: opened)
  | empty {opened : Opened} {content : List Char}
      (hend : Delimited (tagEnd none) ['>'] (content ++ ['/']))
      (hopens : OpensTag (content ++ ['/'])) : Stands opened (.empty content) opened
  | close {opened : Opened} {name : List Char} (hend : Delimited (tagEnd none) ['>'] name)
      (hname : endName name = name) : Stands (name :: opened) (.close name) opened
  | text {opened : Opened} {content : List Char} (hne : content ≠ []) (hlt : '<' ∉ content) :
      Stands opened (.text content) opened
  | comment {opened : Opened} {content : List Char}
      (hend : Delimited (splitAt? "-->".toList) "-->".toList content) :
      Stands opened (.comment content) opened
  | cdata {opened : Opened} {content : List Char}
      (hend : Delimited (splitAt? "]]>".toList) "]]>".toList content) :
      Stands opened (.cdata content) opened
  | instruction {opened : Opened} {content : List Char}
      (hend : Delimited (splitAt? ['?', '>']) ['?', '>'] content)
      (hhead : content.head? ≠ some '>') : Stands opened (.instruction content) opened
  | doctype {opened : Opened} {name : List Char} (hend : Delimited (balancedEnd 0) ['>'] name)
      (hne : name ≠ []) (hblank : name.dropWhile isBlank = name) :
      Stands opened (.doctype name) opened

def Event.isText : Event → Bool
  | text _ => true
  | start _ | empty _ | close _ | comment _ | cdata _ | instruction _ | doctype _ => false

/-- The text is over, or markup begins here. -/
def AtMarkup (s : List Char) : Prop := ∀ c ∈ s.head?, c = '<'

theorem atMarkup_nil : AtMarkup [] := by simp [AtMarkup]

theorem next_tag {s : List Char} (h : OpensTag s) (opened : Opened) :
    next opened ('<' :: s) = startTag opened s := by
  unfold next
  split
  · next he =>
    obtain rfl := (List.cons.inj he).2
    exact absurd rfl (h '!' rfl).1
  · next he =>
    obtain rfl := (List.cons.inj he).2
    exact absurd rfl (h '?' rfl).2.1
  · next he =>
    obtain rfl := (List.cons.inj he).2
    exact absurd rfl (h '/' rfl).2.2
  · next he =>
    obtain rfl := (List.cons.inj he).2
    rfl
  · next _ _ _ hnot => exact absurd rfl (hnot s)

theorem next_of_ne {c : Char} (hc : c ≠ '<') (s : List Char) (opened : Opened) :
    next opened (c :: s) =
      .ok ⟨.text ((c :: s).takeWhile (· != '<')), opened, (c :: s).dropWhile (· != '<')⟩ := by
  rw [next]
  all_goals
    intro _ he
    exact hc (List.cons.inj he).1

theorem next_text {content rest : List Char} (hne : content ≠ []) (hlt : '<' ∉ content)
    (hrest : AtMarkup rest) (opened : Opened) :
    next opened (content ++ rest) = .ok ⟨.text content, opened, rest⟩ := by
  have hall : ∀ c ∈ content, (c != '<') = true := by
    intro c hc
    simpa using fun he : c = '<' => hlt (he ▸ hc)
  have htake : (content ++ rest).takeWhile (· != '<') = content := by
    rw [List.takeWhile_append_of_pos hall]
    cases rest with
    | nil => simp
    | cons c rest => simp [hrest c rfl]
  have hdrop : (content ++ rest).dropWhile (· != '<') = rest := by
    rw [List.dropWhile_append_of_pos hall]
    cases rest with
    | nil => simp
    | cons c rest => simp [hrest c rfl]
  cases content with
  | nil => exact absurd rfl hne
  | cons c content =>
    have hc : c ≠ '<' := fun he => hlt (by simp [he])
    simp only [List.cons_append] at htake hdrop ⊢
    rw [next_of_ne hc, htake, hdrop]

theorem instruction_eq {s : List Char} (h : s.head? ≠ some '>') (opened : Opened) :
    instruction opened s =
      match splitAt? ['?', '>'] s with
      | some (content, rest) => .ok ⟨.instruction content, opened, rest⟩
      | none => .error .unclosedInstruction := by
  unfold instruction
  split
  · exact absurd rfl h
  · rfl

theorem declaration_doctype {s content rest : List Char}
    (hs : s.head? = some 'D' ∨ s.head? = some 'd') (hend : balancedEnd 0 s = some (content, rest))
    (hword : (content.take 7).map Char.toLower = "doctype".toList)
    (hne : (content.drop 7).dropWhile isBlank ≠ []) (opened : Opened) :
    declaration opened s = .ok ⟨.doctype ((content.drop 7).dropWhile isBlank), opened, rest⟩ := by
  cases s with
  | nil => simp at hs
  | cons c s =>
    obtain rfl | rfl : c = 'D' ∨ c = 'd' := by simpa using hs
    · simp [declaration, hend, hword, hne]
    · simp [declaration, hend, hword, hne]

theorem OpensTag.of_append {content rest : List Char} (h : OpensTag (content ++ rest)) :
    OpensTag content := by
  cases content with
  | nil =>
    intro c hc
    cases hc
  | cons c content => exact h

/-- What follows the content of a tag does not make it less of a tag. -/
theorem OpensTag.append {content : List Char} (h : OpensTag content) (rest : List Char) :
    OpensTag (content ++ '>' :: rest) := by
  cases content with
  | nil =>
    rintro c ⟨⟩
    decide
  | cons c content => exact h

/-- The event is read from its own text. -/
theorem next_of_stands {opened opened' : Opened} {e : Event} (h : Stands opened e opened')
    {rest : List Char} (hrest : e.isText → AtMarkup rest) :
    next opened (e.render ++ rest) = .ok ⟨e, opened', rest⟩ := by
  cases h with
  | @start _ content hend hopens hlast =>
    have hscan : tagEnd none (content ++ '>' :: rest) = some (content, rest) := by
      simpa using hend rest
    have htag := next_tag (hopens.append rest) opened
    simpa [startTag, hscan, hlast] using htag
  | @empty _ content hend hopens =>
    have hscan : tagEnd none (content ++ '/' :: '>' :: rest) = some (content ++ ['/'], rest) := by
      simpa using hend rest
    have htag := next_tag (hopens.append rest) opened
    simpa [startTag, hscan] using htag
  | @close opened name hend hname =>
    have hscan : tagEnd none (name ++ '>' :: rest) = some (name, rest) := by simpa using hend rest
    simp [next, endTag, hscan, hname]
  | text hne hlt => exact next_text hne hlt (hrest rfl) opened
  | @comment _ content hend =>
    have hscan : splitAt? ['-', '-', '>'] (content ++ '-' :: '-' :: '>' :: rest) =
        some (content, rest) := by simpa using hend rest
    simp [next, declaration, dropPrefix?, hscan]
  | @cdata _ content hend =>
    have hscan : splitAt? [']', ']', '>'] (content ++ ']' :: ']' :: '>' :: rest) =
        some (content, rest) := by simpa using hend rest
    simp [next, declaration, dropPrefix?, hscan]
  | @instruction _ content hend hhead =>
    have hscan : splitAt? ['?', '>'] (content ++ '?' :: '>' :: rest) = some (content, rest) := by
      simpa using hend rest
    have hhead : (content ++ '?' :: '>' :: rest).head? ≠ some '>' := by
      cases content with
      | nil => simp
      | cons c content => exact hhead
    have hread : next opened ((Event.instruction content).render ++ rest) =
        instruction opened (content ++ '?' :: '>' :: rest) := by simp [next]
    rw [hread, instruction_eq hhead, hscan]
  | @doctype _ name hend hne hblank =>
    have hname : balancedEnd 0 (name ++ '>' :: rest) = some (name, rest) := by
      simpa using hend rest
    have hscan : balancedEnd 0 ("DOCTYPE ".toList ++ (name ++ '>' :: rest)) =
        some ("DOCTYPE ".toList ++ name, rest) := by
      rw [balancedEnd_append (by simp), hname]
      rfl
    have hread : next opened ((Event.doctype name).render ++ rest) =
        declaration opened ("DOCTYPE ".toList ++ (name ++ '>' :: rest)) := by simp [next]
    have hdrop : (("DOCTYPE ".toList ++ name).drop 7).dropWhile isBlank = name := hblank
    rw [hread, declaration_doctype (.inl rfl) hscan rfl (by rwa [hdrop]), hdrop]

section
variable {opened : Opened} {s : List Char} {i : Item}

/-- What the reader takes behind a `<`: a piece of markup up to the end that the scan for it has
found, with the event that it is. -/
inductive Takes : Opened → List Char → Item → Prop
  | comment {opened : Opened} {s content rest : List Char}
      (hscan : splitAt? "-->".toList s = some (content, rest)) :
      Takes opened ("!--".toList ++ s) ⟨.comment content, opened, rest⟩
  | cdata {opened : Opened} {s content rest : List Char}
      (hscan : splitAt? "]]>".toList s = some (content, rest)) :
      Takes opened ("![CDATA[".toList ++ s) ⟨.cdata content, opened, rest⟩
  | doctype {opened : Opened} {s content rest : List Char}
      (hhead : s.head? = some 'D' ∨ s.head? = some 'd')
      (hscan : balancedEnd 0 s = some (content, rest))
      (hword : (content.take 7).map Char.toLower = "doctype".toList)
      (hne : (content.drop 7).dropWhile isBlank ≠ []) :
      Takes opened ('!' :: s) ⟨.doctype ((content.drop 7).dropWhile isBlank), opened, rest⟩
  | instruction {opened : Opened} {s content rest : List Char} (hhead : s.head? ≠ some '>')
      (hscan : splitAt? ['?', '>'] s = some (content, rest)) :
      Takes opened ('?' :: s) ⟨.instruction content, opened, rest⟩
  | close {opened : Opened} {s content rest : List Char}
      (hscan : tagEnd none s = some (content, rest)) :
      Takes (endName content :: opened) ('/' :: s) ⟨.close (endName content), opened, rest⟩
  | empty {opened : Opened} {s content rest : List Char} (hopens : OpensTag s)
      (hscan : tagEnd none s = some (content ++ ['/'], rest)) :
      Takes opened s ⟨.empty content, opened, rest⟩
  | start {opened : Opened} {s content rest : List Char} (hopens : OpensTag s)
      (hscan : tagEnd none s = some (content, rest)) (hlast : content.getLast? ≠ some '/') :
      Takes opened s ⟨.start content, tagName content :: opened, rest⟩

theorem takes_of_declaration (h : declaration opened s = .ok i) : Takes opened ('!' :: s) i := by
  unfold declaration at h
  split at h
  · split at h
    · next hscan =>
      obtain ⟨t, hfront, ht⟩ := Option.bind_eq_some_iff.1 hscan
      cases h
      rw [dropPrefix?_eq_some.1 hfront]
      exact .comment ht
    · cases h
  · split at h
    · next hscan =>
      obtain ⟨t, hfront, ht⟩ := Option.bind_eq_some_iff.1 hscan
      cases h
      rw [dropPrefix?_eq_some.1 hfront]
      exact .cdata ht
    · cases h
  · split at h
    · next hletter =>
      split at h
      · next hscan =>
        split at h
        · next hword =>
          dsimp only at h
          split at h
          · cases h
          · next hne =>
            cases h
            exact .doctype (by simpa using hletter) hscan hword (by simpa using hne)
        · cases h
      · cases h
    · cases h
  · cases h

theorem takes_of_instruction (h : instruction opened s = .ok i) : Takes opened ('?' :: s) i := by
  unfold instruction at h
  split at h
  · cases h
  · next hnot =>
    split at h
    · next hscan =>
      cases h
      refine .instruction (fun hhead => ?_) hscan
      obtain ⟨t, rfl⟩ := List.head?_eq_some_iff.1 hhead
      exact hnot t rfl
    · cases h

theorem takes_of_endTag (h : endTag opened s = .ok i) : Takes opened ('/' :: s) i := by
  unfold endTag at h
  split at h
  · cases h
  · next hscan =>
    dsimp only at h
    split at h
    · cases h
    · split at h
      · next hname =>
        cases h
        subst hname
        exact .close hscan
      · cases h

theorem takes_of_startTag (hopens : OpensTag s) (h : startTag opened s = .ok i) :
    Takes opened s i := by
  unfold startTag at h
  split at h
  · cases h
  · next content rest hscan =>
    split at h
    · next hlast =>
      cases h
      obtain ⟨front, rfl⟩ := List.getLast?_eq_some_iff.1 hlast
      rw [List.dropLast_concat]
      exact .empty hopens hscan
    · next hlast =>
      cases h
      exact .start hopens hscan hlast

theorem takes_of_next (h : next opened ('<' :: s) = .ok i) : Takes opened s i := by
  by_cases hopens : OpensTag s
  · rw [next_tag hopens] at h
    exact takes_of_startTag hopens h
  · unfold next at h
    split at h
    · next he =>
      obtain rfl := (List.cons.inj he).2
      exact takes_of_declaration h
    · next he =>
      obtain rfl := (List.cons.inj he).2
      exact takes_of_instruction h
    · next he =>
      obtain rfl := (List.cons.inj he).2
      exact takes_of_endTag h
    · next rest hbang hmark hslash he =>
      obtain rfl := (List.cons.inj he).2
      refine absurd (fun c hc => ?_) hopens
      obtain ⟨rest, rfl⟩ := List.head?_eq_some_iff.1 hc
      refine ⟨?_, ?_, ?_⟩ <;> rintro rfl
      · exact hbang rest rfl
      · exact hmark rest rfl
      · exact hslash rest rfl
    · next hnot => exact absurd rfl (hnot s)

theorem Takes.stands (h : Takes opened s i) : Stands opened i.event i.opened := by
  cases h with
  | comment hscan => exact .comment (delimited_of_splitAt? hscan)
  | cdata hscan => exact .cdata (delimited_of_splitAt? hscan)
  | doctype _ hscan hword hne =>
    exact .doctype (delimited_of_doctype hscan hword) hne (List.dropWhile_idempotent _ _)
  | instruction hhead hscan =>
    refine .instruction (delimited_of_splitAt? hscan) fun hcontent => hhead ?_
    obtain ⟨t, rfl⟩ := List.head?_eq_some_iff.1 hcontent
    rw [eq_append_of_splitAt? hscan]
    rfl
  | close hscan => exact .close (delimited_endName hscan) (endName_endName _)
  | empty hopens hscan =>
    rw [eq_append_of_tagEnd hscan] at hopens
    exact .empty (delimited_of_tagEnd hscan) hopens.of_append
  | start hopens hscan hlast =>
    rw [eq_append_of_tagEnd hscan] at hopens
    exact .start (delimited_of_tagEnd hscan) hopens.of_append hlast

theorem Takes.not_isText (h : Takes opened s i) : ¬ i.event.isText := by
  cases h <;> nofun

theorem atMarkup_dropWhile (s : List Char) : AtMarkup (s.dropWhile (· != '<')) := by
  intro c hc
  have h := List.head?_dropWhile_not (· != '<') s
  rw [Option.mem_def.1 hc] at h
  simpa using h

/-- What is read can be told from what follows it. -/
theorem stands_of_next (hs : s ≠ []) (h : next opened s = .ok i) :
    Stands opened i.event i.opened ∧ (i.event.isText → AtMarkup i.rest) := by
  cases s with
  | nil => exact absurd rfl hs
  | cons c s =>
    by_cases hc : c = '<'
    · have htakes := takes_of_next (hc ▸ h)
      exact ⟨htakes.stands, fun ht => absurd ht htakes.not_isText⟩
    · obtain rfl := Except.ok.inj ((next_of_ne hc s opened).symm.trans h)
      refine ⟨.text (by simp [hc]) fun hmem => ?_, fun _ => atMarkup_dropWhile _⟩
      simpa using List.mem_takeWhile_imp hmem

end

/-! ### Documents -/

/-- Events one behind the other, each of which can be told from the next. -/
inductive Legible : Opened → List Event → Opened → Prop
  | nil (opened : Opened) : Legible opened [] opened
  | cons {opened opened₁ opened₂ : Opened} {e : Event} {events : List Event}
      (first : Stands opened e opened₁) (rest : Legible opened₁ events opened₂)
      (hsep : e.isText → ∀ f ∈ events.head?, ¬ f.isText) :
      Legible opened (e :: events) opened₂

theorem atMarkup_render {opened opened' : Opened} {e : Event} (h : Stands opened e opened')
    (ht : ¬ e.isText) (rest : List Char) : AtMarkup (e.render ++ rest) := by
  cases h with
  | text _ _ => exact absurd rfl ht
  | start _ _ _ | empty _ _ | close _ _ | comment _ | cdata _ | instruction _ _ | doctype _ _ _ =>
    rintro c ⟨⟩
    rfl

theorem render_ne_nil {opened opened' : Opened} {e : Event} (h : Stands opened e opened') :
    e.render ≠ [] := by
  cases h with
  | text hne _ => exact hne
  | start _ _ _ | empty _ _ | close _ _ | comment _ | cdata _ | instruction _ _ | doctype _ _ _ =>
    exact List.cons_ne_nil _ _

theorem readFrom_nil (opened : Opened) : readFrom opened [] = ⟨[], none⟩ := by
  rw [readFrom, dif_pos rfl]

theorem readFrom_cons {opened : Opened} {s : List Char} {i : Item} (hs : s ≠ [])
    (h : next opened s = .ok i) :
    readFrom opened s =
      { readFrom i.opened i.rest with events := i.event :: (readFrom i.opened i.rest).events } := by
  rw [readFrom, dif_neg hs]
  split
  · next he => simp [h] at he
  · next j he =>
    obtain rfl := Except.ok.inj (h.symm.trans he)
    rfl

theorem readFrom_of_error {opened : Opened} {s : List Char} {e : MarkupError} (hs : s ≠ [])
    (h : next opened s = .error e) : readFrom opened s = ⟨[], some e⟩ := by
  rw [readFrom, dif_neg hs]
  split
  · next he =>
    obtain rfl := Except.error.inj (h.symm.trans he)
    rfl
  · next he => simp [h] at he

theorem readFrom_of_stands {opened opened' : Opened} {e : Event} (h : Stands opened e opened')
    {rest : List Char} (hrest : e.isText → AtMarkup rest) :
    readFrom opened (e.render ++ rest) =
      { readFrom opened' rest with events := e :: (readFrom opened' rest).events } := by
  have hne : e.render ++ rest ≠ [] :=
    fun he => render_ne_nil h (List.append_eq_nil_iff.1 he).1
  rw [readFrom_cons hne (next_of_stands h hrest)]

namespace Legible
variable {opened opened₁ : Opened} {a : List Event}

theorem atMarkup {rest : List Char} (h : Legible opened a opened₁) (hrest : AtMarkup rest)
    (ht : ∀ e ∈ a.head?, ¬ e.isText) : AtMarkup (render a ++ rest) := by
  cases h with
  | nil => exact hrest
  | cons first rest' hsep =>
    rw [render_cons, List.append_assoc]
    exact atMarkup_render first (ht _ rfl) _

/-- A sequence of events is read from its own text, in front of more markup. -/
theorem readFrom_render (h : Legible opened a opened₁) {rest : List Char}
    (hrest : AtMarkup rest) :
    readFrom opened (render a ++ rest) =
      { readFrom opened₁ rest with events := a ++ (readFrom opened₁ rest).events } := by
  induction h with
  | nil opened => simp
  | @cons opened opened₁ opened₂ e events first tail hsep ih =>
    have he : e.isText → AtMarkup (render events ++ rest) := fun ht => tail.atMarkup hrest (hsep ht)
    rw [render_cons, List.append_assoc, readFrom_of_stands first he, ih]
    rfl

/-- A legible document is read as its events. -/
theorem readFrom_eq (h : Legible opened a opened₁) : readFrom opened (render a) = ⟨a, none⟩ := by
  have hread : readFrom opened (render a ++ []) = _ := h.readFrom_render atMarkup_nil
  simpa [readFrom_nil] using hread

end Legible

theorem not_isText_of_atMarkup {s : List Char} (hs : AtMarkup s) (opened : Opened) :
    ∀ f ∈ (readFrom opened s).events.head?, ¬ f.isText := by
  intro f hf
  cases s with
  | nil => simp [readFrom_nil] at hf
  | cons c s =>
    obtain rfl : c = '<' := hs c rfl
    rw [readFrom, dif_neg (List.cons_ne_nil _ _)] at hf
    split at hf
    · simp at hf
    · next i hnext =>
      obtain rfl : i.event = f := by simpa using hf
      exact (takes_of_next hnext).not_isText

/-- What is read to the end is legible. -/
theorem legible_of_readFrom {opened : Opened} {s : List Char} {events : List Event}
    (h : readFrom opened s = ⟨events, none⟩) : ∃ opened', Legible opened events opened' := by
  fun_induction readFrom opened s generalizing events with
  | case1 opened =>
    obtain rfl : [] = events := by simpa using h
    exact ⟨opened, .nil opened⟩
  | case2 => simp at h
  | case3 opened s hs i hnext r =>
    next ih =>
    obtain ⟨rfl, hr⟩ : i.event :: r.events = events ∧ r.error? = none := by simpa using h
    obtain ⟨opened', htail⟩ := ih (show r = ⟨r.events, none⟩ by rw [← hr])
    obtain ⟨hstands, hrest⟩ := stands_of_next hs hnext
    exact ⟨opened', .cons hstands htail fun ht => not_isText_of_atMarkup (hrest ht) _⟩

/-! ### In front of the first markup -/

section
variable {α : Type} {f : Reading → α}

/-- Where a text that comes first does not count, none in front of the first markup counts. -/
theorem apply_readFrom_dropWhile
    (hf : ∀ content r, f { r with events := .text content :: r.events } = f r) (opened : Opened)
    (s : List Char) : f (readFrom opened s) = f (readFrom opened (s.dropWhile (· != '<'))) := by
  cases s with
  | nil => rfl
  | cons c s =>
    by_cases hc : c = '<'
    · simp [hc]
    · rw [readFrom_cons (List.cons_ne_nil _ _) (next_of_ne hc s opened), hf]

/-- Nor does a byte order mark count there. -/
theorem apply_read (hf : ∀ content r, f { r with events := .text content :: r.events } = f r)
    (s : List Char) : f (read s) = f (readFrom [] s) := by
  unfold read
  split
  · next rest =>
    rw [apply_readFrom_dropWhile hf [] rest, apply_readFrom_dropWhile hf [] ('\ufeff' :: rest)]
    simp
  · rfl

end

end Proctor.Markup
