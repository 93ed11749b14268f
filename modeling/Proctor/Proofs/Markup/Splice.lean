import Proctor.Proofs.Markup.Legible

/-! # Reading a document piece by piece

What was read of a text up to some place is read of it whatever stands behind that place, unless the
place cuts a run of text: such a run goes on up to the next markup. -/

namespace Proctor.Markup
open Proctor.Text

/-! ### What one step of the reader takes -/

/-- The scan takes a piece from the front of a text, and would take it from every other text that
begins like this. -/
def Consumes (scan : List Char → Except MarkupError Item) (s : List Char) (i : Item) : Prop :=
  ∃ p, p ≠ [] ∧ s = p ++ i.rest ∧ ∀ rest, scan (p ++ rest) = .ok { i with rest := rest }

section
variable {opened : Opened} {s : List Char} {i : Item}

theorem consumes_markup (h : next opened ('<' :: s) = .ok i) :
    Consumes (next opened) ('<' :: s) i := by
  have htakes := takes_of_next h
  have hstands := htakes.stands
  -- most events are written as they were read
  have hwritten (hs : '<' :: s = i.event.render ++ i.rest) : Consumes (next opened) ('<' :: s) i :=
    ⟨i.event.render, render_ne_nil hstands, hs, fun _ =>
      next_of_stands hstands fun ht => absurd ht htakes.not_isText⟩
  cases htakes with
  | comment hscan | cdata hscan | instruction _ hscan =>
    exact hwritten (by simp [eq_append_of_splitAt? hscan])
  | empty _ hscan | start _ hscan _ => exact hwritten (by simp [eq_append_of_tagEnd hscan])
  | @close opened s content rest hscan =>
    -- the blanks behind the name are no part of the event
    have hs := eq_append_of_tagEnd hscan
    refine ⟨'<' :: '/' :: content ++ ['>'], by simp, by simp [hs], fun rest => ?_⟩
    have hagain : tagEnd none (content ++ '>' :: rest) = some (content, rest) := by
      simpa using delimited_of_tagEnd hscan rest
    simp [next, endTag, hagain]
  | @doctype opened s content rest hhead hscan hword hne =>
    -- nor are the word and the blanks before the name
    have hs := eq_append_of_balancedEnd hscan
    refine ⟨'<' :: '!' :: content ++ ['>'], by simp, by simp [hs], fun rest => ?_⟩
    have hfirst : (content ++ '>' :: rest).head? = s.head? := by
      cases content with
      | nil => simp at hword
      | cons c content => simp [hs]
    have hend : balancedEnd 0 (content ++ '>' :: rest) = some (content, rest) := by
      simpa using delimited_of_balancedEnd hscan rest
    have hread := declaration_doctype (hfirst ▸ hhead) hend hword hne opened
    simpa [next] using hread

/-- A run of text is taken up to the next markup. -/
theorem exists_consumed (hs : s ≠ []) (h : next opened s = .ok i) :
    ∃ p, p ≠ [] ∧ s = p ++ i.rest ∧ ∀ rest, (i.event.isText → AtMarkup rest) →
      next opened (p ++ rest) = .ok { i with rest := rest } := by
  cases s with
  | nil => exact absurd rfl hs
  | cons c s =>
    by_cases hc : c = '<'
    · obtain ⟨p, hne, hp, hagain⟩ := consumes_markup (hc ▸ h)
      exact ⟨p, hne, hc ▸ hp, fun rest _ => hagain rest⟩
    · obtain rfl := Except.ok.inj ((next_of_ne hc s opened).symm.trans h)
      have hne : (c :: s).takeWhile (· != '<') ≠ [] := by simp [hc]
      have hlt : '<' ∉ (c :: s).takeWhile (· != '<') := fun hmem => by
        simpa using List.mem_takeWhile_imp hmem
      exact ⟨_, hne, List.takeWhile_append_dropWhile.symm, fun rest hrest =>
        next_text hne hlt (hrest rfl) opened⟩

theorem eq_append_of_next_text {content : List Char} (hs : s ≠ []) (h : next opened s = .ok i)
    (he : i.event = .text content) : s = content ++ i.rest := by
  cases s with
  | nil => exact absurd rfl hs
  | cons c s =>
    by_cases hc : c = '<'
    · have hnot := (takes_of_next (hc ▸ h)).not_isText
      rw [he] at hnot
      exact absurd rfl hnot
    · obtain rfl := Except.ok.inj ((next_of_ne hc s opened).symm.trans h)
      obtain rfl := Event.text.inj he
      exact List.takeWhile_append_dropWhile.symm

end

/-! ### The events of a front part -/

/-- A run of text as events; no characters make no event. -/
def runEvents (run : List Char) : List Event := if run = [] then [] else [.text run]

@[simp] theorem runEvents_nil : runEvents [] = [] := rfl

theorem runEvents_of_ne {run : List Char} (h : run ≠ []) : runEvents run = [.text run] := if_neg h

section
variable {opened : Opened} {s : List Char}

theorem AtMarkup.append {t : List Char} (h : AtMarkup (s ++ t)) (hs : s ≠ []) (u : List Char) :
    AtMarkup (s ++ u) := by
  obtain ⟨c, s, rfl⟩ := List.exists_cons_of_ne_nil hs
  exact h

/-- A run of text is read up to the next markup. -/
theorem readFrom_run {run : List Char} (hrun : '<' ∉ run) (hs : AtMarkup s) :
    readFrom opened (run ++ s) =
      { readFrom opened s with events := runEvents run ++ (readFrom opened s).events } := by
  by_cases hne : run = []
  · simp [hne]
  · rw [runEvents_of_ne hne]
    exact readFrom_of_stands (.text hne hrun) fun _ => hs

theorem exists_of_isText {e : Event} (h : e.isText) : ∃ content, e = .text content := by
  cases e with
  | text content => exact ⟨content, rfl⟩
  | start _ | empty _ | close _ | comment _ | cdata _ | instruction _ | doctype _ => cases h

theorem Stands.of_text {opened' : Opened} {content : List Char}
    (h : Stands opened (.text content) opened') : '<' ∉ content := by
  cases h with
  | text _ hlt => exact hlt

theorem eq_nil_of_readFrom (h : readFrom opened s = ⟨[], none⟩) : s = [] := by
  by_contra hs
  rw [readFrom, dif_neg hs] at h
  split at h <;> simp at h

/-- A run without markup ends where the next markup begins. -/
theorem AtMarkup.eq_nil (h : AtMarkup s) (hs : '<' ∉ s) : s = [] := by
  cases s with
  | nil => rfl
  | cons c s =>
    obtain rfl : c = '<' := h c rfl
    simp at hs

/-- A text that ends in a run of text, perhaps of no characters. What stands in front of this run is
read in every text that begins like it. -/
structure EndsInRun (opened : Opened) (s front run : List Char) (events : List Event)
    (opened' : Opened) : Prop where
  split : s = front ++ run
  plain : '<' ∉ run
  events_eq : (readFrom opened s).events = events ++ runEvents run
  last : ∀ e ∈ events.getLast?, ¬ e.isText
  legible : Legible opened events opened'
  read_append : ∀ back, readFrom opened (front ++ back) =
    { readFrom opened' back with events := events ++ (readFrom opened' back).events }

namespace EndsInRun
variable {opened' : Opened} {front run : List Char} {events : List Event} {i : Item}

/-- A text that is nothing but a run of text. -/
theorem of_plain (hplain : '<' ∉ s) (opened : Opened) : EndsInRun opened s [] s [] opened where
  split := rfl
  plain := hplain
  events_eq := by
    have hread : readFrom opened (s ++ []) = _ := readFrom_run hplain atMarkup_nil
    rw [List.append_nil, readFrom_nil, List.append_nil] at hread
    rw [hread, List.nil_append]
  last := by simp
  legible := .nil opened
  read_append := by simp

theorem front_eq_nil (h : EndsInRun opened s front run events opened') (hevents : events = []) :
    front = [] := by
  have hread := h.read_append []
  rw [List.append_nil, readFrom_nil, hevents] at hread
  exact eq_nil_of_readFrom hread

/-- A piece in front of such a text. A run of text in front of it ends where its markup begins. -/
theorem cons (hs : s ≠ []) (hnext : next opened s = .ok i)
    (h : EndsInRun i.opened i.rest front run events opened')
    (hfront : i.event.isText → front ≠ []) :
    ∃ front', EndsInRun opened s front' run (i.event :: events) opened' := by
  obtain ⟨p, hp, hsplit, hagain⟩ := exists_consumed hs hnext
  obtain ⟨hstands, hmarkup⟩ := stands_of_next hs hnext
  have hrest (back : List Char) (htext : i.event.isText) : AtMarkup (front ++ back) :=
    (h.split ▸ hmarkup htext).append (hfront htext) back
  have hread (back : List Char) : readFrom opened (p ++ front ++ back) =
      { readFrom opened' back with events := i.event :: events ++ (readFrom opened' back).events } := by
    have hne : p ++ (front ++ back) ≠ [] := by simp [hp]
    rw [List.append_assoc, readFrom_cons hne (hagain _ (hrest back)), h.read_append]
    rfl
  refine ⟨p ++ front, ?_, h.plain, ?_, ?_, .cons hstands h.legible fun htext f hf => ?_, hread⟩
  · rw [List.append_assoc, ← h.split, ← hsplit]
  · rw [readFrom_cons hs hnext, h.events_eq]
    rfl
  · by_cases hevents : events = []
    · simpa [hevents] using fun htext => hfront htext (h.front_eq_nil hevents)
    · rw [List.getLast?_cons_of_ne_nil hevents]
      exact h.last
  · refine not_isText_of_atMarkup (hmarkup htext) i.opened f ?_
    rw [h.events_eq]
    simp [Option.mem_def.1 hf]

end EndsInRun

/-- Every text without an error ends in a run of text. -/
theorem exists_endsInRun (h : (readFrom opened s).error? = none) :
    ∃ front run events opened', EndsInRun opened s front run events opened' := by
  fun_induction readFrom opened s with
  | case1 opened => exact ⟨[], [], [], opened, .of_plain (by simp) opened⟩
  | case2 => cases h
  | case3 opened s hs i hnext r =>
    next ih =>
    obtain ⟨front, run, events, opened', hends⟩ := ih h
    obtain ⟨hstands, hmarkup⟩ := stands_of_next hs hnext
    by_cases hlast : i.event.isText ∧ front = []
    · -- this run of text is the last thing that is read
      obtain ⟨htext, rfl⟩ := hlast
      have hrest : i.rest = [] :=
        (hmarkup htext).eq_nil (by simpa [hends.split] using hends.plain)
      obtain ⟨content, hcontent⟩ := exists_of_isText htext
      have hwhole := eq_append_of_next_text hs hnext hcontent
      rw [hrest, List.append_nil] at hwhole
      have hplain : '<' ∉ s := hwhole ▸ (hcontent ▸ hstands).of_text
      exact ⟨[], s, [], opened, .of_plain hplain opened⟩
    · obtain ⟨front', hends'⟩ := hends.cons hs hnext fun htext hnil => hlast ⟨htext, hnil⟩
      exact ⟨front', run, i.event :: events, opened', hends'⟩

end

end Proctor.Markup
