import Proctor.Proofs.Json.Token

/-! # Readers that read back what is written

A reader that reads back what is written of each value passes this on to the lists of such values
and to the records with such fields. -/

namespace Proctor.Json
open Reader

/-- The value is over here: the text ends, or a list or an object goes on or ends. -/
def EndsValue (rest : List Char) : Prop := ∀ c ∈ rest.head?, c = ',' ∨ c = ']' ∨ c = '}'

/-- The text begins with a value that is not absent, and not with the end of a list. -/
def BeginsValue (s : List Char) : Prop :=
  ∃ c rest, s = c :: rest ∧ isBlank c = false ∧ c ≠ 'n' ∧ c ≠ ']'

/-- What is written of a value is read as this value, whatever may stand behind it. -/
structure ReadsBack {α : Type} (reader : Reader α) (write : α → List Char) : Prop where
  begins : ∀ a, BeginsValue (write a)
  run_eq : ∀ a {rest : List Char}, EndsValue rest → reader.run (write a ++ rest) = .ok (a, rest)

theorem endsValue_nil : EndsValue [] := by simp [EndsValue]

theorem endsValue_cons {c : Char} {rest : List Char} (hc : c = ',' ∨ c = ']' ∨ c = '}') :
    EndsValue (c :: rest) := by
  rintro d ⟨⟩
  exact hc

theorem endsNumber_of_endsValue {rest : List Char} (h : EndsValue rest) : EndsNumber rest := by
  intro c hc
  rcases h c hc with rfl | rfl | rfl <;> decide

theorem BeginsValue.append {s : List Char} (h : BeginsValue s) (rest : List Char) :
    BeginsValue (s ++ rest) := by
  obtain ⟨c, t, rfl, hc⟩ := h
  exact ⟨c, t ++ rest, rfl, hc⟩

namespace Reader
variable {α β σ : Type} {s rest : List Char}

/-! ### Steps of a reader -/

theorem run_bind_of_ok {x : Reader α} {f : α → Reader β} {a : α} (h : x.run s = .ok (a, rest)) :
    (x >>= f).run s = (f a).run rest := by
  rw [StateT.run_bind, h]
  rfl

theorem run_peek {c : Char} (hc : isBlank c = false) (s : List Char) :
    peek.run (c :: s) = .ok (some c, c :: s) := by
  have hdrop : (c :: s).dropWhile isBlank = c :: s := List.dropWhile_cons_of_neg (by simp [hc])
  show Except.ok (((c :: s).dropWhile isBlank).head?, (c :: s).dropWhile isBlank) = _
  rw [hdrop]
  rfl

theorem run_advance (c : Char) (s : List Char) : advance.run (c :: s) = .ok ((), s) := rfl

theorem run_lift {x : Except Fault α} {a : α} (h : x = .ok a) (s : List Char) :
    (monadLift x : Reader α).run s = .ok (a, s) := by
  rw [h]
  rfl

theorem run_body (s rest : List Char) :
    (body false).run (s.flatMap escapeChar ++ '"' :: rest) = .ok (s, rest) := by
  rw [body, run_bind_of_ok (StateT.run_get _), run_bind_of_ok (run_lift (readBody_escape s rest) _)]
  rfl

theorem run_number {n : Nat} (hn : n < Nat.pow 2 64) (hrest : EndsNumber rest) :
    (number true).run (natural n ++ rest) = .ok (some n, rest) := by
  rw [number, run_bind_of_ok (StateT.run_get _),
    run_bind_of_ok (run_lift (readNumber_natural hn hrest) _)]
  rfl

/-! ### Texts, flags and numbers -/

theorem readsBack_text : ReadsBack Reader.text Json.text where
  begins _ := ⟨'"', _, rfl, by decide⟩
  run_eq a rest _ := by
    have hquote : Json.text a ++ rest =
        '"' :: (a.toList.flatMap escapeChar ++ '"' :: rest) := by simp [Json.text, quote]
    rw [hquote, Reader.text, run_bind_of_ok (run_peek (by decide) _)]
    show (advance >>= fun _ => _).run _ = _
    rw [run_bind_of_ok (run_advance _ _), run_bind_of_ok (run_body _ _), String.ofList_toList]
    rfl

theorem readsBack_bool : ReadsBack Reader.bool Json.bool where
  begins b := by
    cases b with
    | false => exact ⟨'f', _, rfl, by decide⟩
    | true => exact ⟨'t', _, rfl, by decide⟩
  run_eq b rest _ := by cases b <;> rfl

theorem isBlank_of_isDigit {c : Char} (hc : c.isDigit) : isBlank c = false := by
  cases h : isBlank c with
  | false => rfl
  | true =>
    simp only [isBlank, Bool.or_eq_true, beq_iff_eq] at h
    rcases h with ((rfl | rfl) | rfl) | rfl <;> exact absurd hc (by decide)

theorem exists_digit (n : Nat) : ∃ c ds, natural n = c :: ds ∧ c.isDigit := by
  have hdigits : ∀ c ∈ natural n, c.isDigit := fun c hc =>
    Nat.isDigit_of_mem_toDigits (by omega) (by omega) hc
  cases hn : natural n with
  | nil => exact absurd hn Nat.toDigits_ne_nil
  | cons c ds => exact ⟨c, ds, rfl, hdigits c (by simp [hn])⟩

theorem readsBack_word32 : ReadsBack Reader.word32 fun n => Json.natural n.toNat where
  begins n := by
    obtain ⟨c, ds, hn, hc⟩ := exists_digit n.toNat
    refine ⟨c, ds, hn, isBlank_of_isDigit hc, ?_, ?_⟩ <;> (rintro rfl; exact absurd hc (by decide))
  run_eq n rest hrest := by
    obtain ⟨c, ds, hn, hc⟩ := exists_digit n.toNat
    have hfits : n.toNat < Nat.pow 2 64 := Nat.lt_trans n.toNat_lt (by decide)
    have hnumber := run_number hfits (endsNumber_of_endsValue hrest)
    rw [hn, List.cons_append] at hnumber ⊢
    have hminus : c ≠ '-' := by
      rintro rfl
      exact absurd hc (by decide)
    have hsize : n.toNat < Nat.pow 2 32 := n.toNat_lt
    rw [Reader.word32, run_bind_of_ok (run_peek (isBlank_of_isDigit hc) _)]
    simp only [hc, if_true]
    rw [run_bind_of_ok hnumber]
    simp only [hsize, if_true, UInt32.ofNat_toNat]
    rfl

/-! ### Lists -/

/-- The parts behind the first, each behind a comma. -/
def commaLed (parts : List (List Char)) : List Char := parts.flatMap (',' :: ·)

theorem commaSeparated_cons (part : List Char) (parts : List (List Char)) :
    commaSeparated (part :: parts) = part ++ commaLed parts := by
  induction parts generalizing part with
  | nil => simp [commaSeparated, commaLed]
  | cons next parts ih => simp [commaSeparated, commaLed, ih]

theorem endsValue_commaLed {rest : List Char} (hrest : EndsValue rest) (parts : List (List Char)) :
    EndsValue (commaLed parts ++ rest) := by
  cases parts with
  | nil => exact hrest
  | cons part parts => exact endsValue_cons (.inl rfl)

/-- The text that is left is long enough for the parts that are left. -/
theorem length_lt_commaLed (parts : List (List Char)) (c : Char) (rest : List Char) :
    parts.length < (commaLed parts ++ c :: rest).length := by
  induction parts with
  | nil => simp [commaLed]
  | cons part parts ih =>
    simp only [commaLed, List.flatMap_cons, List.length_append, List.length_cons] at ih ⊢
    omega

theorem length_le_commaSeparated (parts : List (List Char)) (c : Char) (rest : List Char) :
    parts.length ≤ (commaSeparated parts ++ c :: rest).length := by
  cases parts with
  | nil => exact Nat.zero_le _
  | cons part parts =>
    have hlength := length_lt_commaLed parts c rest
    simp only [commaSeparated_cons, List.append_assoc, List.length_append, List.length_cons]
      at hlength ⊢
    omega

theorem run_hasItem_end (first : Bool) (rest : List Char) :
    (hasItem first).run (']' :: rest) = .ok (false, ']' :: rest) := by
  rw [hasItem, run_bind_of_ok (run_peek (by decide) _)]
  rfl

theorem run_hasItem_first (h : BeginsValue s) : (hasItem true).run s = .ok (true, s) := by
  obtain ⟨c, rest, rfl, hblank, -, hend⟩ := h
  rw [hasItem, run_bind_of_ok (run_peek hblank _)]
  split
  · next he => cases he
  · next he => exact absurd (Option.some.inj he) hend
  · rfl

theorem run_hasItem_next (h : BeginsValue s) : (hasItem false).run (',' :: s) = .ok (true, s) := by
  obtain ⟨c, rest, rfl, hblank, -, hend⟩ := h
  rw [hasItem, run_bind_of_ok (run_peek (by decide) _)]
  show (advance >>= fun _ => _).run _ = _
  rw [run_bind_of_ok (run_advance _ _), run_bind_of_ok (run_peek hblank _)]
  split
  · next he => exact absurd (Option.some.inj he) hend
  · rfl
  · next he => cases he

section
variable {item : Reader α} {write : α → List Char} (h : ReadsBack item write)
include h

theorem run_items_led {l : List α} {bound : Nat} (hbound : l.length < bound) (rest : List Char) :
    (items item bound false).run (commaLed (l.map write) ++ ']' :: rest) =
      .ok (l, ']' :: rest) := by
  induction l generalizing bound with
  | nil =>
    obtain ⟨bound, rfl⟩ := Nat.exists_eq_add_one_of_ne_zero (Nat.ne_zero_of_lt hbound)
    show (items item (bound + 1) false).run (']' :: rest) = _
    rw [items, run_bind_of_ok (run_hasItem_end false rest)]
    rfl
  | cons a l ih =>
    obtain ⟨bound, rfl⟩ := Nat.exists_eq_add_one_of_ne_zero (Nat.ne_zero_of_lt hbound)
    have hrest : EndsValue (commaLed (l.map write) ++ ']' :: rest) :=
      endsValue_commaLed (endsValue_cons (.inr (.inl rfl))) _
    have htext : commaLed ((a :: l).map write) ++ ']' :: rest =
        ',' :: (write a ++ (commaLed (l.map write) ++ ']' :: rest)) := by simp [commaLed]
    rw [htext, items, run_bind_of_ok (run_hasItem_next ((h.begins a).append _))]
    show (item >>= fun _ => _).run _ = _
    rw [run_bind_of_ok (h.run_eq a hrest), run_bind_of_ok (ih (Nat.lt_of_succ_lt_succ hbound))]
    rfl

theorem run_items {l : List α} {bound : Nat} (hbound : l.length < bound) (rest : List Char) :
    (items item bound true).run (commaSeparated (l.map write) ++ ']' :: rest) =
      .ok (l, ']' :: rest) := by
  obtain ⟨bound, rfl⟩ := Nat.exists_eq_add_one_of_ne_zero (Nat.ne_zero_of_lt hbound)
  cases l with
  | nil =>
    show (items item (bound + 1) true).run (']' :: rest) = _
    rw [items, run_bind_of_ok (run_hasItem_end true rest)]
    rfl
  | cons a l =>
    have hrest : EndsValue (commaLed (l.map write) ++ ']' :: rest) :=
      endsValue_commaLed (endsValue_cons (.inr (.inl rfl))) _
    rw [List.map_cons, commaSeparated_cons, List.append_assoc, items,
      run_bind_of_ok (run_hasItem_first ((h.begins a).append _))]
    show (item >>= fun _ => _).run _ = _
    rw [run_bind_of_ok (h.run_eq a hrest),
      run_bind_of_ok (run_items_led h (Nat.lt_of_succ_lt_succ hbound) rest)]
    rfl

theorem readsBack_list : ReadsBack (Reader.list item) (Json.list write) where
  begins l := ⟨'[', _, rfl, by decide⟩
  run_eq l rest _ := by
    let inside := commaSeparated (l.map write) ++ ']' :: rest
    have htext : Json.list write l ++ rest = '[' :: inside := by simp [Json.list, inside]
    have hbound : l.length < inside.length + 1 := by
      have hlength := length_le_commaSeparated (l.map write) ']' rest
      simp only [List.length_map] at hlength
      exact Nat.lt_succ_of_le hlength
    rw [htext, Reader.list, run_bind_of_ok (run_peek (by decide) _)]
    show (advance >>= fun _ => _).run _ = _
    rw [run_bind_of_ok (run_advance _ _), run_bind_of_ok (StateT.run_get _),
      run_bind_of_ok (run_items h hbound rest), endList,
      run_bind_of_ok (run_bind_of_ok (run_peek (by decide) _))]
    rfl

end

theorem run_optional {value : Reader α} {write : α → List Char} (h : ReadsBack value write) (a : α)
    (hrest : EndsValue rest) : (optional value).run (write a ++ rest) = .ok (some a, rest) := by
  have hrun := h.run_eq a hrest
  obtain ⟨c, s, hs, hblank, habsent, -⟩ := (h.begins a).append rest
  rw [hs] at hrun ⊢
  rw [optional, run_bind_of_ok (run_peek hblank _)]
  split
  · next he => exact absurd (Option.some.inj he) habsent
  · rw [StateT.run_map, hrun]
    rfl

/-! ### Records -/

/-- Members in front of which a record holds `s`, and behind which it holds `s'`. Each is a field
that was not found before, and its value is read by that field. -/
inductive Fills (fields : List (RecordField σ)) : σ → List (String × List Char) → σ → Prop
  | nil (s : σ) : Fills fields s [] s
  | cons {f : RecordField σ} {name : String} {value : List Char} {ms : List (String × List Char)}
      {s s' s'' : σ} (hfind : fields.find? (·.name == name.toList) = some f)
      (hunset : f.isSet s = false)
      (hread : ∀ {rest : List Char}, EndsValue rest →
        (f.read s).run (value ++ rest) = .ok (s', rest))
      (hrest : Fills fields s' ms s'') : Fills fields s ((name, value) :: ms) s''

theorem run_hasKey_end (first : Bool) (rest : List Char) :
    (hasKey first).run ('}' :: rest) = .ok (false, '}' :: rest) := by
  rw [hasKey, run_bind_of_ok (run_peek (by decide) _)]
  rfl

theorem exists_member (m : String × List Char) (rest : List Char) :
    ∃ s, member m ++ rest = '"' :: s := ⟨_, rfl⟩

theorem run_hasKey_first (m : String × List Char) (rest : List Char) :
    (hasKey true).run (member m ++ rest) = .ok (true, member m ++ rest) := by
  obtain ⟨s, hs⟩ := exists_member m rest
  rw [hs, hasKey, run_bind_of_ok (run_peek (by decide) _)]
  rfl

theorem run_hasKey_next (m : String × List Char) (rest : List Char) :
    (hasKey false).run (',' :: (member m ++ rest)) = .ok (true, member m ++ rest) := by
  obtain ⟨s, hs⟩ := exists_member m rest
  rw [hs, hasKey, run_bind_of_ok (run_peek (by decide) _)]
  show (advance >>= fun _ => _).run _ = _
  rw [run_bind_of_ok (run_advance _ _), run_bind_of_ok (run_peek (by decide) _)]
  rfl

theorem run_colon (s : List Char) : colon.run (':' :: s) = .ok ((), s) := by
  rw [colon, run_bind_of_ok (run_peek (by decide) _)]
  rfl

section
variable {fields : List (RecordField σ)} {ms : List (String × List Char)} {s s' : σ}

/-- What `members` does behind the key of a field. -/
theorem run_member {f : RecordField σ} {name : String} {value : List Char} {bound : Nat}
    {first : Bool} {text : List Char}
    (hkey : (hasKey first).run text = .ok (true, member (name, value) ++ rest))
    (hfind : fields.find? (·.name == name.toList) = some f) (hunset : f.isSet s = false)
    (hread : (f.read s).run (value ++ rest) = .ok (s', rest)) :
    (members fields (bound + 1) first s).run text = (members fields bound false s').run rest := by
  have hmember : member (name, value) ++ rest =
      '"' :: (name.toList.flatMap escapeChar ++ '"' :: ':' :: (value ++ rest)) := by
    simp [member, quote]
  rw [hmember] at hkey
  rw [members, run_bind_of_ok hkey]
  show (advance >>= fun _ => _).run _ = _
  rw [run_bind_of_ok (run_advance _ _), run_bind_of_ok (run_body _ _)]
  simp only [hfind, hunset]
  show (colon >>= fun _ => _).run _ = _
  rw [run_bind_of_ok (run_colon _), run_bind_of_ok hread]

theorem Fills.run_led (h : Fills fields s ms s') {bound : Nat} (hbound : ms.length < bound)
    (rest : List Char) :
    (members fields bound false s).run (commaLed (ms.map member) ++ '}' :: rest) =
      .ok (s', '}' :: rest) := by
  induction h generalizing bound with
  | nil s =>
    obtain ⟨bound, rfl⟩ := Nat.exists_eq_add_one_of_ne_zero (Nat.ne_zero_of_lt hbound)
    show (members fields (bound + 1) false s).run ('}' :: rest) = _
    rw [members, run_bind_of_ok (run_hasKey_end false rest)]
    rfl
  | @cons f name value ms s s' s'' hfind hunset hread _ ih =>
    obtain ⟨bound, rfl⟩ := Nat.exists_eq_add_one_of_ne_zero (Nat.ne_zero_of_lt hbound)
    have hrest : EndsValue (commaLed (ms.map member) ++ '}' :: rest) :=
      endsValue_commaLed (endsValue_cons (.inr (.inr rfl))) _
    have htext : commaLed (((name, value) :: ms).map member) ++ '}' :: rest =
        ',' :: (member (name, value) ++ (commaLed (ms.map member) ++ '}' :: rest)) := by
      simp [commaLed]
    rw [htext, run_member (run_hasKey_next _ _) hfind hunset (hread hrest)]
    exact ih (Nat.lt_of_succ_lt_succ hbound)

theorem Fills.run_members (h : Fills fields s ms s') {bound : Nat} (hbound : ms.length < bound)
    (rest : List Char) :
    (members fields bound true s).run (commaSeparated (ms.map member) ++ '}' :: rest) =
      .ok (s', '}' :: rest) := by
  obtain ⟨bound, rfl⟩ := Nat.exists_eq_add_one_of_ne_zero (Nat.ne_zero_of_lt hbound)
  cases h with
  | nil s =>
    show (members fields (bound + 1) true s).run ('}' :: rest) = _
    rw [members, run_bind_of_ok (run_hasKey_end true rest)]
    rfl
  | @cons f name value ms s s' s'' hfind hunset hread hms =>
    have hrest : EndsValue (commaLed (ms.map member) ++ '}' :: rest) :=
      endsValue_commaLed (endsValue_cons (.inr (.inr rfl))) _
    rw [List.map_cons, commaSeparated_cons, List.append_assoc,
      run_member (run_hasKey_first _ _) hfind hunset (hread hrest)]
    exact hms.run_led (Nat.lt_of_succ_lt_succ hbound) rest

/-- A record is read back from the object of its members. -/
theorem Fills.run_record {complete : σ → Option α} {a : α} (s' : σ) (h : Fills fields s ms s')
    (hcomplete : complete s' = some a) (rest : List Char) :
    (record fields s complete).run (Json.object ms ++ rest) = .ok (a, rest) := by
  let inside := commaSeparated (ms.map member) ++ '}' :: rest
  have htext : Json.object ms ++ rest = '{' :: inside := by simp [Json.object, inside]
  have hbound : ms.length < inside.length + 1 := by
    have hlength := length_le_commaSeparated (ms.map member) '}' rest
    simp only [List.length_map] at hlength
    exact Nat.lt_succ_of_le hlength
  rw [htext, record, run_bind_of_ok (run_peek (by decide) _)]
  show (advance >>= fun _ => _).run _ = _
  rw [run_bind_of_ok (run_advance _ _), run_bind_of_ok (StateT.run_get _),
    run_bind_of_ok (h.run_members hbound rest)]
  simp only [hcomplete]
  rfl

/-- A field whose reader reads back what is written of its values is filled by its member. -/
theorem Fills.value {f : RecordField σ} {name : String} {value : Reader β} {write : β → List Char}
    {put : β → σ} (hvalue : ReadsBack value write) (b : β)
    (hfind : fields.find? (·.name == name.toList) = some f) (hunset : f.isSet s = false)
    (hread : f.read s = value >>= fun b => pure (put b)) (hrest : Fills fields (put b) ms s') :
    Fills fields s ((name, write b) :: ms) s' := by
  refine .cons hfind hunset (fun h => ?_) hrest
  rw [hread, run_bind_of_ok (hvalue.run_eq b h)]
  rfl

/-- A field that may be left out is filled by its member, and without one is not found. `put` makes
the draft of what is found. -/
theorem Fills.option {f : RecordField σ} {name : String} {value : Reader β}
    {write : β → List Char} (hvalue : ReadsBack value write) (o : Option β)
    (put : Option (Option β) → σ) (hnone : s = put none)
    (hfind : fields.find? (·.name == name.toList) = some f) (hunset : f.isSet s = false)
    (hread : f.read s = optional value >>= fun o => pure (put (some o)))
    (hrest : Fills fields (put (o.map some)) ms s') :
    Fills fields s (optionalMember name write o ++ ms) s' := by
  cases o with
  | none => exact hnone ▸ hrest
  | some b =>
    refine .cons hfind hunset (fun h => ?_) hrest
    rw [hread, run_bind_of_ok (run_optional hvalue b h)]
    rfl

/-- The same for a field with which the members end. -/
theorem Fills.last {f : RecordField σ} {name : String} {value : Reader β} {write : β → List Char}
    (hvalue : ReadsBack value write) (o : Option β) (put : Option (Option β) → σ)
    (hnone : s = put none) (hfind : fields.find? (·.name == name.toList) = some f)
    (hunset : f.isSet s = false)
    (hread : f.read s = optional value >>= fun o => pure (put (some o))) :
    Fills fields s (optionalMember name write o) (put (o.map some)) := by
  have h := Fills.option hvalue o put hnone hfind hunset hread (.nil _)
  rwa [List.append_nil] at h

end

end Reader
end Proctor.Json
