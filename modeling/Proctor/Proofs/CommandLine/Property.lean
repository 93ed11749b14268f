import Proctor.CommandLine.Run
import Proctor.Proofs.Filter.Display

/-! # Properties on the command line

A property may be given several times, and is then found with all of its values, in their order, by
any spelling of its name. But only one spelling of those that were given is looked at: what was
given under another one is lost. -/

namespace Proctor.CommandLine
open Proctor.Text Proctor.Filter

/-! ### Arguments -/

theorem notMem_of_splitAt? {c : Char} {s front back : List Char}
    (h : splitAt? [c] s = some (front, back)) : c ∉ front := by
  induction s generalizing front with
  | nil => simp [splitAt?] at h
  | cons d s ih =>
    simp only [splitAt?] at h
    split at h
    · obtain ⟨rfl, -⟩ := Prod.mk.inj (Option.some.inj h)
      exact List.not_mem_nil
    · next hnone =>
      obtain ⟨⟨front', back'⟩, hf, he⟩ := Option.map_eq_some_iff.1 h
      obtain ⟨rfl, rfl⟩ : d :: front' = front ∧ back' = back := by simpa using he
      have hd : c ≠ d := by
        rintro rfl
        simp [dropPrefix?] at hnone
      simp [hd, ih hf]

/-- The argument gives a property: the name up to the first `=`, without the blanks around it, and
the value behind. -/
def Gives (argument : String) (property : String × String) : Prop :=
  ∃ name, argument.toList = name ++ '=' :: property.2.toList ∧ '=' ∉ name ∧
    property.1 = String.ofList (trim name)

theorem gives_of_readProperty {argument : String} {property : String × String}
    (h : readProperty argument = .ok property) : Gives argument property := by
  unfold readProperty at h
  split at h
  · next name value hsplit =>
    obtain rfl := Except.ok.inj h
    refine ⟨name, ?_, notMem_of_splitAt? hsplit, rfl⟩
    simpa using eq_append_of_splitAt? hsplit
  · cases h

theorem forall₂_of_mapM {arguments : List String} {given : List (String × String)}
    (h : arguments.mapM readProperty = .ok given) : List.Forall₂ Gives arguments given := by
  induction arguments generalizing given with
  | nil =>
    obtain rfl := pure_eq_ok.1 h
    exact .nil
  | cons argument arguments ih =>
    obtain ⟨property, rest, hproperty, hrest, rfl⟩ := mapM_cons_eq_ok.1 h
    exact .cons (gives_of_readProperty hproperty) (ih hrest)

/-! ### Looking a property up -/

/-- The property that has the given values, if there are any. -/
def ofValues : List String → Option PropertyValue
  | [] => none
  | [value] => some (.single value)
  | values => some (.multiple values)

theorem ofValues_inj {a b : List String} (h : ofValues a = ofValues b) : a = b := by
  match a, b with
  | [], [] => rfl
  | [v], [w] => simpa [ofValues] using h
  | _ :: _ :: _, _ :: _ :: _ => simpa [ofValues] using h
  | [], [_] | [], _ :: _ :: _ | [_], [] | _ :: _ :: _, [] => simp [ofValues] at h
  | [_], _ :: _ :: _ | _ :: _ :: _, [_] => simp [ofValues] at h

variable {given : List (String × String)} {name key : String}

/-- The values given under a name, in whichever case it is spelled. -/
def valuesUnder (given : List (String × String)) (name : String) : List String :=
  (given.filter (sameName ·.1 name)).map (·.2)

/-- The values given under exactly this spelling of a name. -/
def valuesSpelled (given : List (String × String)) (key : String) : List String :=
  (given.filter (·.1 == key)).map (·.2)

/-- The spelling of a name that comes first in the order of texts, of those that were given. -/
structure LeastSpelling (given : List (String × String)) (name key : String) : Prop where
  mem : ∃ p ∈ given, p.1 = key
  same : sameName key name
  least : ∀ p ∈ given, sameName p.1 name → ¬ p.1 < key

theorem propertyOf_of_none (h : ∀ p ∈ given, ¬ sameName p.1 name) :
    propertyOf given name = none := by
  have hnames : (given.map (·.1)).filter (sameName · name) = [] := by
    simpa [List.filter_eq_nil_iff] using h
  simp only [propertyOf, hnames]
  rfl

theorem propertyOf_of_head? {keys : ValueSet}
    (h : ValueSet.ofList ((given.map (·.1)).filter (sameName · name)) = keys)
    (hhead : keys.toList.head? = some key) (hkey : ∃ p ∈ given, p.1 = key) :
    propertyOf given name = ofValues (valuesSpelled given key) := by
  have hvalues : valuesSpelled given key ≠ [] := by
    obtain ⟨p, hp, he⟩ := hkey
    simpa [valuesSpelled] using ⟨p.2, he ▸ hp⟩
  obtain ⟨rest, hkeys⟩ := List.head?_eq_some_iff.1 hhead
  simp only [propertyOf, h, hkeys]
  unfold valuesSpelled at hvalues ⊢
  generalize (given.filter (·.1 == key)).map (·.2) = values at hvalues ⊢
  rcases values with _ | ⟨value, _ | ⟨value', values⟩⟩
  · exact absurd rfl hvalues
  · rfl
  · rfl

/-- Of all spellings that were given the least one alone is looked at. -/
theorem exists_leastSpelling (h : ∃ p ∈ given, sameName p.1 name) :
    ∃ key, LeastSpelling given name key ∧
      propertyOf given name = ofValues (valuesSpelled given key) := by
  have hmem (v : String) : v ∈ ValueSet.ofList ((given.map (·.1)).filter (sameName · name)) ↔
      (∃ p ∈ given, p.1 = v) ∧ sameName v name := by
    rw [ValueSet.mem_ofList, List.mem_filter, List.mem_map]
  cases hkeys : ValueSet.ofList ((given.map (·.1)).filter (sameName · name)) with
  | mk keys sorted =>
    rw [hkeys] at hmem
    cases keys with
    | nil =>
      obtain ⟨p, hp, hname⟩ := h
      exact absurd ((hmem p.1).2 ⟨⟨p, hp, rfl⟩, hname⟩) List.not_mem_nil
    | cons key keys =>
      obtain ⟨hkey, hsame⟩ := (hmem key).1 List.mem_cons_self
      refine ⟨key, ⟨hkey, hsame, fun p hp hname hlt => ?_⟩, propertyOf_of_head? hkeys rfl hkey⟩
      rcases List.mem_cons.1 ((hmem p.1).2 ⟨⟨p, hp, rfl⟩, hname⟩) with he | hp
      · exact String.lt_irrefl key (he ▸ hlt)
      · have hgt := (List.pairwise_cons.1 sorted).1 p.1 hp
        exact String.lt_irrefl key (String.lt_trans hgt hlt)

theorem LeastSpelling.filter_eq (h : LeastSpelling given name key) :
    given.filter (·.1 == key) = (given.filter (sameName ·.1 name)).filter (·.1 == key) := by
  rw [List.filter_filter]
  refine List.filter_congr fun p _ => ?_
  by_cases hp : p.1 = key
  · simp [hp, h.same]
  · simp [hp]

/-- All values are found exactly if all were given under one spelling. -/
theorem LeastSpelling.valuesSpelled_eq_iff (h : LeastSpelling given name key) :
    valuesSpelled given key = valuesUnder given name ↔
      ∀ p ∈ given, sameName p.1 name → p.1 = key := by
  have hkept : (∀ p ∈ given, sameName p.1 name → p.1 = key) ↔
      ∀ p ∈ given.filter (sameName ·.1 name), p.1 == key := by simp
  rw [hkept]
  constructor
  · intro he
    have hlength := congrArg List.length he
    rw [valuesSpelled, valuesUnder, h.filter_eq, List.length_map, List.length_map] at hlength
    exact List.length_filter_eq_length_iff.1 hlength
  · intro hall
    rw [valuesSpelled, valuesUnder, h.filter_eq, List.filter_eq_self.2 hall]

/-- Of arguments that give properties, exactly those are found under a name that give it in its
least spelling, with all of their values in order. So all values of a name are found, in whichever
case it is asked for, if and only if they were given under one spelling. -/
theorem given_values_are_found_iff {arguments : List String} {given : List (String × String)}
    (h : arguments.mapM readProperty = .ok given) (name : String) :
    List.Forall₂ Gives arguments given ∧
      ((∀ p ∈ given, ¬ sameName p.1 name) → propertyOf given name = none) ∧
      ((∃ p ∈ given, sameName p.1 name) → ∃ key, LeastSpelling given name key ∧
        propertyOf given name = ofValues (valuesSpelled given key)) ∧
      (propertyOf given name = ofValues (valuesUnder given name) ↔
        ∀ p ∈ given, ∀ q ∈ given, sameName p.1 name → sameName q.1 name → p.1 = q.1) := by
  refine ⟨forall₂_of_mapM h, propertyOf_of_none, exists_leastSpelling, ?_⟩
  by_cases hname : ∃ p ∈ given, sameName p.1 name
  · obtain ⟨key, hkey, hproperty⟩ := exists_leastSpelling hname
    have hiff : propertyOf given name = ofValues (valuesUnder given name) ↔
        valuesSpelled given key = valuesUnder given name := by
      rw [hproperty]
      exact ⟨ofValues_inj, congrArg ofValues⟩
    rw [hiff, hkey.valuesSpelled_eq_iff]
    obtain ⟨k, hk, rfl⟩ := hkey.mem
    exact ⟨fun hall p hp q hq hpn hqn => (hall p hp hpn).trans (hall q hq hqn).symm,
      fun hall p hp hpn => hall p hp k hk hpn hkey.same⟩
  · have hnone : ∀ p ∈ given, ¬ sameName p.1 name := fun p hp hpn => hname ⟨p, hp, hpn⟩
    have hvalues : valuesUnder given name = [] := by
      simpa [valuesUnder, List.filter_eq_nil_iff] using hnone
    rw [propertyOf_of_none hnone, hvalues]
    exact ⟨fun _ p hp _ _ hpn => absurd hpn (hnone p hp), fun _ => rfl⟩

/-- The value that was given under the name as it is asked for hides the one given in small
letters, and a filter on that one does not hold. -/
theorem other_spelling_is_lost :
    let arguments := ["category=Fast", "Category=Unit"]
    let given := [("category", "Fast"), ("Category", "Unit")]
    arguments.mapM readProperty = .ok given ∧
      propertyOf given "Category" ≠ ofValues (valuesUnder given "Category") ∧
      evaluate patterns "Category=Fast" arguments none = .ok "false\n" := by
  intro arguments given
  have hread : arguments.mapM readProperty = .ok given := by decide
  obtain ⟨-, -, -, hiff⟩ := given_values_are_found_iff hread "Category"
  refine ⟨hread, fun hall => ?_, rfl⟩
  have hspelling := hiff.1 hall ("category", "Fast") (by decide) ("Category", "Unit") (by decide)
  exact absurd (hspelling (by decide) (by decide)) (by decide)

end Proctor.CommandLine
