import Proctor.Proofs.Json.ReadsBack
import Proctor.Request.Codec

/-! # Payloads are read back

Whatever a payload holds, the text that is written of it is read as the same payload again, so that
no two payloads are written alike. -/

namespace Proctor
open Json (Reader ReadsBack)
open Json.Reader (Fills readsBack_text readsBack_bool readsBack_word32 readsBack_list)

/-- Whatever is written is read back, and nothing else is written in the same way. -/
structure RoundTrips {α : Type} (reader : Reader α) (write : α → List Char) : Prop where
  decode_write : ∀ a, Json.decode reader (write a) = .ok a
  write_injective : ∀ a b, write a = write b → a = b

theorem Json.ReadsBack.roundTrips {α : Type} {reader : Reader α} {write : α → List Char}
    (h : ReadsBack reader write) : RoundTrips reader write := by
  have hdecode : ∀ a, Json.decode reader (write a) = .ok a := by
    intro a
    have hrun : reader.run (write a ++ []) = .ok (a, []) := h.run_eq a Json.endsValue_nil
    rw [List.append_nil] at hrun
    rw [Json.decode, hrun]
    rfl
  refine ⟨hdecode, fun a b hab => ?_⟩
  have hsame := (hdecode a).symm.trans ((congrArg _ hab).trans (hdecode b))
  exact Except.ok.inj hsame

/-! ### Each payload -/

theorem join_map_some {α : Type} (o : Option α) : (o.map some).join = o := by cases o <;> rfl

theorem TestTrait.readsBack : ReadsBack reader write where
  begins _ := ⟨'{', _, rfl, by decide⟩
  run_eq t rest _ := by
    refine Fills.run_record { first := some t.name, second := some t.value } ?_ ?_ rest
    · exact .value readsBack_text t.name rfl rfl rfl <|
        .value readsBack_text t.value rfl rfl rfl <| .nil _
    · rfl

theorem TestCase.readsBack : ReadsBack reader write where
  begins _ := ⟨'{', _, rfl, by decide⟩
  run_eq t rest _ := by
    refine Fills.run_record
      { first := some t.fullyQualifiedName, second := some t.displayName, third := some t.source,
        fourth := some t.traits } ?_ ?_ rest
    · exact .value readsBack_text t.fullyQualifiedName rfl rfl rfl <|
        .value readsBack_text t.displayName rfl rfl rfl <|
        .value readsBack_text t.source rfl rfl rfl <|
        .value (readsBack_list TestTrait.readsBack) t.traits rfl rfl rfl <| .nil _
    · rfl

theorem Filter.FilterOptions.readsBack : ReadsBack reader write where
  begins _ := ⟨'{', _, rfl, by decide⟩
  run_eq o rest _ := by
    let found (v : Option (Option String)) : Request.Draft (Option String) (Option String) Unit Unit :=
      { first := o.regex.map some, second := v }
    refine Fills.run_record (found (o.replacement.map some)) ?_ ?_ rest
    · exact .option readsBack_text o.regex ({ first := · }) rfl rfl rfl rfl <|
        .last readsBack_text o.replacement found rfl rfl rfl rfl
    · simp [found, join_map_some]

namespace Request

theorem DiscoveryPayload.readsBack : ReadsBack reader write where
  begins _ := ⟨'{', _, rfl, by decide⟩
  run_eq p rest _ := by
    let found (v : Option (Option String)) : Draft (List String) String (Option String) Unit :=
      { first := some p.sources, second := some p.runSettings, third := v }
    refine Fills.run_record (found (p.filter.map some)) ?_ ?_ rest
    · exact .value (readsBack_list readsBack_text) p.sources rfl rfl rfl <|
        .value readsBack_text p.runSettings rfl rfl rfl <|
        .last readsBack_text p.filter found rfl rfl rfl rfl
    · simp [found, join_map_some]

theorem PlatformOptions.readsBack : ReadsBack reader write where
  begins _ := ⟨'{', _, rfl, by decide⟩
  run_eq o rest _ := by
    let found (v : Option (Option Filter.FilterOptions)) :
        Draft (Option String) (Option Filter.FilterOptions) Bool Unit :=
      { first := o.filter.map some, second := v }
    rw [write, List.append_assoc]
    refine Fills.run_record { found (o.filterOptions.map some) with third := some o.collectMetrics }
      ?_ ?_ rest
    · exact .option readsBack_text o.filter ({ first := · }) rfl rfl rfl rfl <|
        .option Filter.FilterOptions.readsBack o.filterOptions found rfl rfl rfl rfl <|
        .value readsBack_bool o.collectMetrics rfl rfl rfl <| .nil _
    · simp [found, join_map_some]

theorem RunPayload.readsBack : ReadsBack reader write where
  begins _ := ⟨'{', _, rfl, by decide⟩
  run_eq p rest _ := by
    let found (v : Option (Option PlatformOptions)) :
        Draft (List String) String (Option PlatformOptions) Unit :=
      { first := some p.sources, second := some p.runSettings, third := v }
    refine Fills.run_record (found (p.platformOptions.map some)) ?_ ?_ rest
    · exact .value (readsBack_list readsBack_text) p.sources rfl rfl rfl <|
        .value readsBack_text p.runSettings rfl rfl rfl <|
        .last PlatformOptions.readsBack p.platformOptions found rfl rfl rfl rfl
    · simp [found, join_map_some]

theorem ProtocolConfig.readsBack : ReadsBack reader write where
  begins _ := ⟨'{', _, rfl, by decide⟩
  run_eq c rest _ := by
    refine Fills.run_record { first := some c.version } ?_ ?_ rest
    · exact .value readsBack_word32 c.version rfl rfl rfl <| .nil _
    · rfl

/-- Every payload is read back from what is written of it, be its options there, empty or absent,
and no two payloads of a kind are written alike. -/
theorem payloads_are_read_back :
    RoundTrips DiscoveryPayload.reader DiscoveryPayload.write ∧
    RoundTrips RunPayload.reader RunPayload.write ∧
    RoundTrips PlatformOptions.reader PlatformOptions.write ∧
    RoundTrips Filter.FilterOptions.reader Filter.FilterOptions.write ∧
    RoundTrips TestCase.reader TestCase.write ∧
    RoundTrips TestTrait.reader TestTrait.write ∧
    RoundTrips ProtocolConfig.reader ProtocolConfig.write :=
  ⟨DiscoveryPayload.readsBack.roundTrips, RunPayload.readsBack.roundTrips,
    PlatformOptions.readsBack.roundTrips, Filter.FilterOptions.readsBack.roundTrips,
    TestCase.readsBack.roundTrips, TestTrait.readsBack.roundTrips,
    ProtocolConfig.readsBack.roundTrips⟩

end Request
end Proctor
