import SchemaTypes.Proofs.Tree
import SchemaTypes.Schema.Decode

/-! Objects that name every property once. Reading a document gives no others. -/
namespace SchemaTypes
namespace Schema

/-- No object names a property twice. -/
inductive Distinct : Schema → Prop where
  | mk {schema : Schema} (here : (Assoc.keys (schema.properties.getD [])).Nodup)
      (below : ∀ child ∈ schema.keywords.children, child.Distinct) : Distinct schema

theorem distinct_of_children_eq_nil {schema : Schema} (h : schema.keywords.children = []) :
    schema.Distinct := by
  refine .mk ?_ fun child hc => by simp [h] at hc
  have hp : (schema.properties.getD []).map Prod.snd = [] := by
    simp only [Keywords.children, List.append_eq_nil_iff] at h
    exact h.1.1.1
  rw [List.map_eq_nil_iff.1 hp]
  exact List.nodup_nil

theorem distinct_iff {schema : Schema} : schema.Distinct ↔
    (Assoc.keys (schema.properties.getD [])).Nodup
      ∧ (∀ entry ∈ schema.properties.getD [], entry.2.Distinct)
      ∧ (∀ member ∈ schema.allOf.getD [], member.Distinct)
      ∧ (∀ child, schema.items = some child → child.Distinct)
      ∧ ∀ child, schema.additional = some (.values child) → child.Distinct := by
  have hadditional : (∀ child ∈ (schema.additional.map Additional.children).getD [], child.Distinct)
      ↔ ∀ child, schema.additional = some (.values child) → child.Distinct := by
    rcases schema.additional with _ | _ | _ <;> simp [Additional.children]
  constructor
  · rintro ⟨here, below⟩
    simp only [keywords, Keywords.children, List.forall_mem_append, List.forall_mem_map,
      Option.mem_toList] at below
    obtain ⟨⟨⟨hp, hm⟩, hi⟩, ha⟩ := below
    exact ⟨here, hp, hm, hi, hadditional.1 ha⟩
  · rintro ⟨here, hp, hm, hi, ha⟩
    refine .mk here ?_
    simp only [keywords, Keywords.children, List.forall_mem_append, List.forall_mem_map,
      Option.mem_toList]
    exact ⟨⟨⟨hp, hm⟩, hi⟩, hadditional.2 ha⟩

theorem Distinct.of_optional {α : Type} {read : Item → Option α} {item : Item}
    {f : Option α → Schema} {result : Schema} (hf : ∀ x, (f x).Distinct)
    (h : (item.optional? read).map f = some result) : result.Distinct := by
  obtain ⟨x, _, rfl⟩ := Option.map_eq_some_iff.1 h
  exact hf x

mutual
theorem distinct_of_ofItem? : ∀ {item : Item} {schema : Schema}, ofItem? item = some schema →
    schema.Distinct
  | .table entries, _, h => by
    rw [ofItem?] at h
    exact distinct_of_ofEntries? (distinct_of_children_eq_nil rfl) h
  | .list items, _, h => by
    rw [ofItem?] at h
    exact distinct_of_ofValues? (distinct_of_children_eq_nil rfl) h
  | .null, _, h => by simp [ofItem?] at h
  | .bool _, _, h => by simp [ofItem?] at h
  | .number _, _, h => by simp [ofItem?] at h
  | .notFinite, _, h => by simp [ofItem?] at h
  | .text _, _, h => by simp [ofItem?] at h
  | .unreadable, _, h => by simp [ofItem?] at h

theorem distinct_of_ofEntries? : ∀ {entries : List (Item × Item)} {seen : List Keyword}
    {schema result : Schema}, schema.Distinct → ofEntries? seen schema entries = some result →
    result.Distinct
  | [], _, _, _, hs, h => by
    rw [ofEntries?] at h
    cases h
    exact hs
  | (key, value) :: rest, _, _, _, hs, h => by
    rw [ofEntries?] at h
    split at h
    · cases h
    · exact distinct_of_ofEntries? hs h
    · split at h
      · cases h
      · split at h
        · cases h
        next hset => exact distinct_of_ofEntries? (distinct_of_set? hs hset) h

theorem distinct_of_ofValues? : ∀ {items : List Item} {keywords : List Keyword}
    {schema result : Schema}, schema.Distinct → ofValues? schema keywords items = some result →
    result.Distinct
  | [], [], _, _, hs, h => by
    rw [ofValues?] at h
    cases h
    exact hs
  | value :: rest, keyword :: keywords, _, _, hs, h => by
    rw [ofValues?] at h
    split at h
    · cases h
    next hset => exact distinct_of_ofValues? (distinct_of_set? hs hset) h
  | [], _ :: _, _, _, _, h => by simp [ofValues?] at h
  | _ :: _, [], _, _, _, h => by simp [ofValues?] at h

theorem distinct_of_set? : ∀ {value : Item} {keyword : Keyword} {schema result : Schema},
    schema.Distinct → set? schema keyword value = some result → result.Distinct
  | value, keyword, schema, result, hs, h => by
    obtain ⟨names, properties, members, items, additional⟩ := distinct_iff.1 hs
    unfold set? at h
    cases keyword <;> dsimp only at h
    case ref | type | format | enum | description | required =>
      refine Distinct.of_optional ?_ h
      exact fun _ => distinct_iff.2 ⟨names, properties, members, items, additional⟩
    case properties =>
      split at h
      · cases h
        exact distinct_iff.2 ⟨List.nodup_nil, by simp, members, items, additional⟩
      next entries =>
        obtain ⟨found, hfound, rfl⟩ := Option.map_eq_some_iff.1 h
        exact distinct_iff.2 ⟨Assoc.nodup_keys_ofList found,
          Assoc.forall_mem_ofList (distinct_of_ofProperties? hfound), members, items, additional⟩
      · cases h
    case allOf =>
      split at h
      · cases h
        exact distinct_iff.2 ⟨names, properties, by simp, items, additional⟩
      next list =>
        obtain ⟨found, hfound, rfl⟩ := Option.map_eq_some_iff.1 h
        exact distinct_iff.2 ⟨names, properties, distinct_of_ofItems? hfound, items, additional⟩
      · cases h
    case items =>
      split at h
      · cases h
        exact distinct_iff.2 ⟨names, properties, members, by simp, additional⟩
      next value _ =>
        obtain ⟨found, hfound, rfl⟩ := Option.map_eq_some_iff.1 h
        refine distinct_iff.2 ⟨names, properties, members, fun child hc => ?_, additional⟩
        cases hc
        exact distinct_of_ofItem? hfound
    case additional =>
      split at h
      · cases h
        exact distinct_iff.2 ⟨names, properties, members, items, by simp⟩
      · cases h
        exact distinct_iff.2 ⟨names, properties, members, items, by simp⟩
      next value _ _ =>
        split at h
        · obtain ⟨found, hfound, rfl⟩ := Option.map_eq_some_iff.1 h
          refine distinct_iff.2 ⟨names, properties, members, items, fun child hc => ?_⟩
          cases hc
          exact distinct_of_ofItem? hfound
        · cases h

theorem distinct_of_ofProperties? : ∀ {entries : List (Item × Item)}
    {properties : List (String × Schema)}, ofProperties? entries = some properties →
    ∀ entry ∈ properties, entry.2.Distinct
  | [], _, h => by
    rw [ofProperties?] at h
    cases h
    simp
  | (key, value) :: rest, _, h => by
    rw [ofProperties?] at h
    simp only [Option.bind_eq_bind, Option.bind_eq_some_iff, Option.pure_def, Option.some.injEq] at h
    obtain ⟨name, _, schema, hschema, more, hmore, rfl⟩ := h
    exact List.forall_mem_cons.2 ⟨distinct_of_ofItem? hschema, distinct_of_ofProperties? hmore⟩

theorem distinct_of_ofItems? : ∀ {items : List Item} {schemas : List Schema},
    ofItems? items = some schemas → ∀ schema ∈ schemas, schema.Distinct
  | [], _, h => by
    rw [ofItems?] at h
    cases h
    simp
  | item :: rest, _, h => by
    rw [ofItems?] at h
    simp only [Option.bind_eq_bind, Option.bind_eq_some_iff, Option.pure_def, Option.some.injEq] at h
    obtain ⟨schema, hschema, more, hmore, rfl⟩ := h
    exact List.forall_mem_cons.2 ⟨distinct_of_ofItem? hschema, distinct_of_ofItems? hmore⟩
end

end Schema

/-- Every schema that is read from JSON text names its properties once. -/
theorem Schema.distinct_of_ofJson? {text : String} {schema : Schema}
    (h : Schema.ofJson? text = some schema) : schema.Distinct := by
  obtain ⟨item, _, hitem⟩ := Option.bind_eq_some_iff.1 h
  exact distinct_of_ofItem? hitem

end SchemaTypes
