import SchemaTypes.Proofs.DeclarationLines
import SchemaTypes.Proofs.GeneratedRun

/-! What ends a line in the source of a run without a hook. Line feeds end the lines of the interface,
and only the keys of definitions can bring a line or paragraph separator. -/
namespace SchemaTypes

open Steps (outcome)
open Text (FreeOf NoLineEnd)

variable {σ : Type}

namespace TypeExpr

/-- Without a hook only a container can bring a character that has an escape everywhere else. -/
theorem IsGenerated.isFreeOf {container : String} {bad : Char → Prop} (hc : FreeOf bad container)
    {type : TypeExpr} (h : type.IsGenerated container false) : type.IsFreeOf bad := by
  induction h with
  | primitive kind => exact .primitive kind
  | literal text => exact .literal text
  | array _ ih => exact .array ih
  | union _ literals =>
    refine .union fun member hm => ?_
    obtain ⟨text, rfl⟩ := literals member hm
    exact .literal text
  | intersection _ _ ih => exact .intersection ih
  | object _ _ texts _ values ih =>
    refine .object (fun p hp => ih p hp ?_) fun value hv => ?_
    · exact Bool.eq_false_iff.2 fun htext => Bool.false_ne_true (texts p hp htext)
    · obtain ⟨kind, rfl⟩ := values value hv
      exact .primitive kind
  | reference name => exact .reference hc name

end TypeExpr

namespace Schema

theorem isGenerated_typeIn (container : String) {schema : Schema} (h : schema.Distinct) :
    (schema.typeIn container).IsGenerated container false := by
  have hsound : (Node.loaded container schema).IsSound container false := Node.isSound_loaded h
  have hdirect := hsound.isGenerated_direct
  rwa [Node.loaded, Node.direct_resolveReferences] at hdirect

theorem noLineEnd_of_mem_typesIn {container : String} (hc : NoLineEnd container)
    {definitions : List (String × Schema)} (h : ∀ entry ∈ definitions, entry.2.Distinct) :
    ∀ entry ∈ typesIn container definitions, NoLineEnd entry.2.text := by
  refine List.forall_mem_map.2 fun entry he => ?_
  have hfree := (isGenerated_typeIn container (h entry he)).isFreeOf hc
  exact hfree.freeOf_text fun _ hend => hend

end Schema

namespace Declaration

variable {container : String} {types : List (String × TypeExpr)}

theorem mem_body_iff_of_ne {c : Char} (hc : c ≠ '\n') :
    c ∈ (body container types).toList ↔ ∃ line ∈ linesOf container types, c ∈ line.toList := by
  simp [body_eq_join, String.toList_join, hc]

/-- What ends a line inside of a line of the interface is a separator in a key. -/
theorem mem_body_iff_of_isLineEnd (hi : NoLineEnd container)
    (ht : ∀ entry ∈ types, NoLineEnd entry.2.text) {c : Char} (h : Text.isLineEnd c)
    (hc : c ≠ '\n') : c ∈ (body container types).toList
      ↔ (c = '\u2028' ∨ c = '\u2029') ∧ ∃ entry ∈ types, c ∈ entry.1.toList := by
  rw [mem_body_iff_of_ne hc, mem_linesOf_iff h (fun hmem => hi c hmem h)
    fun entry he hmem => ht entry he c hmem h]
  simp only [mem_quote_iff_of_isLineEnd h]
  constructor
  · rintro ⟨entry, he, hseparator, hmem⟩
    exact ⟨hseparator, entry, he, hmem⟩
  · rintro ⟨hseparator, entry, he, hmem⟩
    exact ⟨entry, he, hseparator, hmem⟩

end Declaration

namespace Generator

/-- Without a hook and with an identifier for a container, the source is the banner and lines without
line feeds. It has no carriage return, and a line or paragraph separator exactly if the key of a
definition has it. No type and no name, literal or description of a type brings any of the four. -/
theorem line_ends_without_hook (generator : Generator σ) (hm : generator.mapper = none)
    (hi : Text.isIdentifier generator.options.container)
    {definitions : List (String × Schema)} (h : ∀ entry ∈ definitions, entry.2.Distinct)
    (state : σ) :
    let types := Schema.typesIn generator.options.container definitions
    let body := Declaration.body generator.options.container types
    (outcome (generator.source ⟨some definitions⟩) state).value
        = (.ok (generator.options.banner ++ body), state)
      ∧ body.toList.splitOn '\n'
        = (Declaration.linesOf generator.options.container types).map String.toList ++ [[]]
      ∧ '\r' ∉ body.toList
      ∧ (∀ c, c = '\u2028' ∨ c = '\u2029' →
        (c ∈ body.toList ↔ ∃ entry ∈ definitions, c ∈ entry.1.toList))
      ∧ (∀ entry ∈ types, NoLineEnd entry.2.text)
      ∧ ∀ s, NoLineEnd (Text.singleQuoted s) ∧ NoLineEnd (Text.propertyKey s)
        ∧ NoLineEnd (docComment (some s)) := by
  intro types body
  have hcontainer := Text.noLineEnd_of_isIdentifier hi
  have htexts : ∀ entry ∈ types, NoLineEnd entry.2.text :=
    Schema.noLineEnd_of_mem_typesIn hcontainer h
  have hkeys (c : Char) : (∃ entry ∈ types, c ∈ entry.1.toList)
      ↔ ∃ entry ∈ definitions, c ∈ entry.1.toList := by
    simp [types, Schema.typesIn]
  refine ⟨value_source_of_none hm definitions state, ?_, fun hmem => ?_, fun c hc => ?_, htexts,
    fun s => ⟨Text.noLineEnd_singleQuoted s, Text.noLineEnd_propertyKey s,
      noLineEnd_docComment (some s)⟩⟩
  · exact Declaration.splitOn_body (fun hmem => hcontainer '\n' hmem rfl)
      fun entry he hmem => htexts entry he '\n' hmem rfl
  · obtain ⟨hseparator, -⟩ :=
      (Declaration.mem_body_iff_of_isLineEnd hcontainer htexts rfl (by decide)).1 hmem
    exact absurd hseparator (by decide)
  · have hend : Text.isLineEnd c := by rcases hc with rfl | rfl <;> rfl
    have hne : c ≠ '\n' := by rcases hc with rfl | rfl <;> decide
    rw [Declaration.mem_body_iff_of_isLineEnd hcontainer htexts hend hne, and_iff_right hc, hkeys]

/-- A key with a line separator, and other texts with what ends a line. -/
def separatedDefinitions : List (String × Schema) :=
  [("a\u2028b", { properties := some [("x\r",
      { enum := some [.string "\u2029"], description := some "one\u2028two" })] })]

theorem separatedDefinitions_distinct : ∀ entry ∈ separatedDefinitions, entry.2.Distinct := by
  intro entry he
  obtain rfl := List.mem_singleton.1 he
  refine .mk (by decide) fun child hc => ?_
  obtain rfl := List.mem_singleton.1 hc
  exact Schema.distinct_of_children_eq_nil rfl

/-- The separator in the key is all that ends a line inside of one. -/
theorem line_ends_without_hook_separated :
    Text.isIdentifier "definitions" ∧ (∀ entry ∈ separatedDefinitions, entry.2.Distinct)
    ∧ ∃ body, (outcome (({} : Generator Unit).source ⟨some separatedDefinitions⟩) ()).value
        = (.ok (Declaration.defaultBanner ++ body), ())
      ∧ '\u2028' ∈ body.toList ∧ '\u2029' ∉ body.toList ∧ '\r' ∉ body.toList := by
  obtain ⟨hsource, -, hreturn, hseparators, -⟩ :=
    line_ends_without_hook ({} : Generator Unit) rfl (by decide) separatedDefinitions_distinct ()
  refine ⟨by decide, separatedDefinitions_distinct, _, hsource, ?_, ?_, hreturn⟩
  · rw [hseparators '\u2028' (.inl rfl)]
    decide
  · rw [hseparators '\u2029' (.inr rfl)]
    decide

/-- A line separator stands between the quotes of a key. -/
theorem not_escaped_in_every_quote :
    ¬∀ (definitions : List (String × Schema)) (body : String),
      (∀ entry ∈ definitions, entry.2.Distinct) →
      (outcome (({} : Generator Unit).source ⟨some definitions⟩) ()).value
        = (.ok (Declaration.defaultBanner ++ body), ()) →
      ∀ c ∈ body.toList, c ≠ '\r' ∧ c ≠ '\u2028' ∧ c ≠ '\u2029' := by
  intro h
  have hdistinct : ∀ entry ∈ [("a\u2028b", ({ type := some "string" } : Schema))],
      entry.2.Distinct :=
    List.forall_mem_singleton.2 (Schema.distinct_of_children_eq_nil rfl)
  have hsource := value_source_of_none (rfl : ({} : Generator Unit).mapper = none)
    [("a\u2028b", { type := some "string" })] ()
  obtain ⟨-, hseparator, -⟩ := h _ _ hdistinct hsource '\u2028' (by decide +kernel)
  exact hseparator rfl

end Generator
end SchemaTypes
