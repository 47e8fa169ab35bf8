import SchemaTypes.Proofs.DeclarationLines
import SchemaTypes.Proofs.Lookups
import SchemaTypes.Proofs.PointerEscape
import SchemaTypes.Proofs.RunTypes
import SchemaTypes.Proofs.ScriptString

/-! The look-ups of a run land on the members that they name: pointers, quoted look-ups and the keys
of members are three ways to write one name. -/
namespace SchemaTypes

open Steps (outcome)

variable {σ : Type}

theorem TypeExpr.mem_words_reference (container name : String) :
    container ++ "[" ++ Text.singleQuoted name ++ "]" ∈ (reference container name).words := by
  rw [mem_words, pieces]
  exact List.mem_singleton_self _

namespace Generator

/-- A tree with the look-ups of the definitions that its schema points to. -/
theorem lookups_of_settled (container : String) {hooked : Bool} {schema : Schema}
    (h : schema.Distinct) {answers : Answers} (hc : answers.Cover hooked schema) {key : String}
    {position : Position} {written : Schema} {spliced : Bool} {target : Node}
    (hw : schema.writtenAt answers position = some (written, spliced))
    (hp : written.ref = some (Pointer.ofDefinition key)) :
    ((Node.settled container schema answers).Holds position target →
      target = .resolved (.reference container key))
    ∧ ((Node.settled container schema answers).Writes position target →
      .word (container ++ "[" ++ Text.singleQuoted key ++ "]")
        ∈ ((Node.settled container schema answers).direct container).pieces) := by
  have hlookup (ht : (Node.settled container schema answers).Holds position target) :
      target = .resolved (.reference container key) := by
    rw [Node.lookup_of_holds container h hc ht hw hp, Pointer.name_ofDefinition]
    rfl
  refine ⟨hlookup, fun ht => TypeExpr.mem_words.1 (ht.mem_words ?_)⟩
  rw [hlookup ht.holds]
  exact TypeExpr.mem_words_reference container key

/-- Wherever a definition is pointed to stands the look-up of its key, and where the look-up is written
it is written as one word. The line of a definition begins with its quoted key. Read as a literal, the
quoted name of a look-up stands for the key, and so does the quoted key of a line, while other keys
stand for other texts. -/
theorem references_land_on_their_keys (generator : Generator σ)
    {definitions : List (String × Schema)} (h : ∀ entry ∈ definitions, entry.2.Distinct)
    {state after : σ} {nodes : List (String × Node)}
    (hrun : (outcome (generator.resolveAll
      (definitions.map fun (name, schema) => (name, .ofSchema schema))) state).value
        = (.ok nodes, after)) :
    (∃ types transcript, nodes = Declaration.ofTypes types
      ∧ (outcome (generator.source ⟨some definitions⟩) state).value
        = (.ok (generator.options.banner
          ++ Declaration.body generator.options.container types), after)
      ∧ Declaration.body generator.options.container types = String.join
        ((["", "", "", "export interface " ++ generator.options.container ++ " \x7b"]
          ++ types.map (fun typed => "  " ++ Json.quote typed.1 ++ ": " ++ typed.2.text ++ ";")
          ++ ["\x7d"]).map (· ++ "\n"))
      ∧ (outcome (generator.recorded.resolveAll
        (definitions.map fun (name, schema) => (name, .ofSchema schema))) (state, [])).value
          = (.ok nodes, after, transcript)
      ∧ List.Forall₂ (fun entry typed => typed.1 = entry.1
        ∧ Piece.textOf typed.2.pieces = typed.2.text
        ∧ ∃ answers tree, generator.Leaves transcript entry.2 answers tree
          ∧ typed.2 = tree.direct generator.options.container
          ∧ ∀ key position written spliced target,
            entry.2.writtenAt answers position = some (written, spliced) →
            written.ref = some (Pointer.ofDefinition key) →
            (tree.Holds position target →
              target = .resolved (.reference generator.options.container key))
            ∧ (tree.Writes position target →
              .word (generator.options.container ++ "[" ++ Text.singleQuoted key ++ "]")
                ∈ typed.2.pieces)) definitions types)
    ∧ (∀ key rest,
      Text.literal? ((Text.singleQuoted key).toList ++ rest) = some (Text.utf16 key.toList, rest)
      ∧ Text.literal? ((Json.quote key).toList ++ rest) = some (Text.utf16 key.toList, rest))
    ∧ ∀ key other : String, key ≠ other → Text.utf16 key.toList ≠ Text.utf16 other.toList := by
  refine ⟨?_, fun key rest => ⟨Text.literal?_singleQuoted key rest, Text.literal?_quote key rest⟩,
    fun key other hne heq => hne (String.toList_inj.1 (Text.utf16_injective heq))⟩
  obtain ⟨transcript, hrecorded, hsettled⟩ := settled_of_resolveAll h hrun
  have hnodes : List.Forall₂ (fun entry node => ∃ type, node = (entry.1, .resolved type)
      ∧ entry.2.Distinct ∧ ∃ answers : Answers, answers.Cover generator.mapper.isSome entry.2
        ∧ generator.Leaves transcript entry.2 answers
          (Node.settled generator.options.container entry.2 answers)
        ∧ type = (Node.settled generator.options.container entry.2 answers).direct
          generator.options.container) definitions nodes := by
    refine ((List.forall₂_and_left definitions nodes).2 ⟨h, hsettled⟩).imp fun entry node => ?_
    rintro ⟨hentry, answers, hcover, hleaves, rfl⟩
    exact ⟨_, rfl, hentry, answers, hcover, hleaves, rfl⟩
  obtain ⟨types, rfl, htypes⟩ := Declaration.exists_ofTypes_of_forall₂ hnodes
  have hlines := Declaration.body_eq_join generator.options.container types
  refine ⟨types, transcript, rfl, ?_, hlines, hrecorded, htypes.imp fun entry typed => ?_⟩
  · rw [value_source_of_resolveAll hrun, Declaration.file_ofTypes]
    rfl
  · rintro ⟨hname, hentry, answers, hcover, hleaves, htype⟩
    refine ⟨hname, TypeExpr.textOf_pieces _, answers, _, hleaves, htype, ?_⟩
    intro key position written spliced target hw hp
    rw [htype]
    exact lookups_of_settled generator.options.container hentry hcover hw hp

/-- A definition that points to itself, under a key in which every coding has something to escape. -/
def knottedSchema : Schema :=
  { properties := some [("next", { ref := some "#/definitions/~01~1'\"" })] }

def knottedDefinitions : List (String × Schema) := [("~1/'\"", knottedSchema)]

def knottedType : TypeExpr :=
  .object ⟨[⟨"next", .reference "definitions" "~1/'\"", true, none⟩], none⟩

theorem knottedDefinitions_distinct : ∀ entry ∈ knottedDefinitions, entry.2.Distinct := by
  intro entry he
  obtain rfl := List.mem_singleton.1 he
  refine .mk (by decide) fun child hc => ?_
  obtain rfl := List.mem_singleton.1 hc
  exact Schema.distinct_of_children_eq_nil rfl

/-- The property shows the look-up of the definition. -/
theorem references_land_on_their_keys_knotted :
    (∀ entry ∈ knottedDefinitions, entry.2.Distinct)
    ∧ (outcome (resolveAll ({} : Generator Unit)
      (knottedDefinitions.map fun (name, schema) => (name, .ofSchema schema))) ()).value
        = (.ok [("~1/'\"", Node.resolved knottedType)], ())
    ∧ some "#/definitions/~01~1'\"" = some (Pointer.ofDefinition "~1/'\"")
    ∧ .word "definitions['~1/\\'\"']" ∈ knottedType.pieces := by
  have hrun : (outcome (resolveAll ({} : Generator Unit)
      (knottedDefinitions.map fun (name, schema) => (name, .ofSchema schema))) ()).value
        = (.ok [("~1/'\"", Node.resolved knottedType)], ()) := by
    cbv
  have hpointer : some "#/definitions/~01~1'\"" = some (Pointer.ofDefinition "~1/'\"") := by
    cbv
  have hlookup : "definitions" ++ "[" ++ Text.singleQuoted "~1/'\"" ++ "]"
      = "definitions['~1/\\'\"']" := by
    cbv
  obtain ⟨⟨types, transcript, hnodes, -, -, -, htypes⟩, -⟩ :=
    references_land_on_their_keys {} knottedDefinitions_distinct hrun
  refine ⟨knottedDefinitions_distinct, hrun, hpointer, ?_⟩
  cases htypes with
  | @cons _ typed _ _ hfirst hrest =>
    cases hrest
    obtain ⟨name, type⟩ := typed
    cases hnodes
    obtain ⟨-, -, answers, tree, hleaves, -, hlookups⟩ := hfirst
    cases hleaves with
    | asked hm => cases hm
    | unasked =>
      have hlink : (.property "next", .resolved (.reference "definitions" "~1/'\""))
          ∈ (knottedSchema.keywords.map (Node.loaded "definitions")).edges := by
        rw [Keywords.edges_map]
        refine List.mem_map.2 ⟨(.property "next", _), List.mem_singleton_self _, ?_⟩
        rw [Node.loaded_of_ref "definitions" hpointer, Pointer.name_ofDefinition]
        rfl
      have hwrites : (Node.loaded "definitions" knottedSchema).Writes [.property "next"]
          (.resolved (.reference "definitions" "~1/'\"")) := by
        rw [Node.loaded_of_ref_eq_none "definitions" rfl]
        exact .inside hlink rfl (.here _)
      rw [← hlookup]
      exact (hlookups "~1/'\"" [.property "next"] _ false _ rfl hpointer).2 hwrites

end Generator
end SchemaTypes
