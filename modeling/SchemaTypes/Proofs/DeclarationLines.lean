import SchemaTypes.Proofs.DeclarationText
import SchemaTypes.Proofs.JsonString
import SchemaTypes.Proofs.LineEnds

/-! The interface line by line: the header, a line for each definition, and the closing line. Read
line by line, the text gives back every key and the text of its type. -/
namespace SchemaTypes.Declaration

open Text (FreeOf NoLineEnd)

/-! ### The lines -/

/-- The lines in front of the members. -/
def headerLines (container : String) : List String :=
  ["", "", "", "export interface " ++ container ++ " \x7b"]

/-- The line of a definition. -/
def memberLine (name : String) (type : TypeExpr) : String :=
  "  " ++ Json.quote name ++ ": " ++ type.text ++ ";"

def linesOf (container : String) (types : List (String × TypeExpr)) : List String :=
  headerLines container ++ types.map (fun entry => memberLine entry.1 entry.2) ++ ["\x7d"]

theorem header_eq_join (container : String) :
    header container = String.join ((headerLines container).map (· ++ "\n")) := by
  have hfront : "\n\n\nexport interface " = "\n" ++ ("\n" ++ ("\n" ++ "export interface ")) := by
    decide
  have hback : " \x7b\n" = " \x7b" ++ "\n" := by decide
  refine (congrArg₂ (fun front back => front ++ container ++ back) hfront hback).trans ?_
  simp only [headerLines, List.map_cons, List.map_nil, String.join_cons, String.join_nil,
    String.append_assoc, String.empty_append, String.append_empty]

theorem member_eq_line (name : String) (type : TypeExpr) :
    member name type = memberLine name type ++ "\n" := by
  have hback : ";\n" = ";" ++ "\n" := by decide
  simp only [member, memberLine, hback, String.append_assoc]

theorem body_eq_join (container : String) (types : List (String × TypeExpr)) :
    body container types = String.join ((linesOf container types).map (· ++ "\n")) := by
  have hclosing : "\x7d\n" = "\x7d" ++ "\n" := by decide
  simp only [body, linesOf, header_eq_join, member_eq_line, hclosing, List.map_append, List.map_map,
    Function.comp_def, List.map_cons, List.map_nil, String.join_append, String.join_cons,
    String.join_nil, String.append_empty]

theorem intercalate_concat_nil (c : Char) (lines : List (List Char)) :
    [c].intercalate (lines ++ [[]]) = lines.flatMap (· ++ [c]) := by
  induction lines with
  | nil => rfl
  | cons line rest ih =>
    obtain ⟨next, others, hrest⟩ := List.exists_cons_of_ne_nil (List.append_ne_nil_of_right_ne_nil
      rest (List.cons_ne_nil [] []))
    rw [List.flatMap_cons, ← ih, List.cons_append, hrest, List.intercalate_cons_cons,
      List.append_assoc]

/-- Lines without the mark at their ends are found again. -/
theorem splitOn_flatMap {c : Char} {lines : List (List Char)} (h : ∀ line ∈ lines, c ∉ line) :
    (lines.flatMap (· ++ [c])).splitOn c = lines ++ [[]] := by
  rw [← intercalate_concat_nil]
  refine List.splitOn_intercalate c (fun line hl => ?_) (by simp)
  rcases List.mem_append.1 hl with hl | hl
  · exact h line hl
  · obtain rfl := List.mem_singleton.1 hl
    exact List.not_mem_nil

/-! ### What ends a line inside of a line -/

/-- Between the quotes of a key no line feed and no carriage return stands for itself, but both
separators do. -/
theorem mem_quote_iff_of_isLineEnd {c : Char} (h : Text.isLineEnd c) (name : String) :
    c ∈ (Json.quote name).toList ↔ (c = '\u2028' ∨ c = '\u2029') ∧ c ∈ name.toList := by
  constructor
  · intro hmem
    rcases Json.mem_quote hmem with hprintable | ⟨hname, hle⟩
    · rcases Text.lineEnd_cases h with rfl | rfl | rfl | rfl <;>
        exact absurd hprintable (by decide)
    · rcases Text.lineEnd_cases h with rfl | rfl | hseparator
      · exact absurd hle (by decide)
      · exact absurd hle (by decide)
      · exact ⟨hseparator, hname⟩
  · rintro ⟨rfl | rfl, hmem⟩
    · exact Json.mem_quote_of_le hmem (by decide)
    · exact Json.mem_quote_of_le hmem (by decide)

theorem mem_memberLine_iff {c : Char} (h : Text.isLineEnd c) (name : String) {type : TypeExpr}
    (ht : c ∉ type.text.toList) :
    c ∈ (memberLine name type).toList ↔ c ∈ (Json.quote name).toList := by
  have hmarks : NoLineEnd "  " ∧ NoLineEnd ": " ∧ NoLineEnd ";" := by decide
  obtain ⟨hindent, hcolon, hclosing⟩ := hmarks
  simp only [memberLine, String.toList_append, List.mem_append]
  constructor
  · rintro ((((hc | hc) | hc) | hc) | hc)
    · exact absurd h (hindent c hc)
    · exact hc
    · exact absurd h (hcolon c hc)
    · exact absurd hc ht
    · exact absurd h (hclosing c hc)
  · exact fun hc => .inl (.inl (.inl (.inr hc)))

theorem notMem_headerLines {c : Char} (h : Text.isLineEnd c) {container : String}
    (hc : c ∉ container.toList) : ∀ line ∈ headerLines container, c ∉ line.toList := by
  have hempty : c ∉ "".toList := nofun
  have hmarks : NoLineEnd "export interface " ∧ NoLineEnd " \x7b" := by decide
  obtain ⟨hopen, hbrace⟩ := hmarks
  have hlast : c ∉ ("export interface " ++ container ++ " \x7b").toList := by
    simp only [String.toList_append, List.mem_append]
    rintro ((hmem | hmem) | hmem)
    · exact hopen c hmem h
    · exact hc hmem
    · exact hbrace c hmem h
  simp only [headerLines, List.forall_mem_cons]
  exact ⟨hempty, hempty, hempty, hlast, nofun⟩

/-- What ends a line stands in the lines of the interface where it stands in the quotes of a key. -/
theorem mem_linesOf_iff {c : Char} (h : Text.isLineEnd c) {container : String}
    (hc : c ∉ container.toList) {types : List (String × TypeExpr)}
    (ht : ∀ entry ∈ types, c ∉ entry.2.text.toList) :
    (∃ line ∈ linesOf container types, c ∈ line.toList)
      ↔ ∃ entry ∈ types, c ∈ (Json.quote entry.1).toList := by
  have hclosing : NoLineEnd "\x7d" := by decide
  constructor
  · rintro ⟨line, hl, hmem⟩
    rcases List.mem_append.1 hl with hl | hl
    · rcases List.mem_append.1 hl with hl | hl
      · exact absurd hmem (notMem_headerLines h hc line hl)
      · obtain ⟨entry, he, rfl⟩ := List.mem_map.1 hl
        exact ⟨entry, he, (mem_memberLine_iff h entry.1 (ht entry he)).1 hmem⟩
    · obtain rfl := List.mem_singleton.1 hl
      exact absurd h (hclosing c hmem)
  · rintro ⟨entry, he, hmem⟩
    refine ⟨memberLine entry.1 entry.2, ?_, (mem_memberLine_iff h entry.1 (ht entry he)).2 hmem⟩
    exact List.mem_append_left _ (List.mem_append_right _ (List.mem_map_of_mem he))

theorem notMem_quote (name : String) : '\n' ∉ (Json.quote name).toList := by
  rw [mem_quote_iff_of_isLineEnd rfl]
  exact fun h => absurd h.1 (by decide)

/-- The lines of the text are those of the header, of the definitions and of the end. -/
theorem splitOn_body {container : String} (hc : '\n' ∉ container.toList)
    {types : List (String × TypeExpr)} (ht : ∀ entry ∈ types, '\n' ∉ entry.2.text.toList) :
    (body container types).toList.splitOn '\n'
      = (linesOf container types).map String.toList ++ [[]] := by
  have hchars : (body container types).toList
      = ((linesOf container types).map String.toList).flatMap (· ++ ['\n']) := by
    rw [body_eq_join, String.toList_join, List.flatMap_map, List.flatMap_map]
    simp only [String.toList_append]
    rfl
  rw [hchars]
  refine splitOn_flatMap (List.forall_mem_map.2 fun line hl hmem => ?_)
  obtain ⟨entry, -, hquote⟩ := (mem_linesOf_iff rfl hc ht).1 ⟨line, hl, hmem⟩
  exact notMem_quote entry.1 hquote

/-! ### Reading the lines -/

/-- Reads a line: the key as a JSON string first, then what stands in front of the semicolon. -/
def readMember? (line : List Char) : Option (String × String) :=
  match line with
  | ' ' :: ' ' :: '"' :: inside => do
    let (pieces, behind) ← Json.stringPieces? [] inside
    let key ← Json.joinPieces? [] pieces
    match behind with
    | ':' :: ' ' :: type =>
      if type.getLast? = some ';' then some (String.ofList key, String.ofList type.dropLast)
      else none
    | _ => none
  | _ => none

/-- Reads the text of an interface: its header is four lines, and its last line is empty. -/
def readBody? (cs : List Char) : Option (List (String × String)) :=
  ((cs.splitOn '\n').drop 4).dropLast.dropLast.mapM readMember?

theorem readMember?_memberLine (name : String) (type : TypeExpr) :
    readMember? (memberLine name type).toList = some (name, type.text) := by
  have hline : (memberLine name type).toList
      = ' ' :: ' ' :: '"' :: (name.toList.flatMap Json.escapeChar
        ++ '"' :: ':' :: ' ' :: (type.text.toList ++ [';'])) := by
    simp [memberLine, Json.quote, Json.escape]
  rw [hline, readMember?, Json.stringPieces?_escape]
  simp [Json.joinPieces?_map_pieceOf]

theorem readBody?_body {container : String} (hc : '\n' ∉ container.toList)
    {types : List (String × TypeExpr)} (ht : ∀ entry ∈ types, '\n' ∉ entry.2.text.toList) :
    readBody? (body container types).toList
      = some (types.map fun entry => (entry.1, entry.2.text)) := by
  have hmembers : (types.map fun entry => (memberLine entry.1 entry.2).toList).mapM readMember?
      = some (types.map fun entry => (entry.1, entry.2.text)) := by
    clear ht
    induction types with
    | nil => rfl
    | cons entry rest ih => simp [readMember?_memberLine, ih]
  have hinside : ((linesOf container types).map String.toList ++ [[]]).drop 4
      = (types.map fun entry => (memberLine entry.1 entry.2).toList) ++ [['\x7d']] ++ [[]] := by
    simp [linesOf, headerLines]
  rw [readBody?, splitOn_body hc ht, hinside, List.dropLast_concat, List.dropLast_concat, hmembers]

/-! ### Failure -/

/-- Without a type for some definition there is no text, but the name of the first such definition. -/
theorem file_eq_error_iff {definitions : List (String × Node)} {container banner name : String} :
    file definitions container banner = .error name
      ↔ ∃ before schema after, definitions = before ++ (name, .pending schema) :: after
        ∧ ∀ entry ∈ before, entry.2.isResolved := by
  constructor
  · intro herror
    rcases exists_ofTypes_or_pending definitions with
      ⟨types, rfl⟩ | ⟨before, first, schema, after, rfl⟩
    · rw [file_ofTypes] at herror
      cases herror
    · rw [file_pending] at herror
      cases herror
      exact ⟨ofTypes before, schema, after, rfl, List.forall_mem_map.2 fun _ _ => rfl⟩
  · rintro ⟨before, schema, after, rfl, hbefore⟩
    rcases exists_ofTypes_or_pending before with ⟨types, rfl⟩ | ⟨front, first, other, back, rfl⟩
    · exact file_pending types name schema after container banner
    · have hpending := hbefore (first, .pending other) (by simp)
      cases hpending

/-- A file of definitions reads back. There is none exactly if some definition has no type, and then
the first such definition is named. Otherwise, if containers and texts from outside have no line feed,
the text behind the banner is the header, a line for each definition in order, and the closing line,
no key and no type has a line feed, and the lines give back the keys with the texts of their types. -/
theorem definitions_read_back (definitions : List (String × Node)) (container banner : String)
    (hc : '\n' ∉ container.toList) :
    (∀ name, file definitions container banner = .error name
      ↔ ∃ before schema after, definitions = before ++ (name, .pending schema) :: after
        ∧ ∀ entry ∈ before, entry.2.isResolved)
    ∧ ∀ types, definitions = ofTypes types → (∀ entry ∈ types, entry.2.IsFreeOf (· = '\n')) →
      file definitions container banner = .ok (banner ++ body container types)
      ∧ (body container types).toList.splitOn '\n'
        = (linesOf container types).map String.toList ++ [[]]
      ∧ (∀ entry ∈ types, '\n' ∉ (Json.quote entry.1).toList ∧ '\n' ∉ entry.2.text.toList)
      ∧ readBody? (body container types).toList
        = some (types.map fun entry => (entry.1, entry.2.text)) := by
  refine ⟨fun name => file_eq_error_iff, ?_⟩
  rintro types rfl h
  have htexts : ∀ entry ∈ types, '\n' ∉ entry.2.text.toList := by
    intro entry he hmem
    exact (h entry he).freeOf_text (fun _ hfeed => by rw [hfeed]; rfl) '\n' hmem rfl
  exact ⟨file_ofTypes types container banner, splitOn_body hc htexts,
    fun entry he => ⟨notMem_quote entry.1, htexts entry he⟩, readBody?_body hc htexts⟩

/-- A key that looks like the end of a member, and a description and a literal with line feeds. -/
def brokenTypes : List (String × TypeExpr) :=
  [("a\": b;\n", .object ⟨[⟨"x\ny", .literal "\n", true, some "one\ntwo"⟩], none⟩),
    ("b", .array (.reference "definitions" "a\": b;\n"))]

theorem brokenTypes_isFreeOf : ∀ entry ∈ brokenTypes, entry.2.IsFreeOf (· = '\n') := by
  have hcontainer : FreeOf (· = '\n') "definitions" := by decide
  simp only [brokenTypes, List.forall_mem_cons]
  refine ⟨.object ?_ nofun, .array (.reference hcontainer _), nofun⟩
  simp only [List.forall_mem_cons]
  exact ⟨.literal _, nofun⟩

theorem definitions_read_back_broken :
    '\n' ∉ "definitions".toList ∧ (∀ entry ∈ brokenTypes, entry.2.IsFreeOf (· = '\n'))
    ∧ readBody? (body "definitions" brokenTypes).toList = some [
      ("a\": b;\n", "\x7b /** one two */ 'x\\ny'?: '\\n' \x7d"),
      ("b", "definitions['a\": b;\\n'][]")] := by
  have hcontainer : '\n' ∉ "definitions".toList := by decide
  obtain ⟨-, htypes⟩ := definitions_read_back (ofTypes brokenTypes) "definitions" "" hcontainer
  obtain ⟨-, -, -, hread⟩ := htypes brokenTypes rfl brokenTypes_isFreeOf
  have htexts : (brokenTypes.map fun entry => (entry.1, entry.2.text)) = [
      ("a\": b;\n", "\x7b /** one two */ 'x\\ny'?: '\\n' \x7d"),
      ("b", "definitions['a\": b;\\n'][]")] := by
    decide +kernel
  exact ⟨hcontainer, brokenTypes_isFreeOf, hread.trans (congrArg some htexts)⟩

end SchemaTypes.Declaration
