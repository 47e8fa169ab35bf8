import SchemaTypes.Proofs.GeneratedType
import SchemaTypes.TypeExpr.Text

/-! The pieces of the text of a type, and which piece may stand behind which. In the text of a type
that a run can find no operand is missing, and text from outside stands alone behind its label. -/
namespace SchemaTypes

inductive Piece where
  /-- A keyword, a literal or a look-up. -/
  | word (text : String)
  | brackets
  | bar
  | ampersand
  | leftParen
  | rightParen
  | leftBrace
  | rightBrace
  /-- The literal of an object without members. -/
  | emptyBraces
  | semicolon
  /-- What stands in front of the type of a member of an object. -/
  | label (text : String)
  | verbatim (text : String)
deriving DecidableEq, Repr

namespace Piece

def text : Piece → String
  | .word text | .label text | .verbatim text => text
  | .brackets => "[]"
  | .bar => " | "
  | .ampersand => " & "
  | .leftParen => "("
  | .rightParen => ")"
  | .leftBrace => "\x7b "
  | .rightBrace => " \x7d"
  | .emptyBraces => "\x7b\x7d"
  | .semicolon => "; "

def startsOperand : Piece → Bool
  | .word _ | .leftParen | .leftBrace => true
  | _ => false

def endsOperand : Piece → Bool
  | .word _ | .brackets | .rightParen | .rightBrace => true
  | _ => false

def isLabel : Piece → Bool
  | .label _ => true
  | _ => false

def endsMember : Piece → Bool
  | .verbatim _ => true
  | piece => piece.endsOperand

/-- Whether the second piece may stand behind the first. Operators and marks stand behind a whole
operand, and operands behind an operator or a label. Text from outside stands behind a label, and
only the end of its member behind it. -/
def precedes (piece next : Piece) : Bool :=
  match next with
  | .brackets | .bar | .ampersand | .rightParen => piece.endsOperand
  | .semicolon | .rightBrace => piece.endsMember
  | .label _ => piece == .leftBrace || piece == .semicolon
  | .verbatim _ => piece.isLabel
  | .word _ | .leftParen | .leftBrace =>
    piece == .bar || piece == .ampersand || piece == .leftParen || piece.isLabel
  | .emptyBraces => false

def textOf (pieces : List Piece) : String := String.join (pieces.map text)

end Piece

namespace TypeExpr

open Piece (textOf)

def wrapped (yes : Bool) (pieces : List Piece) : List Piece :=
  if yes then .leftParen :: pieces ++ [.rightParen] else pieces

def bracedPieces : List (List Piece) → List Piece
  | [] => [.emptyBraces]
  | members => .leftBrace :: [.semicolon].intercalate members ++ [.rightBrace]

def propertyLabel (name : String) (optional : Bool) (doc : Option String) : String :=
  docComment doc ++ Text.propertyKey name ++ (if optional then "?" else "") ++ ": "

mutual
/-- The pieces of the text of a type. -/
def pieces : TypeExpr → List Piece
  | .primitive kind => [.word kind.keyword]
  | .literal value => [.word (Text.singleQuoted value)]
  | .array element => wrapped element.isComposed (pieces element) ++ [.brackets]
  | .union members => [.bar].intercalate (memberPieces members)
  | .intersection members => [.ampersand].intercalate (factorPieces members)
  | .object body => objectPieces body
  | .reference container name => [.word (container ++ "[" ++ Text.singleQuoted name ++ "]")]
  | .verbatim text => [.verbatim text]

def memberPieces : List TypeExpr → List (List Piece)
  | [] => []
  | member :: rest => pieces member :: memberPieces rest

def factorPieces : List TypeExpr → List (List Piece)
  | [] => []
  | member :: rest => wrapped member.isUnion (pieces member) :: factorPieces rest

def objectPieces : ObjectType → List Piece
  | ⟨properties, index⟩ => bracedPieces (propertyPieces properties ++ indexPieces index)

def propertyPieces : List Property → List (List Piece)
  | [] => []
  | ⟨name, type, optional, doc⟩ :: rest =>
    (.label (propertyLabel name optional doc) :: pieces type) :: propertyPieces rest

def indexPieces : Option TypeExpr → List (List Piece)
  | none => []
  | some value => [.label "[key: string]: " :: pieces value]
end

/-! ### The text is that of its pieces -/

theorem textOf_cons (piece : Piece) (rest : List Piece) :
    textOf (piece :: rest) = piece.text ++ textOf rest := by
  simp [textOf]

theorem textOf_append (front back : List Piece) :
    textOf (front ++ back) = textOf front ++ textOf back := by
  simp [textOf]

theorem textOf_singleton (piece : Piece) : textOf [piece] = piece.text := by
  simp [textOf]

theorem textOf_wrapped (yes : Bool) (pieces : List Piece) :
    textOf (wrapped yes pieces) = parenthesized yes (textOf pieces) := by
  cases yes with
  | false => rfl
  | true =>
    show textOf (.leftParen :: pieces ++ [.rightParen]) = "(" ++ textOf pieces ++ ")"
    rw [textOf_append, textOf_cons, textOf_singleton]
    rfl

theorem textOf_intercalate (separator : Piece) (parts : List (List Piece)) :
    textOf ([separator].intercalate parts) = Text.join separator.text (parts.map textOf) := by
  induction parts with
  | nil => rfl
  | cons part rest ih =>
    cases rest with
    | nil => simp [Text.join]
    | cons other rest =>
      rw [List.intercalate_cons_cons, textOf_append, textOf_append, ih, textOf_singleton]
      rfl

theorem textOf_bracedPieces (members : List (List Piece)) :
    textOf (bracedPieces members) = braced (members.map textOf) := by
  cases members with
  | nil => rfl
  | cons member rest =>
    show textOf (.leftBrace :: [.semicolon].intercalate (member :: rest) ++ [.rightBrace]) = _
    rw [textOf_append, textOf_cons, textOf_intercalate, textOf_singleton]
    rfl

mutual
/-- Nothing is in the text of a type but its pieces. -/
theorem textOf_pieces : ∀ type : TypeExpr, textOf type.pieces = type.text
  | .primitive kind => by rw [pieces, text, textOf_singleton, Piece.text]
  | .literal value => by rw [pieces, text, textOf_singleton, Piece.text]
  | .array element => by
    rw [pieces, text, textOf_append, textOf_wrapped, textOf_pieces element, textOf_singleton,
      Piece.text]
  | .union members => by
    rw [pieces, text, textOf_intercalate, map_textOf_memberPieces members, Piece.text]
  | .intersection members => by
    rw [pieces, text, textOf_intercalate, map_textOf_factorPieces members, Piece.text]
  | .object body => by rw [pieces, text, textOf_objectPieces body]
  | .reference container name => by rw [pieces, text, textOf_singleton, Piece.text]
  | .verbatim value => by rw [pieces, text, textOf_singleton, Piece.text]

theorem map_textOf_memberPieces :
    ∀ members : List TypeExpr, (memberPieces members).map textOf = unionTexts members
  | [] => rfl
  | member :: rest => by
    rw [memberPieces, unionTexts, List.map_cons, textOf_pieces member,
      map_textOf_memberPieces rest]

theorem map_textOf_factorPieces :
    ∀ members : List TypeExpr, (factorPieces members).map textOf = intersectionTexts members
  | [] => rfl
  | member :: rest => by
    rw [factorPieces, intersectionTexts, List.map_cons, textOf_wrapped, textOf_pieces member,
      map_textOf_factorPieces rest]

theorem textOf_objectPieces : ∀ body : ObjectType, textOf (objectPieces body) = objectText body
  | ⟨properties, index⟩ => by
    rw [objectPieces, objectText, textOf_bracedPieces, List.map_append,
      map_textOf_propertyPieces properties, map_textOf_indexPieces index]

theorem map_textOf_propertyPieces :
    ∀ properties : List Property, (propertyPieces properties).map textOf = propertyTexts properties
  | [] => rfl
  | ⟨name, type, optional, doc⟩ :: rest => by
    rw [propertyPieces, propertyTexts, List.map_cons, textOf_cons, textOf_pieces type,
      map_textOf_propertyPieces rest]
    rfl

theorem map_textOf_indexPieces :
    ∀ index : Option TypeExpr, (indexPieces index).map textOf = indexTexts index
  | none => rfl
  | some value => by
    rw [indexPieces, indexTexts, List.map_singleton, textOf_cons, textOf_pieces value, Piece.text]
end

end TypeExpr

/-! ### What stands beside what -/

namespace Piece

/-- Pieces of which each may stand behind the one before it, from one kind of piece to another. -/
structure Lays (first last : Piece → Bool) (pieces : List Piece) : Prop where
  chain : pieces.IsChain fun piece next => piece.precedes next
  head : ∃ piece, pieces.head? = some piece ∧ first piece
  last : ∃ piece, pieces.getLast? = some piece ∧ last piece

namespace Lays

variable {first last start finish : Piece → Bool} {pieces others : List Piece}

theorem singleton {piece : Piece} (hf : first piece) (hl : last piece) :
    Lays first last [piece] :=
  ⟨.singleton piece, ⟨piece, rfl, hf⟩, ⟨piece, rfl, hl⟩⟩

theorem append (h : Lays first last pieces) (ho : Lays start finish others)
    (hj : ∀ piece next, last piece → start next → piece.precedes next) :
    Lays first finish (pieces ++ others) := by
  obtain ⟨chain, ⟨a, ha, hfirst⟩, ⟨b, hb, hlast⟩⟩ := h
  obtain ⟨chain', ⟨c, hc, hstart⟩, ⟨d, hd, hfinish⟩⟩ := ho
  refine ⟨List.isChain_append.2 ⟨chain, chain', fun x hx y hy => ?_⟩, ⟨a, ?_, hfirst⟩,
    ⟨d, ?_, hfinish⟩⟩
  · cases hb.symm.trans hx
    cases hc.symm.trans hy
    exact hj b c hlast hstart
  · rw [List.head?_append, ha]
    rfl
  · rw [List.getLast?_append, hd]
    rfl

theorem weaken (h : Lays first last pieces) (hl : ∀ piece, last piece → finish piece) :
    Lays first finish pieces := by
  obtain ⟨piece, hpiece, hlast⟩ := h.last
  exact ⟨h.chain, h.head, ⟨piece, hpiece, hl piece hlast⟩⟩

theorem intercalate {separator : Piece} {parts : List (List Piece)} (hne : parts ≠ [])
    (h : ∀ part ∈ parts, Lays first last part)
    (hbefore : ∀ piece, last piece → piece.precedes separator)
    (hbehind : ∀ next, first next → separator.precedes next) :
    Lays first last ([separator].intercalate parts) := by
  induction parts with
  | nil => exact absurd rfl hne
  | cons part rest ih =>
    obtain ⟨hpart, hrest⟩ := List.forall_mem_cons.1 h
    cases rest with
    | nil => simpa using hpart
    | cons other rest =>
      have hseparator : Lays (· == separator) (· == separator) [separator] :=
        singleton (beq_self_eq_true _) (beq_self_eq_true _)
      rw [List.intercalate_cons_cons]
      refine (hpart.append hseparator fun piece next hl hs => ?_).append
        (ih (by simp) hrest) fun piece next hs hf => ?_
      · rw [beq_iff_eq.1 hs]
        exact hbefore piece hl
      · rw [beq_iff_eq.1 hs]
        exact hbehind next hf

/-- Behind a piece in the middle stands one that it precedes. -/
theorem exists_behind (h : Lays first last pieces) {front back : List Piece} {piece : Piece}
    (hp : pieces = front ++ piece :: back) (hl : last piece = false) :
    ∃ next, back.head? = some next ∧ piece.precedes next := by
  subst hp
  obtain ⟨-, hback, -⟩ := List.isChain_append.1 h.chain
  cases back with
  | nil =>
    obtain ⟨end', hend, hlast⟩ := h.last
    rw [List.getLast?_append] at hend
    cases hend
    exact absurd hlast (Bool.eq_false_iff.1 hl)
  | cons next rest => exact ⟨next, rfl, (List.isChain_cons_cons.1 hback).1⟩

/-- In front of a piece in the middle stands one that precedes it. -/
theorem exists_before (h : Lays first last pieces) {front back : List Piece} {piece : Piece}
    (hp : pieces = front ++ piece :: back) (hf : first piece = false) :
    ∃ previous, front.getLast? = some previous ∧ previous.precedes piece := by
  subst hp
  obtain ⟨-, -, hjoin⟩ := List.isChain_append.1 h.chain
  rcases List.eq_nil_or_concat front with rfl | ⟨init, previous, rfl⟩
  · obtain ⟨start', hstart, hfirst⟩ := h.head
    cases hstart
    exact absurd hfirst (Bool.eq_false_iff.1 hf)
  · exact ⟨previous, by simp, hjoin previous (by simp) piece rfl⟩

end Lays

/-- Pieces that are an operand as a whole. -/
abbrev IsOperand (pieces : List Piece) : Prop := Lays startsOperand endsOperand pieces

theorem precedes_of_startsOperand {piece next : Piece}
    (h : piece = .bar ∨ piece = .ampersand ∨ piece = .leftParen ∨ piece.isLabel)
    (hn : next.startsOperand) : piece.precedes next := by
  have hprecedes : piece.precedes next
      = (piece == .bar || piece == .ampersand || piece == .leftParen || piece.isLabel) := by
    cases next <;> first | rfl | cases hn
  rw [hprecedes]
  simpa [or_assoc] using h

theorem endsMember_of_endsOperand {piece : Piece} (h : piece.endsOperand) : piece.endsMember := by
  cases piece <;> first | rfl | exact h

namespace IsOperand

variable {pieces : List Piece}

theorem wrapped (h : IsOperand pieces) (yes : Bool) : IsOperand (TypeExpr.wrapped yes pieces) := by
  cases yes with
  | false => exact h
  | true =>
    have hopen : Lays startsOperand (· == .leftParen) [.leftParen] := .singleton rfl rfl
    have hclose : Lays (· == .rightParen) endsOperand [.rightParen] := .singleton rfl rfl
    refine (hopen.append h fun piece next hp hn => ?_).append hclose fun piece next hp hn => ?_
    · rw [beq_iff_eq.1 hp]
      exact precedes_of_startsOperand (by simp) hn
    · rw [beq_iff_eq.1 hn]
      exact hp

theorem array (h : IsOperand pieces) : IsOperand (pieces ++ [.brackets]) := by
  have hbrackets : Lays (· == .brackets) endsOperand [.brackets] := .singleton rfl rfl
  refine h.append hbrackets fun piece next hp hn => ?_
  rw [beq_iff_eq.1 hn]
  exact hp

/-- A label and the type of a member, which may be text from outside. -/
theorem labelled (h : IsOperand pieces ∨ ∃ text, pieces = [.verbatim text]) (text : String) :
    Lays isLabel endsMember (.label text :: pieces) := by
  have hlabel : Lays isLabel isLabel [.label text] := .singleton rfl rfl
  rcases h with h | ⟨other, rfl⟩
  · refine (hlabel.append h fun piece next hp hn => ?_).weaken fun _ => endsMember_of_endsOperand
    exact precedes_of_startsOperand (.inr (.inr (.inr hp))) hn
  · exact ⟨.cons_cons rfl (.singleton _), ⟨_, rfl, rfl⟩, ⟨_, rfl, rfl⟩⟩

theorem braced {members : List (List Piece)} (hne : members ≠ [])
    (h : ∀ member ∈ members, Lays isLabel endsMember member) :
    IsOperand (TypeExpr.bracedPieces members) := by
  have hopen : Lays startsOperand (· == .leftBrace) [.leftBrace] := .singleton rfl rfl
  have hclose : Lays (· == .rightBrace) endsOperand [.rightBrace] := .singleton rfl rfl
  have hinside : Lays isLabel endsMember ([.semicolon].intercalate members) := by
    refine .intercalate hne h (fun piece hp => hp) fun next hn => ?_
    cases next <;> first | rfl | cases hn
  obtain ⟨member, rest, rfl⟩ := List.exists_cons_of_ne_nil hne
  refine (hopen.append hinside fun piece next hp hn => ?_).append hclose fun piece next hp hn => ?_
  · rw [beq_iff_eq.1 hp]
    cases next <;> first | rfl | cases hn
  · rw [beq_iff_eq.1 hn]
    exact hp

end IsOperand
end Piece

namespace TypeExpr

open Piece (IsOperand Lays)

theorem memberPieces_eq_map (members : List TypeExpr) :
    memberPieces members = members.map pieces := by
  induction members with
  | nil => rfl
  | cons member rest ih => rw [memberPieces, ih, List.map_cons]

theorem factorPieces_eq_map (members : List TypeExpr) :
    factorPieces members = members.map fun m => wrapped m.isUnion m.pieces := by
  induction members with
  | nil => rfl
  | cons member rest ih => rw [factorPieces, ih, List.map_cons]

theorem propertyPieces_eq_map (properties : List Property) :
    propertyPieces properties = properties.map fun p =>
      .label (propertyLabel p.name p.optional p.doc) :: p.type.pieces := by
  induction properties with
  | nil => rfl
  | cons p rest ih =>
    obtain ⟨name, type, optional, doc⟩ := p
    rw [propertyPieces, ih, List.map_cons]

theorem isOperand_intercalate {separator : Piece} {parts : List (List Piece)}
    (hs : separator = .bar ∨ separator = .ampersand) (several : 2 ≤ parts.length)
    (h : ∀ part ∈ parts, IsOperand part) : IsOperand ([separator].intercalate parts) := by
  have hne : parts ≠ [] := by
    rintro rfl
    cases several
  refine .intercalate hne h (fun piece hp => ?_) fun next hn => ?_
  · rcases hs with rfl | rfl <;> exact hp
  · exact Piece.precedes_of_startsOperand (hs.imp_right .inl) hn

theorem isOperand_object {properties : List Property} {index : Option TypeExpr}
    (nonempty : properties ≠ [] ∨ index.isSome)
    (hp : ∀ p ∈ properties, IsOperand p.type.pieces ∨ ∃ text, p.type.pieces = [.verbatim text])
    (hi : ∀ value ∈ index, IsOperand value.pieces) :
    IsOperand (object ⟨properties, index⟩).pieces := by
  rw [pieces, objectPieces]
  refine .braced ?_ fun member hm => ?_
  · rw [propertyPieces_eq_map]
    rcases nonempty with hne | hsome
    · simp [hne]
    · obtain ⟨value, rfl⟩ := Option.isSome_iff_exists.1 hsome
      simp [indexPieces]
  · rcases List.mem_append.1 hm with hm | hm
    · rw [propertyPieces_eq_map] at hm
      obtain ⟨p, hmem, rfl⟩ := List.mem_map.1 hm
      exact Piece.IsOperand.labelled (hp p hmem) _
    · cases index with
      | none => cases hm
      | some value =>
        obtain rfl := List.mem_singleton.1 hm
        exact Piece.IsOperand.labelled (.inl (hi value rfl)) _

/-- The text of a type that a run can find is an operand. -/
theorem IsGenerated.isOperand {container : String} {hooked : Bool} {type : TypeExpr}
    (h : type.IsGenerated container hooked) : IsOperand type.pieces := by
  induction h with
  | primitive kind => exact .singleton rfl rfl
  | literal text => exact .singleton rfl rfl
  | array _ ih => exact (ih.wrapped _).array
  | union several literals =>
    rw [pieces, memberPieces_eq_map]
    refine isOperand_intercalate (.inl rfl) (by simpa using several) ?_
    refine List.forall_mem_map.2 fun member hm => ?_
    obtain ⟨text, rfl⟩ := literals member hm
    exact .singleton rfl rfl
  | intersection several _ ih =>
    rw [pieces, factorPieces_eq_map]
    refine isOperand_intercalate (.inr rfl) (by simpa using several) ?_
    exact List.forall_mem_map.2 fun member hm => (ih member hm).wrapped _
  | object nonempty _ _ _ values ih =>
    refine isOperand_object nonempty (fun p hm => ?_) fun value hv => ?_
    · cases htext : p.type.isVerbatim with
      | false => exact .inl (ih p hm htext)
      | true =>
        cases htype : p.type with
        | verbatim text => exact .inr ⟨text, by rw [pieces]⟩
        | primitive | literal | array | union | intersection | object | reference =>
          rw [htype] at htext
          cases htext
    · obtain ⟨kind, rfl⟩ := values value hv
      exact .singleton rfl rfl
  | reference name => exact .singleton rfl rfl

/-- In such a text no literal is without members, and text from outside stands between the label of
a property and the end of its member. -/
theorem IsGenerated.beside {container : String} {hooked : Bool} {type : TypeExpr}
    (h : type.IsGenerated container hooked) : .emptyBraces ∉ type.pieces
      ∧ ∀ front text back, type.pieces = front ++ .verbatim text :: back →
        (∃ label, front.getLast? = some (.label label))
          ∧ (back.head? = some .semicolon ∨ back.head? = some .rightBrace) := by
  refine ⟨fun hempty => ?_, fun front text back hpieces => ⟨?_, ?_⟩⟩
  · obtain ⟨front, back, hpieces⟩ := List.append_of_mem hempty
    obtain ⟨previous, -, hprecedes⟩ := h.isOperand.exists_before hpieces rfl
    cases hprecedes
  · obtain ⟨previous, hprevious, hprecedes⟩ := h.isOperand.exists_before hpieces rfl
    rw [hprevious]
    cases previous <;> first | exact ⟨_, rfl⟩ | cases hprecedes
  · obtain ⟨next, hnext, hprecedes⟩ := h.isOperand.exists_behind hpieces rfl
    rw [hnext]
    cases next <;> first | exact .inl rfl | exact .inr rfl | cases hprecedes

end TypeExpr
end SchemaTypes
