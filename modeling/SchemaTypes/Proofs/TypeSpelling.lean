import Mathlib.Data.List.Forall2
import SchemaTypes.Proofs.TypeReading

/-! The tokens in the text of a type, from those in the texts of its parts. -/
namespace SchemaTypes

open Text
open TypeToken (EndsWord lex lex_blank lex_docComment lex_mark lex_quoted lex_word shownDoc)
open TypeGrammar (indexTokens keyToken propertyTokens)

/-- The text is made of the tokens, in front of everything that ends a word. -/
def Spells (text : String) (tokens : List TypeToken) : Prop :=
  ∀ rest, EndsWord rest → lex (text.toList ++ rest) = (lex rest).map (tokens ++ ·)

theorem endsWord_cons {c : Char} (h : isIdentifierPart c = false) (rest : List Char) :
    EndsWord (c :: rest) := by
  intro d hd
  cases hd
  exact h

theorem lex_marks {a b : Char} {first second : TypeToken} (ha : TypeToken.ofMark? a = some first)
    (hb : TypeToken.ofMark? b = some second) (rest : List Char) :
    lex (a :: b :: rest) = (lex rest).map ([first, second] ++ ·) := by
  rw [lex_mark ha, lex_mark hb, Option.map_map]
  rfl

theorem spells_word {name : String} (h : isIdentifier name) : Spells name [.word name] :=
  fun _ hrest => lex_word h hrest

theorem spells_singleQuoted (s : String) : Spells (singleQuoted s) [.quoted s] :=
  fun rest _ => lex_quoted s rest

theorem spells_reference {container : String} (h : isIdentifier container) (name : String) :
    Spells (container ++ "[" ++ singleQuoted name ++ "]")
      [.word container, .leftBracket, .quoted name, .rightBracket] := by
  intro rest _
  have htext : (container ++ "[" ++ singleQuoted name ++ "]").toList ++ rest
      = container.toList ++ '[' :: ((singleQuoted name).toList ++ ']' :: rest) := by
    simp
  rw [htext, lex_word h (endsWord_cons rfl _), lex_mark rfl, lex_quoted, lex_mark rfl]
  simp [Function.comp_def]

section
variable {text : String} {tokens : List TypeToken}

theorem Spells.array (h : Spells text tokens) :
    Spells (text ++ "[]") (tokens ++ [.leftBracket, .rightBracket]) := by
  intro rest _
  have htext : (text ++ "[]").toList ++ rest = text.toList ++ '[' :: ']' :: rest := by simp
  rw [htext, h _ (endsWord_cons rfl _), lex_marks rfl rfl]
  simp [Function.comp_def]

theorem Spells.parenthesized (h : Spells text tokens) :
    Spells ("(" ++ text ++ ")") (.leftParen :: tokens ++ [.rightParen]) := by
  intro rest _
  have htext : ("(" ++ text ++ ")").toList ++ rest = '(' :: (text.toList ++ ')' :: rest) := by
    simp
  rw [htext, lex_mark rfl, h _ (endsWord_cons rfl _), lex_mark rfl]
  simp [Function.comp_def]

theorem Spells.indexed (h : Spells text tokens) :
    Spells ("[key: string]: " ++ text) (indexTokens tokens) := by
  intro rest hrest
  have htext : ("[key: string]: " ++ text).toList ++ rest = '[' :: ("key".toList ++ ':' :: ' ' ::
      ("string".toList ++ ']' :: ':' :: ' ' :: (text.toList ++ rest))) := by
    simp
  rw [htext, lex_mark rfl, lex_word (by decide) (endsWord_cons rfl _), lex_mark rfl, lex_blank,
    lex_word (by decide) (endsWord_cons rfl _), lex_marks rfl rfl, lex_blank, h _ hrest]
  simp [Function.comp_def, indexTokens]

theorem lex_propertyKey (name : String) {rest : List Char} (h : EndsWord rest) :
    lex ((propertyKey name).toList ++ rest) = (lex rest).map (keyToken name :: ·) := by
  unfold propertyKey keyToken
  split
  next hname => exact lex_word hname h
  next => exact lex_quoted name rest

theorem Spells.property {property : Property} (h : Spells text tokens) :
    Spells (docComment property.doc ++ propertyKey property.name
        ++ (if property.optional then "?" else "") ++ ": " ++ text)
      (propertyTokens property tokens) := by
  intro rest hrest
  obtain ⟨name, type, optional, doc⟩ := property
  have hcolon : lex (':' :: ' ' :: (text.toList ++ rest))
      = (lex rest).map (.colon :: tokens ++ ·) := by
    rw [lex_mark rfl, lex_blank, h _ hrest, Option.map_map]
    rfl
  cases optional with
  | false =>
    have htext : (docComment doc ++ propertyKey name ++ (if false then "?" else "") ++ ": "
        ++ text).toList ++ rest = (docComment doc).toList ++ ((propertyKey name).toList
          ++ ':' :: ' ' :: (text.toList ++ rest)) := by
      simp
    rw [htext, lex_docComment, lex_propertyKey name (endsWord_cons rfl _), hcolon]
    simp [Function.comp_def, propertyTokens]
  | true =>
    have htext : (docComment doc ++ propertyKey name ++ (if true then "?" else "") ++ ": "
        ++ text).toList ++ rest = (docComment doc).toList ++ ((propertyKey name).toList
          ++ '?' :: ':' :: ' ' :: (text.toList ++ rest)) := by
      simp
    rw [htext, lex_docComment, lex_propertyKey name (endsWord_cons rfl _), lex_mark rfl, hcolon]
    simp [Function.comp_def, propertyTokens]

end

/-- The text stands between two pieces and is the token. -/
def Separates (separator : String) (token : TypeToken) : Prop :=
  ∀ rest, EndsWord (separator.toList ++ rest)
    ∧ lex (separator.toList ++ rest) = (lex rest).map (token :: ·)

theorem spells_join {separator : String} {token : TypeToken} (hsep : Separates separator token)
    {texts : List String} {pieces : List (List TypeToken)} (h : List.Forall₂ Spells texts pieces) :
    Spells (join separator texts) ([token].intercalate pieces) := by
  induction h with
  | nil => exact fun rest _ => by simp [join]
  | @cons text piece texts pieces hpiece hpieces ih =>
    cases hpieces with
    | nil => simpa [join] using hpiece
    | @cons text' piece' texts pieces =>
      intro rest hrest
      obtain ⟨hends, hlex⟩ := hsep ((join separator (text' :: texts)).toList ++ rest)
      rw [join, List.intercalate_cons_cons, String.toList_append, String.toList_append,
        List.append_assoc, List.append_assoc, hpiece _ hends, hlex, ih rest hrest]
      simp [Function.comp_def]

theorem separates_blanks {separator : String} {mark : Char} {token : TypeToken}
    (h : TypeToken.ofMark? mark = some token) (hsep : separator.toList = [' ', mark, ' ']) :
    Separates separator token := by
  intro rest
  rw [hsep]
  refine ⟨endsWord_cons rfl _, ?_⟩
  rw [List.cons_append, List.cons_append, List.cons_append, lex_blank, lex_mark h, lex_blank]
  rfl

theorem separates_semicolon : Separates "; " .semicolon := by
  intro rest
  have hchars : "; ".toList ++ rest = ';' :: ' ' :: rest := rfl
  rw [hchars, lex_mark rfl, lex_blank]
  exact ⟨endsWord_cons rfl _, rfl⟩

theorem spells_braced {texts : List String} {pieces : List (List TypeToken)}
    (h : List.Forall₂ Spells texts pieces) : Spells (TypeExpr.braced texts)
      (.leftBrace :: [.semicolon].intercalate pieces ++ [.rightBrace]) := by
  intro rest _
  unfold TypeExpr.braced
  split
  next =>
    rw [List.forall₂_nil_left_iff.1 h]
    exact lex_marks rfl rfl rest
  next =>
    have htext : ("\x7b " ++ join "; " texts ++ " \x7d").toList ++ rest
        = '\x7b' :: ' ' :: ((join "; " texts).toList ++ ' ' :: '\x7d' :: rest) := by
      simp
    rw [htext, lex_mark rfl, lex_blank, spells_join separates_semicolon h _ (endsWord_cons rfl _),
      lex_blank, lex_mark rfl]
    simp [Function.comp_def]

end SchemaTypes
