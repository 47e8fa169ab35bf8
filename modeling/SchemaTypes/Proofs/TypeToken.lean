import SchemaTypes.Proofs.Comment
import SchemaTypes.Proofs.Literal

/-! Tokens of the text of a type. -/
namespace SchemaTypes

/-- A token. Blanks separate tokens, and of comments only those that describe are kept. -/
inductive TypeToken where
  | bar
  | ampersand
  | leftParen
  | rightParen
  | leftBracket
  | rightBracket
  | leftBrace
  | rightBrace
  | question
  | colon
  | semicolon
  | word (text : String)
  | quoted (text : String)
  /-- A comment, without the blanks at its ends. -/
  | doc (text : String)
deriving DecidableEq, Repr

namespace TypeToken

open Text

def ofMark? (c : Char) : Option TypeToken :=
  match c with
  | '|' => some .bar
  | '&' => some .ampersand
  | '(' => some .leftParen
  | ')' => some .rightParen
  | '[' => some .leftBracket
  | ']' => some .rightBracket
  | '\x7b' => some .leftBrace
  | '\x7d' => some .rightBrace
  | '?' => some .question
  | ':' => some .colon
  | ';' => some .semicolon
  | _ => none

/-- Reads a comment that describes, behind its first slash. -/
def nextDoc? : List Char → Option (List TypeToken × List Char)
  | '*' :: '*' :: rest =>
    if rest.head? = some '/' then none
    else (readComment rest).map fun read => ([.doc (String.ofList (trimChars read.1))], read.2)
  | _ => none

/-- The token in front, if it is not a blank that stands there, and the text behind. -/
def next? : List Char → Option (List TypeToken × List Char)
  | [] => none
  | c :: rest =>
    if isIdentifierStart c then
      some ([.word (String.ofList (c :: rest.takeWhile isIdentifierPart))],
        rest.dropWhile isIdentifierPart)
    else if isBlank c then some ([], rest)
    else if c = '\'' then
      (readQuoted '\'' rest).map fun read => ([.quoted (String.ofList read.1)], read.2)
    else if c = '/' then nextDoc? rest
    else (ofMark? c).map fun token => ([token], rest)

theorem length_lt_of_nextDoc? {cs rest : List Char} {tokens : List TypeToken}
    (h : nextDoc? cs = some (tokens, rest)) : rest.length < cs.length := by
  unfold nextDoc? at h
  split at h
  next more =>
    split at h
    · cases h
    · have := length_lt_of_map (fun text => [doc (String.ofList (trimChars text))])
        length_lt_of_readComment h
      simp only [List.length_cons]
      omega
  next => cases h

theorem length_lt_of_next? {cs rest : List Char} {tokens : List TypeToken}
    (h : next? cs = some (tokens, rest)) : rest.length < cs.length := by
  cases cs with
  | nil => cases h
  | cons c more =>
    suffices rest.length ≤ more.length from Nat.lt_succ_of_le this
    rw [next?] at h
    split_ifs at h
    · cases h
      exact (List.dropWhile_suffix isIdentifierPart).length_le
    · cases h
      exact Nat.le_refl _
    · exact Nat.le_of_lt
        (length_lt_of_map (fun text => [quoted (String.ofList text)]) length_lt_of_readQuoted h)
    · exact Nat.le_of_lt (length_lt_of_nextDoc? h)
    · obtain ⟨token, _, heq⟩ := Option.map_eq_some_iff.1 h
      cases heq
      exact Nat.le_refl _

/-- All tokens of a text, or `none` if something else stands in it. -/
def lex (cs : List Char) : Option (List TypeToken) :=
  if cs = [] then some []
  else
    match _h : next? cs with
    | none => none
    | some (tokens, rest) => (lex rest).map (tokens ++ ·)
termination_by cs.length
decreasing_by exact length_lt_of_next? _h

@[simp] theorem lex_nil : lex [] = some [] := by
  rw [lex, if_pos rfl]

theorem lex_of_next? {cs rest : List Char} {tokens : List TypeToken}
    (h : next? cs = some (tokens, rest)) : lex cs = (lex rest).map (tokens ++ ·) := by
  have hne : cs ≠ [] := by
    rintro rfl
    cases h
  rw [lex, if_neg hne]
  split
  next hn => rw [h] at hn; cases hn
  next tokens' rest' hs =>
    rw [h] at hs
    cases hs
    rfl

/-! ### The pieces of a text -/

theorem lex_blank (rest : List Char) : lex (' ' :: rest) = lex rest := by
  have h : next? (' ' :: rest) = some ([], rest) := rfl
  rw [lex_of_next? h]
  simp

theorem lex_mark {c : Char} {token : TypeToken} (h : ofMark? c = some token) (rest : List Char) :
    lex (c :: rest) = (lex rest).map (token :: ·) := by
  have hnext : next? (c :: rest) = some ([token], rest) := by
    unfold ofMark? at h
    split at h <;> cases h <;> rfl
  exact lex_of_next? hnext

/-- Nothing that would make a word in front longer. -/
def EndsWord (cs : List Char) : Prop := ∀ c, cs.head? = some c → isIdentifierPart c = false

theorem lex_word {name : String} (h : isIdentifier name) {rest : List Char} (hr : EndsWord rest) :
    lex (name.toList ++ rest) = (lex rest).map (.word name :: ·) := by
  unfold isIdentifier at h
  split at h
  · cases h
  next c cs hname =>
    obtain ⟨hstart, hparts⟩ := Bool.and_eq_true_iff.1 h
    have hall : ∀ d ∈ cs, isIdentifierPart d = true := List.all_eq_true.1 hparts
    have htake : rest.takeWhile isIdentifierPart = [] := by
      cases rest with
      | nil => rfl
      | cons d rest => rw [List.takeWhile_cons_of_neg (by simp [hr d rfl])]
    have hdrop : rest.dropWhile isIdentifierPart = rest := by
      cases rest with
      | nil => rfl
      | cons d rest => rw [List.dropWhile_cons_of_neg (by simp [hr d rfl])]
    have hnext : next? (name.toList ++ rest) = some ([.word name], rest) := by
      rw [hname, List.cons_append, next?, if_pos hstart, List.takeWhile_append_of_pos hall,
        List.dropWhile_append_of_pos hall, htake, hdrop, List.append_nil, ← hname,
        String.ofList_toList]
    exact lex_of_next? hnext

theorem next?_quote (rest : List Char) :
    next? ('\'' :: rest)
      = (readQuoted '\'' rest).map fun read => ([.quoted (String.ofList read.1)], read.2) := by
  rw [next?, if_neg (by decide), if_neg (by decide), if_pos rfl]

theorem lex_quoted (s : String) (rest : List Char) :
    lex ((singleQuoted s).toList ++ rest) = (lex rest).map (.quoted s :: ·) := by
  have hopen : (singleQuoted s).toList = '\'' :: (singleQuoted s).toList.tail := by
    simp [singleQuoted]
  have hnext : next? ((singleQuoted s).toList ++ rest) = some ([.quoted s], rest) := by
    rw [hopen, List.cons_append, next?_quote, readQuoted_singleQuoted, Option.map_some,
      String.ofList_toList]
  exact lex_of_next? hnext

theorem next?_comment {rest : List Char} (h : rest.head? ≠ some '/') :
    next? ('/' :: '*' :: '*' :: rest) = (readComment rest).map fun read =>
      ([.doc (String.ofList (trimChars read.1))], read.2) := by
  rw [next?, if_neg (by decide), if_neg (by decide), if_neg (by decide), if_pos rfl, nextDoc?,
    if_neg h]

/-- What is read of a description: its text, or nothing if that is blank. -/
def shownDoc (description : Option String) : Option String :=
  (description.map docText).filter fun text => !text.isEmpty

theorem lex_docComment (description : Option String) (rest : List Char) :
    lex ((docComment description).toList ++ rest)
      = (lex rest).map ((shownDoc description).toList.map doc ++ ·) := by
  cases description with
  | none => simp [docComment, shownDoc]
  | some text =>
    by_cases hempty : (docText text).isEmpty
    · simp [docComment, shownDoc, hempty, Option.filter]
    · have hne : (docText text).toList ≠ [] := by
        rwa [Ne, String.toList_eq_nil_iff, ← String.isEmpty_iff]
      have hopen : (docComment (some text)).toList ++ rest = '/' :: '*' :: '*' ::
          (' ' :: (docText text).toList ++ ' ' :: '*' :: '/' :: ' ' :: rest) := by
        simp [docComment, hempty]
      have hnext : next? ((docComment (some text)).toList ++ rest)
          = some ([.doc (docText text)], ' ' :: rest) := by
        rw [hopen, next?_comment (by simp), readComment_docText, Option.map_some,
          trimChars_docText hne, String.ofList_toList]
      rw [lex_of_next? hnext, lex_blank]
      simp [shownDoc, hempty, Option.filter]

end TypeToken
end SchemaTypes
