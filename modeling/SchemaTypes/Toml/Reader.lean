import SchemaTypes.Toml.Text

/-! Reading TOML documents. -/
namespace SchemaTypes.Toml

/-- Passes over blanks, line breaks and comments. -/
def skipLines : Nat → List Char → List Char
  | 0, cs => cs
  | fuel + 1, cs =>
    let cs := skipComment (skipBlanks cs)
    match newline? cs with
    | some rest => skipLines fuel rest
    | none => cs

mutual
/-- A value, in which `depth` brackets may be open inside one another. -/
def value? (depth : Nat) : Nat → List Char → Option (Value × List Char)
  | 0, _ => none
  | fuel + 1, cs =>
    match cs, depth with
    | '[' :: _, 0 | '\x7b' :: _, 0 => none
    | '[' :: rest, depth + 1 => do
      let (items, rest) ← items? depth [] fuel rest
      return (.array items, rest)
    | '\x7b' :: rest, depth + 1 => do
      match skipBlanks rest with
      | '\x7d' :: rest => return (.table .inline [], rest)
      | rest =>
        let (entries, rest) ← entries? depth [] fuel rest
        return (.table .inline entries, rest)
    | '"' :: _, _ | '\'' :: _, _ => (string? cs).map fun (text, rest) => (.string text, rest)
    | _, _ => (scalar? cs).map fun (text, rest) => (.scalar text, rest)

/-- The items of an array behind those in `acc`; a comma may follow the last one. -/
def items? (depth : Nat) (acc : List Value) : Nat → List Char → Option (List Value × List Char)
  | 0, _ => none
  | fuel + 1, cs =>
    match skipLines (cs.length + 1) cs with
    | ']' :: rest => some (acc.reverse, rest)
    | cs => do
      let (item, rest) ← value? depth fuel cs
      match skipLines (rest.length + 1) rest with
      | ',' :: rest => items? depth (item :: acc) fuel rest
      | ']' :: rest => return ((item :: acc).reverse, rest)
      | _ => none

/-- The entries of a table in braces, at least one, all on one line. -/
def entries? (depth : Nat) (acc : Entries) : Nat → List Char → Option (Entries × List Char)
  | 0, _ => none
  | fuel + 1, cs => do
    let (key, rest) ← key? cs
    match rest with
    | '=' :: rest =>
      let (value, rest) ← value? depth fuel (skipBlanks rest)
      let acc ← insert? value key acc
      match skipBlanks rest with
      | ',' :: rest => entries? depth acc fuel rest
      | '\x7d' :: rest => return (acc, rest)
      | _ => none
    | _ => none
end

/-- The lines of a document, read into `root` under the header `header`. -/
def lines (header : List String) (root : Entries) : Nat → List Char → Option Entries
  | 0, _ => none
  | fuel + 1, cs =>
    match skipLines (cs.length + 1) cs with
    | [] => some root
    | '[' :: rest => do
      let (key, rest) ← key? rest
      match rest with
      | ']' :: rest =>
        let root ← open? key root
        let rest ← endLine? rest
        lines key root fuel rest
      | _ => none
    | cs => do
      let (key, rest) ← key? cs
      match rest with
      | '=' :: rest =>
        let rest := skipBlanks rest
        let (value, rest) ← value? maxDepth (rest.length + 1) rest
        let root ← update? (insert? value key) header root
        let rest ← endLine? rest
        lines header root fuel rest
      | _ => none

/-- The entries of a whole document. A byte order mark may stand in front of it. -/
def document? (text : String) : Option Entries :=
  let cs := match text.toList with
    | '\uFEFF' :: rest => rest
    | cs => cs
  lines [] [] (cs.length + 1) cs

end SchemaTypes.Toml
