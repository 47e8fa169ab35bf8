import Mathlib
import SchemaTypes.Config
import SchemaTypes.Path
import SchemaTypes.Text

/-! What decides a run beside its flags, said without the functions that find it out: the ending of a
file name, the words of a command line, and the settings in a configuration file. -/
namespace SchemaTypes

/-! ### Endings of file names -/

namespace Path

/-- The characters of the last part of a path that is neither empty nor a dot. -/
def lastPart? (path : String) : Option (List Char) :=
  ((path.toList.splitOn '/').filter fun part => part ≠ [] ∧ part ≠ ['.']).getLast?

/-- The last part of the path is a name, a dot, and one of two endings in letters of either case. -/
def NamesYaml (path : String) : Prop :=
  ∃ name ending, lastPart? path = some (name ++ '.' :: ending) ∧ name ≠ []
    ∧ ∃ word ∈ ["yaml", "yml"],
      List.Forall₂ (fun c letter => c = letter ∨ c = letter.toUpper) ending word.toList

/-- The parts of a path that are neither empty nor a dot. -/
def namedParts (path : String) : List String :=
  (split path).filter fun part => part != "" && part != "."

theorem lastPart?_eq (path : String) :
    lastPart? path = (namedParts path).getLast?.map String.toList := by
  have hpart (cs : List Char) : (String.ofList cs != "" && String.ofList cs != ".")
      = decide (cs ≠ [] ∧ cs ≠ ['.']) := by
    have hdot : String.ofList cs = "." ↔ cs = ['.'] := @String.ofList_inj cs ['.']
    have hempty : String.ofList cs = "" ↔ cs = [] := @String.ofList_inj cs []
    rw [Bool.eq_iff_iff]
    simp [hdot, hempty]
  rw [lastPart?, namedParts, split, List.filter_map, List.getLast?_map, Option.map_map]
  simp [Function.comp_def, hpart]

/-- A dot in front counts as a part of its own, but is no name. -/
theorem getLast?_components (path : String) :
    (components path).getLast? = (namedParts path).getLast?
      ∨ (namedParts path).getLast? = none ∧ (components path).getLast? = some "." := by
  rw [components]
  split
  next rest hsplit =>
    have hnamed : namedParts path = rest.filter fun part => part != "" && part != "." := by
      rw [namedParts, hsplit]
      rfl
    rw [hnamed, List.getLast?_cons]
    cases (rest.filter fun part => part != "" && part != ".").getLast? with
    | none => exact .inr ⟨rfl, rfl⟩
    | some part => exact .inl rfl
  next => exact .inl rfl

theorem fileName?_eq_some_iff {path name : String} :
    fileName? path = some name ↔ lastPart? path = some name.toList ∧ name ≠ ".." := by
  have hlast : lastPart? path = some name.toList ↔ (namedParts path).getLast? = some name := by
    rw [lastPart?_eq, Option.map_eq_some_iff]
    constructor
    · rintro ⟨part, hpart, heq⟩
      rw [hpart, String.toList_inj.1 heq]
    · exact fun h => ⟨name, h, rfl⟩
  have hdot : (namedParts path).getLast? ≠ some "." := by
    intro h
    simpa [namedParts] using List.mem_of_getLast? h
  rw [hlast, fileName?]
  rcases getLast?_components path with h | ⟨hnone, h⟩
  · rw [h]
    split
    next hnone => simp [hnone]
    next hsome => exact absurd hsome hdot
    next hup =>
      simp only [hup, Option.some.injEq, reduceCtorEq, false_iff, not_and, not_not]
      exact fun heq => heq.symm
    next other _ hup hsome =>
      simp only [hsome, Option.some.injEq]
      refine ⟨fun heq => ⟨heq, fun hname => hup (heq.trans hname)⟩, And.left⟩
  · rw [h, hnone]
    simp

/-- What is cut off in front of a last dot, and behind it. -/
theorem takeWhile_reverse_of_notMem {name ending : List Char} (h : '.' ∉ ending) :
    (name ++ '.' :: ending).reverse.takeWhile (· != '.') = ending.reverse := by
  have hending : ∀ c ∈ ending.reverse, (c != '.') = true := by
    intro c hc
    rw [bne_iff_ne]
    rintro rfl
    exact h (List.mem_reverse.1 hc)
  rw [List.reverse_append, List.reverse_cons, List.append_assoc,
    List.takeWhile_append_of_pos hending]
  simp

theorem exists_dot {cs : List Char} (h : (cs.reverse.takeWhile (· != '.')).length ≠ cs.length) :
    ∃ name ending, cs = name ++ '.' :: ending ∧ '.' ∉ ending := by
  have hsplit := List.takeWhile_append_dropWhile (p := (· != '.')) (l := cs.reverse)
  have hhead := List.head?_dropWhile_not (· != '.') cs.reverse
  cases hrest : cs.reverse.dropWhile (· != '.') with
  | nil =>
    rw [hrest, List.append_nil] at hsplit
    rw [hsplit, List.length_reverse] at h
    exact absurd rfl h
  | cons c rest =>
    rw [hrest] at hsplit hhead
    obtain rfl : c = '.' := by simpa using hhead
    refine ⟨rest.reverse, (cs.reverse.takeWhile (· != '.')).reverse, ?_, fun hmem => ?_⟩
    · have hcs := congrArg List.reverse hsplit
      rw [List.reverse_reverse] at hcs
      simpa using hcs.symm
    · simpa using List.mem_takeWhile_imp (List.mem_reverse.1 hmem)

/-- An extension stands behind the last dot of a name, and something in front of it. -/
theorem extension?_eq_some_iff {path ending : String} : extension? path = some ending ↔
    ∃ name, lastPart? path = some (name ++ '.' :: ending.toList) ∧ name ≠ []
      ∧ '.' ∉ ending.toList ∧ name ++ '.' :: ending.toList ≠ ['.', '.'] := by
  have hcut {file : String} {name ending : List Char} (hfile : file.toList = name ++ '.' :: ending)
      (hdot : '.' ∉ ending) : (do
        let behind := file.toList.reverse.takeWhile (· != '.')
        let front := file.toList.take (file.toList.length - behind.length - 1)
        if behind.length = file.toList.length ∨ front.isEmpty then none
        else some (String.ofList behind.reverse)) = if name = [] then none else
          some (String.ofList ending) := by
    have hfront : (name ++ '.' :: ending).take ((name ++ '.' :: ending).length
        - ending.length - 1) = name := by
      have hsize : (name ++ '.' :: ending).length - ending.length - 1 = name.length := by
        rw [List.length_append, List.length_cons]
        omega
      rw [hsize, List.take_left]
    have hlength : ending.length ≠ (name ++ '.' :: ending).length := by
      simp
      omega
    simp only [hfile, takeWhile_reverse_of_notMem hdot, List.length_reverse, hfront, hlength,
      false_or, List.isEmpty_iff, List.reverse_reverse]
  constructor
  · intro h
    obtain ⟨file, hfile, h⟩ := Option.bind_eq_some_iff.1 h
    obtain ⟨hlast, hup⟩ := fileName?_eq_some_iff.1 hfile
    have hlength : (file.toList.reverse.takeWhile (· != '.')).length ≠ file.toList.length := by
      intro heq
      rw [if_pos (.inl heq)] at h
      cases h
    obtain ⟨name, behind, hname, hdot⟩ := exists_dot hlength
    have h := (hcut hname hdot).symm.trans h
    split at h
    · cases h
    next hne =>
      cases h
      rw [hname] at hlast
      rw [String.toList_ofList]
      exact ⟨name, hlast, hne, hdot, fun heq => hup (String.toList_inj.1 (hname.trans heq))⟩
  · rintro ⟨name, hlast, hne, hdot, hup⟩
    have hfile : fileName? path = some (String.ofList (name ++ '.' :: ending.toList)) := by
      rw [fileName?_eq_some_iff, String.toList_ofList]
      exact ⟨hlast, fun heq => hup (String.ofList_inj.1 heq)⟩
    rw [extension?, hfile]
    refine (hcut String.toList_ofList hdot).trans ?_
    rw [if_neg hne, String.ofList_toList]

theorem toLower_eq_iff {letter : Char} (h : letter.isLower) (c : Char) :
    c.toLower = letter ↔ c = letter ∨ c = letter.toUpper := by
  have hsame : letter.toLower = letter :=
    Char.toLower_eq_of_not_isUpper (Char.not_isUpper_of_isLower h)
  constructor
  · rintro rfl
    by_cases hc : c.isUpper
    · rw [Char.toUpper_toLower_eq_toUpper,
        Char.toUpper_eq_of_not_isLower (Char.not_isLower_of_isUpper hc)]
      exact .inr rfl
    · exact .inl (Char.toLower_eq_of_not_isUpper hc).symm
  · rintro (rfl | rfl)
    · exact hsame
    · rw [Char.toLower_toUpper_eq_toLower, hsame]

/-- The same word, but for letters that are capital. -/
theorem map_toLower_eq_iff {word : String} (h : ∀ letter ∈ word.toList, letter.isLower)
    (text : String) : text.map Char.toLower = word
      ↔ List.Forall₂ (fun c letter => c = letter ∨ c = letter.toUpper) text.toList word.toList := by
  rw [← String.toList_inj, String.toList_map, ← List.forall₂_eq_eq_eq, List.forall₂_map_left_iff]
  have hletters (cs : List Char) : List.Forall₂ (fun c letter => c.toLower = letter) cs word.toList
      ↔ List.Forall₂ (fun c letter => c = letter ∨ c = letter.toUpper) cs word.toList := by
    generalize word.toList = letters at h
    induction letters generalizing cs with
    | nil => simp
    | cons letter letters ih =>
      obtain ⟨hletter, hmore⟩ := List.forall_mem_cons.1 h
      have hletters (cs : List Char) := ih cs hmore
      simp only [List.forall₂_cons_right_iff, toLower_eq_iff hletter, hletters]
  exact hletters text.toList

end Path

/-- Files with one of the endings of YAML are read as YAML, and all others as JSON. -/
theorem InputFormat.ofPath_eq_yaml_iff {path : String} :
    ofPath path = .yaml ↔ Path.NamesYaml path := by
  have hletters : ∀ word ∈ ["yaml", "yml"], (∀ letter ∈ word.toList, letter.isLower)
      ∧ '.' ∉ word.toList ∧ word.toList ≠ [] := by
    simp
  have hformat : ofPath path = .yaml ↔ ∃ ending, Path.extension? path = some ending
      ∧ ∃ word ∈ ["yaml", "yml"], ending.map Char.toLower = word := by
    rw [ofPath]
    cases Path.extension? path with
    | none => simp
    | some ending =>
      rw [Option.map_some]
      split <;> simp_all
  rw [hformat]
  constructor
  · rintro ⟨ending, hextension, word, hword, hmap⟩
    obtain ⟨name, hlast, hne, -⟩ := Path.extension?_eq_some_iff.1 hextension
    refine ⟨name, ending.toList, hlast, hne, word, hword, ?_⟩
    exact (Path.map_toLower_eq_iff (hletters word hword).1 _).1 hmap
  · rintro ⟨name, ending, hlast, hne, word, hword, hsame⟩
    obtain ⟨hlower, hdot, hnonempty⟩ := hletters word hword
    rw [← String.toList_ofList (l := ending)] at hlast hsame
    have hmap := (Path.map_toLower_eq_iff hlower _).2 hsame
    refine ⟨String.ofList ending, Path.extension?_eq_some_iff.2 ⟨name, hlast, hne, ?_, ?_⟩, word,
      hword, hmap⟩
    · intro hmem
      rw [← hmap, String.toList_map] at hdot
      exact hdot (List.mem_map.2 ⟨'.', hmem, by decide⟩)
    · intro hdots
      have hlength := congrArg List.length hdots
      have hname := List.length_pos_iff.2 hne
      rw [List.length_append, List.length_cons] at hlength
      rw [← hmap, String.toList_map, ne_eq, List.map_eq_nil_iff, ← List.length_eq_zero_iff]
        at hnonempty
      simp only [List.length_cons, List.length_nil] at hlength
      omega

/-- What holds of the format of a file holds by the ending of its name. -/
theorem InputFormat.ofPath_iff {p : InputFormat → Prop} {path : String} :
    p (ofPath path) ↔ (Path.NamesYaml path → p .yaml) ∧ (¬Path.NamesYaml path → p .json) := by
  rw [← ofPath_eq_yaml_iff]
  cases ofPath path with
  | json => simp
  | yaml => simp

/-! ### The words of a command line -/

namespace Text

/-- The white space of Unicode. -/
def White (c : Char) : Prop :=
  c.toNat ∈ [0x9, 0xA, 0xB, 0xC, 0xD, 0x20, 0x85, 0xA0, 0x1680, 0x2000, 0x2001, 0x2002, 0x2003,
    0x2004, 0x2005, 0x2006, 0x2007, 0x2008, 0x2009, 0x200A, 0x2028, 0x2029, 0x202F, 0x205F, 0x3000]

/-- The words stand in the text in their order, with white space between them and none in them. -/
inductive Words : List Char → List (List Char) → Prop
  | blank {blanks : List Char} (h : ∀ c ∈ blanks, White c) : Words blanks []
  | word {blanks word rest : List Char} {words : List (List Char)} (h : ∀ c ∈ blanks, White c)
      (ne_nil : word ≠ []) (solid : ∀ c ∈ word, ¬White c) (apart : ∀ c ∈ rest.head?, White c)
      (more : Words rest words) : Words (blanks ++ word ++ rest) (word :: words)

theorem white_iff {c : Char} : White c ↔ isBlank c = true := by
  simp only [White, isBlank, List.mem_cons, List.not_mem_nil, or_false, Bool.or_eq_true,
    Bool.and_eq_true, decide_eq_true_eq, beq_iff_eq]
  omega

theorem Words.cons_blank {c : Char} (hc : White c) {cs : List Char} {words : List (List Char)}
    (h : Words cs words) : Words (c :: cs) words := by
  cases h with
  | blank h => exact .blank (List.forall_mem_cons.2 ⟨hc, h⟩)
  | word h ne_nil solid apart more =>
    exact @word (c :: _) _ _ _ (List.forall_mem_cons.2 ⟨hc, h⟩) ne_nil solid apart more

theorem words_wordsFrom {word : List Char} (solid : ∀ c ∈ word, ¬White c) (cs : List Char) :
    Words (word.reverse ++ cs) (wordsFrom word cs) := by
  have hreverse {word : List Char} (solid : ∀ c ∈ word, ¬White c) : ∀ c ∈ word.reverse, ¬White c :=
    fun c hc => solid c (List.mem_reverse.1 hc)
  induction cs generalizing word with
  | nil =>
    rw [wordsFrom]
    split
    next hempty =>
      rw [List.isEmpty_iff.1 hempty]
      exact .blank (List.forall_mem_nil _)
    next hne =>
      have hword : word.reverse ≠ [] := by simpa using hne
      exact @Words.word [] _ _ _ (List.forall_mem_nil _) hword (hreverse solid) (by simp)
        (.blank (List.forall_mem_nil _))
  | cons c cs ih =>
    rw [wordsFrom]
    split
    next hblank =>
      have hc := white_iff.2 hblank
      have hmore : Words (c :: cs) (wordsFrom [] cs) := (ih (List.forall_mem_nil _)).cons_blank hc
      split
      next hempty =>
        rw [List.isEmpty_iff.1 hempty]
        exact hmore
      next hne =>
        have hword : word.reverse ≠ [] := by simpa using hne
        exact @Words.word [] _ _ _ (List.forall_mem_nil _) hword (hreverse solid) (by simpa using hc)
          hmore
    next hblank =>
      have hsolid : ¬White c := fun hc => hblank (white_iff.1 hc)
      have hmore := ih (List.forall_mem_cons.2 ⟨hsolid, solid⟩)
      rwa [List.reverse_cons, List.append_assoc] at hmore

theorem wordsFrom_append_blanks {blanks : List Char} (h : ∀ c ∈ blanks, White c)
    (cs : List Char) : wordsFrom [] (blanks ++ cs) = wordsFrom [] cs := by
  induction blanks with
  | nil => rfl
  | cons c blanks ih =>
    obtain ⟨hc, hblanks⟩ := List.forall_mem_cons.1 h
    rw [List.cons_append, wordsFrom, if_pos (white_iff.1 hc), List.isEmpty_nil, if_pos rfl,
      ih hblanks]

theorem wordsFrom_append_solid {word : List Char} (solid : ∀ c ∈ word, ¬White c)
    (front cs : List Char) : wordsFrom front (word ++ cs) = wordsFrom (word.reverse ++ front) cs := by
  induction word generalizing front with
  | nil => rfl
  | cons c word ih =>
    obtain ⟨hc, hword⟩ := List.forall_mem_cons.1 solid
    rw [List.cons_append, wordsFrom, if_neg fun hblank => hc (white_iff.2 hblank), ih hword,
      List.reverse_cons, List.append_assoc]
    rfl

theorem wordsFrom_of_words {cs : List Char} {words : List (List Char)} (h : Words cs words) :
    wordsFrom [] cs = words := by
  induction h with
  | @blank blanks h =>
    rw [← List.append_nil blanks, wordsFrom_append_blanks h]
    rfl
  | @word blanks word rest words h ne_nil solid apart more ih =>
    rw [List.append_assoc, wordsFrom_append_blanks h, wordsFrom_append_solid solid, List.append_nil,
      ← ih]
    have hword : word.reverse.isEmpty = false := by simpa using ne_nil
    cases rest with
    | nil => simp [wordsFrom, hword]
    | cons c rest =>
      have hc := white_iff.1 (apart c rfl)
      simp [wordsFrom, hc, hword]

theorem words_eq_iff {line : String} {words : List String} :
    Text.words line = words ↔ Words line.toList (words.map String.toList) := by
  have hwords : Text.words line = words ↔ wordsFrom [] line.toList = words.map String.toList := by
    rw [Text.words]
    constructor
    · rintro rfl
      simp [Function.comp_def]
    · intro h
      simp [h, Function.comp_def]
  rw [hwords]
  constructor
  · intro h
    rw [← h]
    exact words_wordsFrom (List.forall_mem_nil _) line.toList
  · exact wordsFrom_of_words

end Text

/-! ### Settings in a configuration file -/

namespace Toml

/-- The settings under some names: a table with texts under those names and no others, or a list that
begins with a text for each. Where there is neither, nothing is set. -/
inductive Sets (names : List String) : List (Option String) → Option Value → Prop
  | nothing : Sets names (names.map fun _ => none) none
  | table {origin : Origin} {entries : Entries} {texts : List (Option String)}
      (known : ∀ entry ∈ entries, entry.1 ∈ names)
      (said : List.Forall₂ (fun name text => entries.lookup name = text.map Value.string)
        names texts) : Sets names texts (some (.table origin entries))
  | list {texts : List String} {rest : List Value} (all : texts.length = names.length) :
    Sets names (texts.map some) (some (.array (texts.map Value.string ++ rest)))

end Toml

namespace Config

/-- A configuration file has two tables, and no other names. -/
structure SaidBy (config : Config) (entries : Toml.Entries) : Prop where
  known : ∀ entry ∈ entries, entry.1 = "output" ∨ entry.1 = "formatter"
  output : Toml.Sets ["container", "banner"] [config.container, config.banner]
    (entries.lookup "output")
  formatter : Toml.Sets ["command"] [config.command] (entries.lookup "formatter")

theorem known_iff {entries : Toml.Entries} {names : List String} :
    (Assoc.keys entries).all names.contains = true ↔ ∀ entry ∈ entries, entry.1 ∈ names := by
  simp [Assoc.keys]

theorem text?_eq_some_iff {value : Option Toml.Value} {text : Option String} :
    text? value = some text ↔ value = text.map Toml.Value.string := by
  rcases value with _ | _ | _ | _ | _ <;> cases text <;> simp [text?]

theorem mapM_eq_some_iff {α β : Type} {f : α → Option β} {as : List α} {bs : List β} :
    as.mapM f = some bs ↔ List.Forall₂ (fun a b => f a = some b) as bs := by
  induction as generalizing bs with
  | nil => simp [eq_comm]
  | cons a as ih =>
    rw [List.mapM_cons, List.forall₂_cons_left_iff]
    simp only [Option.bind_eq_bind, Option.bind_eq_some_iff, Option.pure_def, Option.some.injEq, ih]
    constructor
    · rintro ⟨b, hb, bs, hbs, rfl⟩
      exact ⟨b, bs, hb, hbs, rfl⟩
    · rintro ⟨b, bs, hb, hbs, rfl⟩
      exact ⟨b, hb, bs, hbs, rfl⟩

theorem exists_texts {values : List Toml.Value} {texts : List (Option String)}
    (h : List.Forall₂ (fun value text => some value = text.map Toml.Value.string) values texts) :
    ∃ words : List String, values = words.map Toml.Value.string ∧ texts = words.map some := by
  induction h with
  | nil => exact ⟨[], rfl, rfl⟩
  | @cons value text values texts head _ ih =>
    obtain ⟨words, rfl, rfl⟩ := ih
    cases text with
    | none => cases head
    | some word =>
      cases head
      exact ⟨word :: words, rfl, rfl⟩

theorem texts?_eq_some_iff {names : List String} {value : Option Toml.Value}
    {texts : List (Option String)} :
    texts? names value = some texts ↔ Toml.Sets names texts value := by
  constructor
  · intro h
    rw [texts?.eq_def] at h
    split at h
    · cases h
      exact .nothing
    next entries =>
      split at h
      next known =>
        refine .table (known_iff.1 known) ?_
        exact (mapM_eq_some_iff.1 h).imp fun _ _ => text?_eq_some_iff.1
      · cases h
    next values =>
      split at h
      · cases h
      next hlength =>
        have hall := (mapM_eq_some_iff.1 h).imp fun _ _ => text?_eq_some_iff.1
        have hsplit := List.take_append_drop names.length values
        have hsize := List.length_take_of_le (Nat.le_of_not_lt hlength)
        obtain ⟨words, hvalues, rfl⟩ := exists_texts hall
        rw [hvalues, List.length_map] at hsize
        rw [← hsplit, hvalues]
        exact .list hsize
    · cases h
  · rintro (_ | ⟨known, said⟩ | all)
    · rfl
    · rw [texts?, if_pos (known_iff.2 known), mapM_eq_some_iff]
      exact said.imp fun _ _ => text?_eq_some_iff.2
    next words rest =>
      have hlength : ¬(words.map Toml.Value.string ++ rest).length < names.length := by
        rw [List.length_append, List.length_map, all]
        omega
      have htake : (words.map Toml.Value.string ++ rest).take names.length
          = words.map Toml.Value.string := by
        rw [← all, ← List.length_map (f := Toml.Value.string), List.take_left]
      rw [texts?, if_neg hlength, htake, mapM_eq_some_iff, List.forall₂_map_left_iff,
        List.forall₂_map_right_iff, List.forall₂_same]
      exact fun word _ => rfl

theorem ofEntries?_eq_some_iff {entries : Toml.Entries} {config : Config} :
    ofEntries? entries = some config ↔ config.SaidBy entries := by
  have hknown : (Assoc.keys entries).all ["output", "formatter"].contains = true
      ↔ ∀ entry ∈ entries, entry.1 = "output" ∨ entry.1 = "formatter" := by
    rw [known_iff]
    simp
  rw [ofEntries?]
  constructor
  · intro h
    split at h
    next known =>
      simp only [Option.bind_eq_bind, Option.bind_eq_some_iff] at h
      obtain ⟨output, houtput, formatter, hformatter, h⟩ := h
      split at h
      · cases h
        exact ⟨hknown.1 known, texts?_eq_some_iff.1 houtput, texts?_eq_some_iff.1 hformatter⟩
      · cases h
    · cases h
  · rintro ⟨known, output, formatter⟩
    have houtput : texts? ["container", "banner"] (Assoc.find? "output" entries)
        = some [config.container, config.banner] := texts?_eq_some_iff.2 output
    have hformatter : texts? ["command"] (Assoc.find? "formatter" entries)
        = some [config.command] := texts?_eq_some_iff.2 formatter
    rw [if_pos (hknown.2 known), houtput, hformatter]
    rfl

end Config
end SchemaTypes
