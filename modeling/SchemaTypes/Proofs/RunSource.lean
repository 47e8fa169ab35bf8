import SchemaTypes.Run
import SchemaTypes.Proofs.FinishedSource
import SchemaTypes.Proofs.ReadDocuments
import SchemaTypes.Proofs.RunSettings

/-! The source that a run makes before its output: which settings it follows, which document it
reads, and that it leaves the files as they were where the formatter touches none. -/
namespace SchemaTypes

open Steps (outcome)

/-! ### The generator of a run -/

theorem Text.ofUtf8_toUTF8 (text : String) : ofUtf8 text.toUTF8 = .ok text := by
  have hread : String.fromUTF8? text.toUTF8 = some text := dif_pos text.isValidUTF8
  rw [ofUtf8, hread]

namespace FormatCommand

/-- The formatter that a command line stands for: the source as it is where there is no line, and
nothing for a line without words. -/
inductive Starts {σ : Type} (launch : Launcher σ) : Option String → Formatter σ → Prop
  | unstyled : Starts launch none .identity
  | command {line program : String} {args : List String}
      (h : Text.Words line.toList ((program :: args).map String.toList)) :
    Starts launch (some line) (formatter ⟨program, args⟩ launch)

theorem ofLine?_eq_some_iff {line program : String} {args : List String} :
    ofLine? line = some ⟨program, args⟩
      ↔ Text.Words line.toList ((program :: args).map String.toList) := by
  rw [ofLine?, ← Text.words_eq_iff]
  split
  · rename_i h
    simp [h]
  · rename_i h
    simp [h]

/-- A program that starts is judged by its end. -/
theorem formatter_of_launch {σ : Type} {command : FormatCommand} {launch : Launcher σ}
    {source : String} {options : FormatOptions} {state after : σ} {result : ProgramResult}
    (h : launch command.program (command.args ++ options.flags) source.toUTF8 state
      = (.ok result, after)) :
    (command.formatter launch source options state : Except FormatError String × σ)
      = (outcome result, after) := by
  simp only [formatter, ExceptT.mk, bind, StateT.bind]
  rw [h]
  rfl

/-- A program that ends well gives the source its text. -/
theorem formatter_of_isSuccess {σ : Type} {launch : Launcher σ} {command : FormatCommand}
    {source text : String} {options : FormatOptions} {state after : σ} {status : ExitStatus}
    {errors : ByteArray} (success : status.isSuccess)
    (h : launch command.program (command.args ++ options.flags) source.toUTF8 state
      = (.ok { status, output := text.toUTF8, errors }, after)) :
    (command.formatter launch source options state : Except FormatError String × σ)
      = (.ok text, after) := by
  rw [formatter_of_launch h, outcome, if_pos success]
  dsimp only
  rw [Text.ofUtf8_toUTF8]

theorem snd_formatter {launch : Launcher Disk}
    (quiet : ∀ program args input disk, (launch program args input disk).2 = disk)
    (command : FormatCommand) (source : String) (options : FormatOptions) (disk : Disk) :
    (command.formatter launch source options disk : Except FormatError String × Disk).2
      = disk := by
  have hquiet := quiet command.program (command.args ++ options.flags) source.toUTF8 disk
  refine Eq.trans ?_ hquiet
  simp only [formatter, ExceptT.mk, bind, StateT.bind]
  rcases launch command.program (command.args ++ options.flags) source.toUTF8 disk with
    ⟨(_ | _) | result, after⟩
  · rfl
  · rfl
  · rfl

theorem Starts.quiet {launch : Launcher Disk} {line : Option String} {formatter : Formatter Disk}
    (quiet : ∀ program args input disk, (launch program args input disk).2 = disk)
    (h : Starts launch line formatter) (source : String) (options : FormatOptions) (disk : Disk) :
    (formatter source options disk : Except FormatError String × Disk).2 = disk := by
  cases h with
  | unstyled => rfl
  | command _ => exact snd_formatter quiet _ source options disk

end FormatCommand

theorem Settings.generator_eq_ok_iff {settings : Settings} {launch : Launcher Disk}
    {generator : Generator Disk} :
    settings.generator launch = .ok generator ↔ ∃ formatter,
      FormatCommand.Starts launch settings.formatter formatter
      ∧ generator = { options := settings.options, formatter } := by
  rw [Settings.generator]
  cases settings.formatter with
  | none =>
    constructor
    · intro h
      injection h with h
      exact ⟨.identity, .unstyled, h.symm⟩
    · rintro ⟨formatter, ⟨⟩, rfl⟩
      rfl
  | some line =>
    constructor
    · intro h
      dsimp only at h
      split at h
      · rename_i command hcommand
        injection h with h
        exact ⟨command.formatter launch, .command (FormatCommand.ofLine?_eq_some_iff.1 hcommand),
          h.symm⟩
      · cases h
    · rintro ⟨formatter, hstarts, rfl⟩
      cases hstarts with
      | command h =>
        dsimp only
        rw [FormatCommand.ofLine?_eq_some_iff.2 h]

namespace Generator

variable {σ : Type}

theorem snd_value_generate {generator : Generator σ} (hm : generator.mapper = none)
    (quiet : ∀ source options state,
      (generator.formatter source options state : Except FormatError String × σ).2 = state)
    (document : Document) (state : σ) :
    (outcome (generator.generate document) state).value.2 = state := by
  rw [value_generate]
  obtain ⟨_ | definitions⟩ := document
  · rfl
  · rw [value_source_of_none hm]
    exact quiet _ _ state

/-- The format decides between the two readers, and the ending of the path decides the format. -/
theorem generateText_ofPath {generator : Generator σ} {path text source : String} {state : σ} :
    (outcome (generator.generateText (.ofPath path) text) state).value.1 = .ok source
      ↔ (Path.NamesYaml path →
          (outcome (generator.generateYaml text) state).value.1 = .ok source)
        ∧ (¬Path.NamesYaml path →
          (outcome (generator.generateJson text) state).value.1 = .ok source) :=
  InputFormat.ofPath_iff (p := fun format =>
    (outcome (generator.generateText format text) state).value.1 = .ok source)

theorem snd_value_generateText {generator : Generator σ} (hm : generator.mapper = none)
    (quiet : ∀ source options state,
      (generator.formatter source options state : Except FormatError String × σ).2 = state)
    (format : InputFormat) (text : String) (state : σ) :
    (outcome (generator.generateText format text) state).value.2 = state := by
  rcases generateText_eq (σ := σ) format text with ⟨document, -, -, hrun⟩ | ⟨cause, hrun⟩
  · rw [hrun]
    exact snd_value_generate hm quiet document state
  · rw [hrun]
    rfl

end Generator

/-! ### The source of a run -/

namespace Config

/-- The file at the path says the configuration. -/
def ReadFrom (place : Place) (path : String) (config : Config) : Prop :=
  ∃ text entries, place.disk.readText place.directory path = .ok text
    ∧ Toml.document? text = some entries ∧ config.SaidBy entries

theorem ofToml?_eq_some_iff {text : String} {config : Config} : ofToml? text = some config
    ↔ ∃ entries, Toml.document? text = some entries ∧ config.SaidBy entries := by
  simp only [ofToml?, Option.bind_eq_bind, Option.bind_eq_some_iff, ofEntries?_eq_some_iff]

theorem load_eq_ok_iff {place : Place} {path : String} {config : Config} :
    load place path = .ok config ↔ ReadFrom place path config := by
  have hread : ReadFrom place path config
      ↔ ∃ text, place.disk.readText place.directory path = .ok text
        ∧ ofToml? text = some config := by
    simp only [ReadFrom, ofToml?_eq_some_iff, exists_and_left]
  rw [load, hread]
  split
  · rename_i h
    simp [h]
  · rename_i text h
    rw [h]
    split
    · rename_i h
      simp [h]
    · rename_i h
      simp [h]

end Config

namespace RunOptions

/-- What the configuration file sets: the file that is named, or else the one of the standard name
in the working directory. Without either nothing is set. -/
def Configures (options : RunOptions) (place : Place) (config : Config) : Prop :=
  match options.config with
  | some path => Config.ReadFrom place path config
  | none =>
    ∃ directory, place.currentDirectory = .ok directory ∧
      let path := Path.join directory "swagger-ts.toml"
      if place.disk.isPresent place.directory path then Config.ReadFrom place path config
      else config = {}

theorem loadConfig_eq_ok_iff {options : RunOptions} {place : Place} {config : Config} :
    options.loadConfig place = .ok config ↔ options.Configures place config := by
  rw [loadConfig, Configures]
  cases options.config with
  | some path => exact Config.load_eq_ok_iff
  | none =>
    cases place.currentDirectory with
    | error cause => simp
    | ok directory =>
      have hfile : Config.fileName = "swagger-ts.toml" := rfl
      simp only [Config.discover, hfile, Except.ok.injEq, exists_eq_left']
      split
      · exact Config.load_eq_ok_iff
      · simp [eq_comm]

/-- The source that a run makes: of the input file as it is, read as YAML or as JSON by the ending of
its name, by a generator with the settings. Flags come before the configuration file, and the file
before the defaults. -/
def Yields (options : RunOptions) (place : Place) (launch : Launcher Disk) (source : String) :
    Prop :=
  ∃ config formatter text, options.Configures place config
    ∧ FormatCommand.Starts launch (options.formatter <|> config.command) formatter
    ∧ place.disk.readText place.directory options.input = .ok text
    ∧ let generator : Generator Disk := {
        options := {
          container := (options.container <|> config.container).getD "definitions"
          banner := config.banner.getD ("/**\n * This file was auto-generated by swagger-ts.\n"
            ++ " * Do not make direct changes to the file.\n */\n") }
        formatter }
      (Path.NamesYaml options.input →
        (outcome (generator.generateYaml text) place.disk).value.1 = .ok source)
      ∧ (¬Path.NamesYaml options.input →
        (outcome (generator.generateJson text) place.disk).value.1 = .ok source)

/-- The document that the input file says, read as YAML or as JSON by the ending of its name. -/
def Loads (options : RunOptions) (place : Place) (document : Document) : Prop :=
  ∃ text, place.disk.readText place.directory options.input = .ok text
    ∧ (Path.NamesYaml options.input → Document.ofYaml? text = some document)
    ∧ (¬Path.NamesYaml options.input → Document.ofJson? text = some document)

variable {options : RunOptions} {place : Place} {launch : Launcher Disk}

theorem mapError_eq_ok_iff {ε ε' α : Type} {f : ε → ε'} {result : Except ε α} {a : α} :
    result.mapError f = .ok a ↔ result = .ok a := by
  cases result with
  | error e => simp [Except.mapError]
  | ok b => simp [Except.mapError]

/-- What goes wrong in a generator is reported with the path. -/
theorem reported_eq (path : String) (run : Except GenerateError String × Disk) :
    (match run with
      | (.ok source, disk) => (.ok source, disk)
      | (.error cause, disk) => (.error (.notGenerated path cause), disk) :
      Except RunError String × Disk) = (run.1.mapError (.notGenerated path), run.2) := by
  rcases run with ⟨cause | source, disk⟩
  · rfl
  · rfl

theorem generateFile_eq (place : Place) (path : String) (generator : Generator Disk) :
    generateFile place path generator = match place.disk.readText place.directory path with
      | .error cause => (.error (.inputUnread path cause), place.disk)
      | .ok text =>
        let run := (outcome (generator.generateText (.ofPath path) text) place.disk).value
        (run.1.mapError (.notGenerated path), run.2) := by
  rw [generateFile]
  cases place.disk.readText place.directory path with
  | error cause => rfl
  | ok text =>
    dsimp only
    cases InputFormat.ofPath path with
    | json => exact reported_eq path (generator.generateJson text place.disk).value
    | yaml => exact reported_eq path (generator.generateYaml text place.disk).value

theorem source_eq_ok_iff {source : String} :
    (options.source place launch).1 = .ok source ↔ options.Yields place launch source := by
  constructor
  · intro h
    rw [RunOptions.source] at h
    split at h
    · cases h
    rename_i config hconfig
    split at h
    · cases h
    rename_i generator hgenerator
    rw [generateFile_eq] at h
    split at h
    · cases h
    rename_i text htext
    obtain ⟨formatter, hstarts, rfl⟩ := Settings.generator_eq_ok_iff.1 hgenerator
    refine ⟨config, formatter, text, loadConfig_eq_ok_iff.1 hconfig, hstarts, htext, ?_⟩
    exact Generator.generateText_ofPath.1 (mapError_eq_ok_iff.1 h)
  · rintro ⟨config, formatter, text, hconfig, hstarts, htext, hrun⟩
    rw [RunOptions.source, loadConfig_eq_ok_iff.2 hconfig]
    dsimp only
    rw [Settings.generator_eq_ok_iff.2 ⟨formatter, hstarts, rfl⟩]
    dsimp only
    rw [generateFile_eq, htext]
    exact mapError_eq_ok_iff.2 (Generator.generateText_ofPath.2 hrun)

theorem loads_iff {document : Document} : options.Loads place document
    ↔ ∃ text, place.disk.readText place.directory options.input = .ok text
      ∧ Document.ofText? (.ofPath options.input) text = some document := by
  have hread (text : String) := @InputFormat.ofPath_iff
    (fun format => Document.ofText? format text = some document) options.input
  simp only [Loads, hread]
  rfl

/-- Only a document that can be read has a source, and what is read repeats no name. -/
theorem Yields.loads {source : String} (h : options.Yields place launch source) :
    ∃ document, options.Loads place document ∧ document.Distinct := by
  obtain ⟨config, formatter, text, -, -, htext, hsource⟩ := h
  have hrun := Generator.generateText_ofPath.2 hsource
  rcases Generator.generateText_eq (σ := Disk) (.ofPath options.input) text with
    ⟨document, hdistinct, hread, -⟩ | ⟨cause, hfailed⟩
  · exact ⟨document, loads_iff.2 ⟨text, htext, hread⟩, hdistinct⟩
  · rw [hfailed] at hrun
    cases hrun

/-- Whatever a quiet run comes to before its output, the files are as they were. -/
theorem snd_source (quiet : ∀ program args input disk, (launch program args input disk).2 = disk) :
    (options.source place launch).2 = place.disk := by
  rw [RunOptions.source]
  split
  · rfl
  split
  · rfl
  rename_i generator hgenerator
  obtain ⟨formatter, hstarts, rfl⟩ := Settings.generator_eq_ok_iff.1 hgenerator
  rw [generateFile_eq]
  split
  · rfl
  · exact Generator.snd_value_generateText rfl (hstarts.quiet quiet) _ _ place.disk

end RunOptions

end SchemaTypes
