import SchemaTypes.Proofs.DiskChanges
import SchemaTypes.Proofs.RunSource

/-! What a run prints and what it leaves of the files, where the formatter touches no files. -/
namespace SchemaTypes

open Steps (outcome)

/-- There was a source, and it could not be written or printed. -/
def RunError.isOutput : RunError → Bool
  | .directoryNotMade _ | .notWritten _ _ | .notPrinted _ => true
  | _ => false

/-- What a written text leaves on the disk of a place: a file with it at the last place that the
path names, and the missing directories above. All else is as it was, and no file has gone for a
directory or a directory for the file. -/
structure Place.Wrote (place : Place) (path text : String) (after : Disk) : Prop where
  reads : after.readText place.directory path = .ok text
  changes : ∃ parents file, Disk.places place.directory path = parents ++ [file]
    ∧ (∀ found, after.find? found =
      if found = file then some (.file text.toUTF8)
      else if found ∈ parents then some .directory
      else place.disk.find? found)
    ∧ (∀ parent ∈ parents,
      place.disk.find? parent = none ∨ place.disk.find? parent = some .directory)
    ∧ place.disk.find? file ≠ some .directory

/-- What is left of a text that could not be written: some of the missing directories above it, and
nothing else. -/
def Place.Prepared (place : Place) (path : String) (after : Disk) : Prop :=
  ∃ made ⊆ Disk.places place.directory path, Disk.Makes made place.disk after

/-- A text that is written after some of the directories above it were made. -/
theorem Disk.Makes.wrote {place : Place} {path text : String} {made : List (List String)}
    {middle after : Disk} (h : Disk.Makes made place.disk middle)
    (hsub : made ⊆ Disk.places place.directory path)
    (hwrite : middle.write place.directory path text.toUTF8 = .ok after) :
    place.Wrote path text after := by
  obtain ⟨parents, file, hplaces, hparents, hfile, hput, hread⟩ := Disk.put_of_write hwrite
  rw [hplaces] at hsub
  have hnew : file ∉ made := fun hmem => hfile (h.there file hmem)
  constructor
  · rw [Disk.readText, hread]
    dsimp only
    rw [Text.ofUtf8_toUTF8]
  refine ⟨parents, file, hplaces, fun found => ?_, fun parent hp => ?_, ?_⟩
  · rw [hput]
    split_ifs with hfound hparent
    · rfl
    · exact hparents found hparent
    · apply h.elsewhere
      intro hmem
      rcases List.mem_append.1 (hsub hmem) with hmem | hmem
      · exact hparent hmem
      · exact hfound (List.mem_singleton.1 hmem)
  · by_cases hmem : parent ∈ made
    · exact h.free parent hmem
    · rw [← h.elsewhere parent hmem]
      exact .inr (hparents parent hp)
  · rw [← h.elsewhere file hnew]
    exact hfile

/-- All bytes are printed, or as many as are taken. -/
theorem Console.print_cases {console : Console} {bytes printed : ByteArray}
    {result : Except SystemError Unit} (h : console.print bytes = (result, printed)) :
    result = .ok () ∧ printed = bytes
    ∨ ∃ room cause, console = .limited room cause ∧ room < bytes.size
      ∧ result = .error cause ∧ printed = bytes.extract 0 room := by
  rw [print.eq_def] at h
  split at h
  · cases h
    exact .inl ⟨rfl, rfl⟩
  · rename_i room cause
    split at h
    · cases h
      exact .inl ⟨rfl, rfl⟩
    · rename_i hroom
      cases h
      exact .inr ⟨room, cause, rfl, Nat.lt_of_not_le hroom, rfl, rfl⟩

namespace RunOptions

variable {options : RunOptions} {place : Place} {launch : Launcher Disk}

theorem prepared_of_makeParents {path : String} {result : Except SystemError Unit} {after : Disk}
    (h : makeParents place path = (result, after)) : place.Prepared path after := by
  rw [makeParents.eq_def] at h
  split at h
  · cases h
    exact ⟨[], List.nil_subset _, .nil place.disk⟩
  · cases h
    exact ⟨[], List.nil_subset _, .nil place.disk⟩
  · rename_i parent _ hparent
    obtain ⟨made, hsub, hmakes⟩ := Disk.makes_of_makeDirectories h
    have hparents := (Disk.isPrefix_places_parent hparent place.directory).subset
    exact ⟨made, List.Subset.trans hsub hparents, hmakes⟩

/-- Where the directories are made the file is written. -/
theorem writeOutput_cases {path source : String} {result : Except RunError Unit} {after : Disk}
    (h : writeOutput place path source = (result, after)) :
    (∃ error, result = .error error ∧ error.isOutput ∧ place.Prepared path after)
    ∨ result = .ok () ∧ place.Wrote path source after := by
  rw [writeOutput] at h
  split at h
  · rename_i hmade
    cases h
    exact .inl ⟨_, rfl, rfl, prepared_of_makeParents hmade⟩
  rename_i middle hmade
  have hprepared := prepared_of_makeParents hmade
  split at h
  · rename_i hwrite
    cases h
    obtain ⟨made, hsub, hmakes⟩ := hprepared
    exact .inr ⟨rfl, hmakes.wrote hsub hwrite⟩
  · cases h
    exact .inl ⟨_, rfl, rfl, hprepared⟩

theorem isOutput_eq_false_of_loadConfig {error : RunError}
    (h : options.loadConfig place = .error error) : error.isOutput = false := by
  have hload {path : String} (h : Config.load place path = .error error) :
      error.isOutput = false := by
    rw [Config.load] at h
    split at h
    · cases h
      rfl
    · split at h
      · cases h
      · cases h
        rfl
  rw [loadConfig] at h
  split at h
  · exact hload h
  · split at h
    · simp only [Config.discover] at h
      split at h
      · exact hload h
      · cases h
    · cases h
      rfl

theorem isOutput_eq_false_of_generateFile {path : String} {generator : Generator Disk}
    {error : RunError} (h : (generateFile place path generator).1 = .error error) :
    error.isOutput = false := by
  rw [generateFile_eq] at h
  split at h
  · cases h
    rfl
  rename_i text htext
  dsimp only at h
  cases hrun : (outcome (generator.generateText (.ofPath path) text) place.disk).value.1 with
  | ok source =>
    rw [hrun] at h
    cases h
  | error cause =>
    rw [hrun] at h
    cases h
    rfl

theorem isOutput_eq_false_of_source {error : RunError}
    (h : (options.source place launch).1 = .error error) : error.isOutput = false := by
  rw [RunOptions.source] at h
  split at h
  · rename_i hconfig
    cases h
    exact isOutput_eq_false_of_loadConfig hconfig
  split at h
  · cases h
    rfl
  exact isOutput_eq_false_of_generateFile h

/-- With a formatter that touches no files, a run that fails before its output leaves the files as
they were and prints nothing; no source was made. A run that ends well has made a source, of the
input as it was before, which is a document. It prints the source and leaves the files, or prints
nothing and leaves the output file with the source, the missing directories above it, and all else as
it was. In between are the runs whose output fails: what was printed is a front part of the source,
and what was made of the files are directories above the output file. -/
theorem run_touches_only_its_output (options : RunOptions) (place : Place) (launch : Launcher Disk)
    (console : Console)
    (quiet : ∀ program args input disk, (launch program args input disk).2 = disk) :
    let after := options.run place launch console
    match after.result with
    | .error error =>
      if error.isOutput then
        ∃ source, options.Yields place launch source ∧ match options.output with
          | none => after.disk = place.disk ∧ ∃ room cause, console = .limited room cause
            ∧ room < source.toUTF8.size ∧ error = .notPrinted cause
            ∧ after.printed = source.toUTF8.extract 0 room
          | some path => after.printed = .empty ∧ place.Prepared path after.disk
      else (∀ source, ¬options.Yields place launch source)
        ∧ after.disk = place.disk ∧ after.printed = .empty
    | .ok () =>
      ∃ source, options.Yields place launch source
        ∧ (∃ document, options.Loads place document ∧ document.Distinct)
        ∧ match options.output with
          | none => after.disk = place.disk ∧ after.printed = source.toUTF8
          | some path => after.printed = .empty ∧ place.Wrote path source after.disk := by
  intro after
  have hdisk : (options.source place launch).2 = place.disk := snd_source quiet
  have hyields {source : String} : (options.source place launch).1 = .ok source
      ↔ options.Yields place launch source := source_eq_ok_iff
  have houtput {error : RunError} (h : (options.source place launch).1 = .error error) :
      error.isOutput = false := isOutput_eq_false_of_source h
  rcases hsource : options.source place launch with ⟨error | source, disk⟩
  · rw [hsource] at hdisk hyields houtput
    obtain rfl : disk = place.disk := hdisk
    have hafter : after = { result := .error error, disk := place.disk } := by
      simp only [after, run, hsource]
    have hnone (source : String) : ¬options.Yields place launch source := by
      intro h
      cases hyields.2 h
    rw [hafter]
    dsimp only
    rw [houtput rfl, if_neg Bool.false_ne_true]
    exact ⟨hnone, rfl, rfl⟩
  · rw [hsource] at hdisk hyields
    obtain rfl : disk = place.disk := hdisk
    have hyield : options.Yields place launch source := hyields.1 rfl
    cases hpath : options.output with
    | none =>
      rcases hprint : console.print source.toUTF8 with ⟨result, printed⟩
      have hafter : after = { result := result.mapError .notPrinted, disk := place.disk, printed } := by
        simp only [after, run, hsource, hpath, hprint]
      rw [hafter]
      rcases Console.print_cases hprint with ⟨rfl, rfl⟩ | ⟨room, cause, rfl, hroom, rfl, rfl⟩
      · exact ⟨source, hyield, hyield.loads, rfl, rfl⟩
      · exact ⟨source, hyield, rfl, room, cause, rfl, hroom, rfl, rfl⟩
    | some path =>
      rcases hwritten : writeOutput place path source with ⟨result, disk⟩
      have hafter : after = { result, disk } := by
        simp only [after, run, hsource, hpath, hwritten]
      rw [hafter]
      rcases writeOutput_cases hwritten with ⟨error, rfl, herror, hprepared⟩ | ⟨rfl, hwrote⟩
      · dsimp only
        rw [if_pos herror]
        exact ⟨source, hyield, rfl, hprepared⟩
      · exact ⟨source, hyield, hyield.loads, rfl, hwrote⟩

/-- A document in YAML. -/
def catDocument : String := "definitions:\n  Pet:\n    type: string\n"

/-- Settings that name the interface and the formatter. -/
def catSettings : String :=
  "[output]\ncontainer = \"Types\"\n\n[formatter]\ncommand = \"cat -\"\n"

/-- A working directory with the document and the settings. -/
def catPlace : Place where
  disk := ⟨[(["w"], .directory), (["w", "api.YML"], .file catDocument.toUTF8),
    (["w", "swagger-ts.toml"], .file catSettings.toUTF8)]⟩
  directory := "/w"

/-- A run that names the interface for itself, and an output in a directory that is missing. -/
def catRun : RunOptions where
  input := "api.YML"
  output := some "gen/api.ts"
  container := some "Models"

/-- Every program is there and gives back what it is given. -/
def echoing : Launcher Disk := fun _ _ input =>
  pure (.ok { status := .code 0, output := input, errors := .empty })

theorem catRun_input_namesYaml : Path.NamesYaml catRun.input := by
  have hletters : List.Forall₂ (fun c letter => c = letter ∨ c = letter.toUpper) "YML".toList
      "yml".toList := by decide +kernel
  exact ⟨"api".toList, "YML".toList, by decide +kernel, by decide, "yml", by decide, hletters⟩

theorem catRun_configures :
    catRun.Configures catPlace { container := some "Types", command := some "cat -" } := by
  have hthere : catPlace.disk.isPresent catPlace.directory (Path.join "/w" "swagger-ts.toml") := by
    cbv
  have hread : catPlace.disk.readText "/w" (Path.join "/w" "swagger-ts.toml")
      = .ok catSettings := by cbv
  have hentries : Toml.document? catSettings
      = some [("output", .table .header [("container", .string "Types")]),
        ("formatter", .table .header [("command", .string "cat -")])] := by cbv
  refine ⟨"/w", rfl, ?_⟩
  dsimp only
  rw [if_pos hthere]
  exact ⟨catSettings, _, hread, hentries, Config.ofEntries?_eq_some_iff.1 (by decide)⟩

theorem catRun_yields : catRun.Yields catPlace echoing
    ("/**\n * This file was auto-generated by swagger-ts.\n"
      ++ " * Do not make direct changes to the file.\n */\n"
      ++ "\n\n\nexport interface Models \x7b\n  \"Pet\": string;\n\x7d\n") := by
  have hwords : Text.Words "cat -".toList (["cat", "-"].map String.toList) :=
    Text.words_eq_iff.1 (by decide +kernel)
  have hread : catPlace.disk.readText "/w" "api.YML" = .ok catDocument := by cbv
  have hdocument : Document.ofYaml? catDocument
      = some ⟨some [("Pet", { type := some "string" })]⟩ := by cbv
  have hbody : Declaration.body "Models"
      (Schema.typesIn "Models" [("Pet", { type := some "string" })])
      = "\n\n\nexport interface Models \x7b\n  \"Pet\": string;\n\x7d\n" := by decide +kernel
  refine ⟨_, _, catDocument, catRun_configures, .command hwords, hread, ?_⟩
  intro generator
  refine ⟨fun _ => ?_, fun hno => absurd catRun_input_namesYaml hno⟩
  have hstyled (source : String) : (generator.formatter source .standard catPlace.disk :
      Except FormatError String × Disk) = (.ok source, catPlace.disk) :=
    FormatCommand.formatter_of_isSuccess (show (ExitStatus.code 0).isSuccess from rfl) rfl
  rw [Generator.generateYaml, hdocument]
  dsimp only
  rw [Generator.value_generate, Generator.value_source_of_none rfl]
  dsimp only
  rw [hstyled]
  show Except.ok (_ ++ Declaration.body "Models" (Schema.typesIn "Models" _)) = _
  rw [hbody]
  rfl

/-- The directory is made, the interface of the document goes there, and nothing is printed. -/
theorem run_touches_only_its_output_cat :
    (∀ program args input disk, (echoing program args input disk).2 = disk)
    ∧ ∃ source, catRun.Yields catPlace echoing source
      ∧ (∃ document, catRun.Loads catPlace document ∧ document.Distinct)
      ∧ (catRun.run catPlace echoing).printed = .empty
      ∧ catPlace.Wrote "gen/api.ts" source (catRun.run catPlace echoing).disk := by
  have hquiet : ∀ program args input disk, (echoing program args input disk).2 = disk :=
    fun _ _ _ _ => rfl
  have hwritten (source : String) : (writeOutput catPlace "gen/api.ts" source).1 = .ok () := by cbv
  have hsource := source_eq_ok_iff.2 catRun_yields
  have hdisk : (catRun.source catPlace echoing).2 = catPlace.disk := snd_source hquiet
  have hresult : (catRun.run catPlace echoing).result = .ok () := by
    rcases hpair : catRun.source catPlace echoing with ⟨result, disk⟩
    rw [hpair] at hsource hdisk
    obtain rfl : result = .ok _ := hsource
    obtain rfl : disk = catPlace.disk := hdisk
    rw [run, hpair]
    exact hwritten _
  have hrun := run_touches_only_its_output catRun catPlace echoing .unlimited hquiet
  dsimp only at hrun
  rw [hresult] at hrun
  exact ⟨hquiet, hrun⟩

end RunOptions
end SchemaTypes
