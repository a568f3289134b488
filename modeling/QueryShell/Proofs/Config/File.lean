import QueryShell.Proofs.Text.Utf8
import QueryShell.Proofs.Toml.Document
import QueryShell.Proofs.Toml.Section
import QueryShell.Shell.Basic

/-! Configurations in files. A file that sets some of the settings, in whatever notation, gives them
their values and the others the standard ones, and a saved configuration is such a file with all
settings. -/

namespace QueryShell.Config

open Toml (Document Node Section Style Written)

/-- Some of the settings. -/
structure Settings where
  threadNamePrefix : Option String
  endOfTransmission : Option Bool
  stripTrailingEot : Option Bool
  indent : Option Nat

namespace Settings

def all (config : Config) : Settings :=
  ⟨some config.engine.threadNamePrefix, some config.command.endOfTransmission,
    some config.command.stripTrailingEot, some config.output.indent⟩

/-- The configuration with these settings in place of its own. -/
def override (settings : Settings) (config : Config) : Config where
  engine := ⟨settings.threadNamePrefix.getD config.engine.threadNamePrefix⟩
  command := ⟨settings.endOfTransmission.getD config.command.endOfTransmission,
    settings.stripTrailingEot.getD config.command.stripTrailingEot⟩
  output := ⟨settings.indent.getD config.output.indent⟩

/-- The settings one by one, each with its section and its key. -/
def listed (settings : Settings) : List ((String × String) × Node) :=
  (settings.threadNamePrefix.map fun text =>
    (("engine", "thread_name_prefix"), .text text)).toList ++
  (settings.endOfTransmission.map fun flag =>
    (("command", "end_of_transmission"), .boolean flag)).toList ++
  (settings.stripTrailingEot.map fun flag =>
    (("command", "strip_trailing_eot"), .boolean flag)).toList ++
  (settings.indent.map fun n => (("output", "indent"), .integer n)).toList

theorem keys_listed_nodup (settings : Settings) : (Dictionary.keys settings.listed).Nodup := by
  obtain ⟨threadNamePrefix, endOfTransmission, stripTrailingEot, indent⟩ := settings
  cases threadNamePrefix <;> cases endOfTransmission <;> cases stripTrailingEot <;> cases indent <;>
    simp [Dictionary.keys, listed]

/-- The document sets these settings, in sections, and none of the others. Whatever else it sets
does not matter. -/
structure HeldBy (settings : Settings) (root : Node) : Prop where
  isTable : root.isTable = true
  sections : ∀ name ∈ ["engine", "command", "output"], ∀ node, root.entry? name = some node →
    node.isTable = true
  threadNamePrefix : root.setting? "engine" "thread_name_prefix" =
    settings.threadNamePrefix.map .text
  endOfTransmission : root.setting? "command" "end_of_transmission" =
    settings.endOfTransmission.map .boolean
  stripTrailingEot : root.setting? "command" "strip_trailing_eot" =
    settings.stripTrailingEot.map .boolean
  indent : root.setting? "output" "indent" = settings.indent.map fun n => .integer n

end Settings

variable {settings : Settings} {entries : List (String × Node)} {name key : String} {node : Node}

theorem entry_eq_some {α : Type} {standard value : α} {read : Node → Option α}
    (hnone : Dictionary.find? name entries = none → value = standard)
    (hsome : ∀ node, Dictionary.find? name entries = some node → read node = some value) :
    entry entries name standard read = some value := by
  rw [entry]
  cases hfind : Dictionary.find? name entries with
  | none => exact congrArg some (hnone hfind).symm
  | some node => exact hsome node hfind

/-- A section that may be missing, with its settings. -/
theorem entry_section {α : Type} {form : Toml.Form} {standard value : α} {read : Node → Option α}
    (htable : ∀ node, Dictionary.find? name entries = some node → node.isTable = true)
    (hmissing : (∀ key, Node.setting? (.table form entries) name key = none) → value = standard)
    (hread : ∀ node, node.isTable = true →
      (∀ key, node.entry? key = Node.setting? (.table form entries) name key) →
      read node = some value) :
    entry entries name standard read = some value := by
  refine entry_eq_some (fun hnone => hmissing fun key => ?_) fun node hsome =>
    hread node (htable node hsome) fun key => ?_
  · rw [Node.setting?, Node.entry?, hnone, Option.bind_none]
  · rw [Node.setting?, Node.entry?, hsome, Option.bind_some]

/-- A setting that may be missing. -/
theorem entry_of_map {α : Type} {setting : Option α} {encode : α → Node} {read : Node → Option α}
    (standard : α) (hread : ∀ a, read (encode a) = some a)
    (h : Dictionary.find? name entries = setting.map encode) :
    entry entries name standard read = some (setting.getD standard) := by
  refine entry_eq_some (fun hnone => ?_) fun node hsome => ?_
  · rw [Option.map_eq_none_iff.mp (h.symm.trans hnone), Option.getD_none]
  · obtain ⟨a, rfl, rfl⟩ := Option.map_eq_some_iff.mp (h.symm.trans hsome)
    rw [hread, Option.getD_some]

theorem exists_of_isTable (h : node.isTable = true) :
    ∃ form entries, node = .table form entries := by
  cases node with
  | table form entries => exact ⟨form, entries, rfl⟩
  | _ => cases h

theorem count?_integer (n : Nat) : count? (.integer n) = some n := by
  rw [count?, if_pos (Int.natCast_nonneg n), Int.toNat_natCast]

theorem engine?_of_table (h : node.isTable = true)
    (htext : node.entry? "thread_name_prefix" = settings.threadNamePrefix.map .text) :
    engine? node = some (settings.override standard).engine := by
  obtain ⟨form, entries, rfl⟩ := exists_of_isTable h
  have hread : entry entries "thread_name_prefix" standard.engine.threadNamePrefix text? =
      some (settings.threadNamePrefix.getD standard.engine.threadNamePrefix) :=
    entry_of_map _ (fun _ => rfl) htext
  simp only [engine?, Config.settings?, bind, Option.bind, hread]
  rfl

theorem command?_of_table (h : node.isTable = true)
    (hend : node.entry? "end_of_transmission" = settings.endOfTransmission.map .boolean)
    (hstrip : node.entry? "strip_trailing_eot" = settings.stripTrailingEot.map .boolean) :
    command? node = some (settings.override standard).command := by
  obtain ⟨form, entries, rfl⟩ := exists_of_isTable h
  have hreadEnd : entry entries "end_of_transmission" standard.command.endOfTransmission flag? =
      some (settings.endOfTransmission.getD standard.command.endOfTransmission) :=
    entry_of_map _ (fun _ => rfl) hend
  have hreadStrip : entry entries "strip_trailing_eot" standard.command.stripTrailingEot flag? =
      some (settings.stripTrailingEot.getD standard.command.stripTrailingEot) :=
    entry_of_map _ (fun _ => rfl) hstrip
  simp only [command?, Config.settings?, bind, Option.bind, hreadEnd, hreadStrip]
  rfl

theorem output?_of_table (h : node.isTable = true)
    (hindent : node.entry? "indent" = settings.indent.map fun n => .integer n) :
    output? node = some (settings.override standard).output := by
  obtain ⟨form, entries, rfl⟩ := exists_of_isTable h
  have hread : entry entries "indent" standard.output.indent count? =
      some (settings.indent.getD standard.output.indent) := entry_of_map _ count?_integer hindent
  simp only [output?, Config.settings?, bind, Option.bind, hread]
  rfl

/-- The settings that a document holds are the ones that the configuration gets. -/
theorem ofNode?_of_heldBy {root : Node} (h : settings.HeldBy root) :
    ofNode? root = some (settings.override standard) := by
  obtain ⟨form, entries, rfl⟩ := exists_of_isTable h.isTable
  have hengine : entry entries "engine" standard.engine engine? =
      some (settings.override standard).engine := by
    refine entry_section (h.sections "engine" (by simp)) (fun hmissing => ?_)
      fun node htable hset => engine?_of_table htable ((hset _).trans h.threadNamePrefix)
    have htext := Option.map_eq_none_iff.mp (h.threadNamePrefix.symm.trans (hmissing _))
    rw [Settings.override, htext]
    rfl
  have hcommand : entry entries "command" standard.command command? =
      some (settings.override standard).command := by
    refine entry_section (h.sections "command" (by simp)) (fun hmissing => ?_)
      fun node htable hset =>
        command?_of_table htable ((hset _).trans h.endOfTransmission)
          ((hset _).trans h.stripTrailingEot)
    have hend := Option.map_eq_none_iff.mp (h.endOfTransmission.symm.trans (hmissing _))
    have hstrip := Option.map_eq_none_iff.mp (h.stripTrailingEot.symm.trans (hmissing _))
    rw [Settings.override, hend, hstrip]
    rfl
  have houtput : entry entries "output" standard.output output? =
      some (settings.override standard).output := by
    refine entry_section (h.sections "output" (by simp)) (fun hmissing => ?_)
      fun node htable hset => output?_of_table htable ((hset _).trans h.indent)
    have hindent := Option.map_eq_none_iff.mp (h.indent.symm.trans (hmissing _))
    rw [Settings.override, hindent]
    rfl
  simp only [ofNode?, Config.settings?, bind, Option.bind, hengine, hcommand, houtput]
  rfl

theorem ofText_of_heldBy {text : List Char} {root : Node} (hread : Toml.read text = some root)
    (h : settings.HeldBy root) :
    ofText text = .ok (settings.override standard) := by
  rw [ofText, hread, Option.bind_some, ofNode?_of_heldBy h]

/-! ### Written files -/

variable {sections : List Section}

/-- Sections that set nothing but the settings, in any order, make a document that holds them. -/
theorem heldBy_of_perm (hnames : (sections.map Section.name).Nodup)
    (h : (Toml.assigned sections).Perm settings.listed) :
    settings.HeldBy (.table .header (Toml.sectionTable sections)) := by
  have hkeys :=
    Toml.keys_nodup_of_assigned ((h.map Prod.fst).nodup_iff.mpr settings.keys_listed_nodup)
  have hset : ∀ name key node,
      Node.setting? (.table .header (Toml.sectionTable sections)) name key = some node ↔
      ((name, key), node) ∈ settings.listed := fun name key node => by
    rw [Toml.setting?_sectionTable hnames hkeys, h.mem_iff]
  refine ⟨rfl, fun _ _ _ => Toml.isTable_of_entry?_sectionTable, ?_, ?_, ?_, ?_⟩ <;>
  · refine Option.ext fun node => ?_
    rw [hset]
    simp [Settings.listed]

/-- The sections of a saved configuration. -/
def savedSections (config : Config) : List Section :=
  [⟨"engine", [("thread_name_prefix", .text config.engine.threadNamePrefix)]⟩,
    ⟨"command", [("end_of_transmission", .boolean config.command.endOfTransmission),
      ("strip_trailing_eot", .boolean config.command.stripTrailingEot)]⟩,
    ⟨"output", [("indent", .integer config.output.indent)]⟩]

variable {rest value : List Char} {ss : List Toml.Statement}

theorem document_header (name : String) (hname : Toml.Bare name.toList) (h : Document rest ss) :
    Document ('[' :: name.toList ++ ']' :: '\n' :: rest) (.header ⟨[], name⟩ :: ss) := by
  simpa using Document.header name.toList ['\n'] rest ss hname .newline h

theorem document_entry (name : String) (hname : Toml.Bare name.toList) (hvalue : Written value node)
    (h : Document rest ss) :
    Document (name.toList ++ ' ' :: '=' :: ' ' :: value ++ '\n' :: rest)
      (.entry ⟨[], name⟩ node :: ss) := by
  have hspace : ∀ c ∈ [' '], Toml.isBlank c = true := List.forall_mem_singleton.mpr rfl
  simpa using Document.entry name.toList [' '] [' '] value ['\n'] rest node ss hname hspace hspace
    hvalue .newline h

theorem document_lines {config : Config} (h : config.output.indent ≤ indentLimit) :
    Document (config.lines.flatMap (· ++ ['\n']))
      (config.savedSections.flatMap Section.statements) := by
  have htext : Written (Toml.stringText config.engine.threadNamePrefix.toList)
      (.text config.engine.threadNamePrefix) := by
    have hstyled := Written.text config.engine.threadNamePrefix.toList _ (Style.fits_ofText _)
    rwa [String.ofList_toList] at hstyled
  have hindent : Written (Numeral.write config.output.indent) (.integer config.output.indent) := by
    refine Written.integer _ ?_
    rw [indentLimit] at h
    rw [Toml.integerBound]
    omega
  have hdocument := document_header "engine" (by decide) <|
    document_entry "thread_name_prefix" (by decide) htext <| .line ['\n'] _ _ .newline <|
    document_header "command" (by decide) <|
    document_entry "end_of_transmission" (by decide) (.boolean config.command.endOfTransmission) <|
    document_entry "strip_trailing_eot" (by decide) (.boolean config.command.stripTrailingEot) <|
    .line ['\n'] _ _ .newline <| document_header "output" (by decide) <|
    document_entry "indent" (by decide) hindent .done
  simpa [lines, savedSections, Section.statements, flagText] using hdocument

/-! ### Loading -/

/-- Wherever there is a file with the text, loading it gives the configuration. -/
def LoadedAs (text : List Char) (config : Config) : Prop :=
  ∀ (files : Shell.Files) (path : String),
    files path = (Text.ofUtf8 (Text.toUtf8 text)).mapError (fun _ => .notText) →
    Shell.loadConfig files path = .ok config

theorem loadedAs_of_ofText {text : List Char} {config : Config} (h : ofText text = .ok config) :
    LoadedAs text config := by
  intro files path hfile
  rw [Text.ofUtf8_toUtf8] at hfile
  rw [Shell.loadConfig, hfile]
  simp only [Except.mapError, h]

theorem loadedAs_of_document (settings : Settings) {text : List Char}
    (hnames : (sections.map Section.name).Nodup) (h : (Toml.assigned sections).Perm settings.listed)
    (htext : Document text (sections.flatMap Section.statements)) :
    LoadedAs text (settings.override standard) := by
  have hroot : Toml.read text = some (.table .header (Toml.sectionTable sections)) := by
    rw [htext.read_eq]
    exact Toml.addAll_sections hnames (fun _ _ => rfl) (Toml.keys_nodup_of_assigned
      ((h.map Prod.fst).nodup_iff.mpr settings.keys_listed_nodup))
  exact loadedAs_of_ofText (ofText_of_heldBy hroot (heldBy_of_perm hnames h))

theorem toText_eq_ok {config : Config} (h : config.output.indent ≤ indentLimit) :
    config.toText = .ok (config.lines.flatMap (· ++ ['\n'])) := if_pos h

/-- The text of every configuration that can be saved is loaded as that configuration. -/
theorem loadedAs_lines {config : Config} (h : config.output.indent ≤ indentLimit) :
    LoadedAs (config.lines.flatMap (· ++ ['\n'])) config :=
  loadedAs_of_document (.all config) (by simp [savedSections]) (.refl _) (document_lines h)

/-- What was saved to a file is loaded from it, and no other file has changed. -/
theorem loadConfig_saveConfig {config : Config} (h : config.output.indent ≤ indentLimit)
    (files : Shell.Files) (path : String) :
    ∃ saved, Shell.saveConfig files path config = .ok saved ∧
      Shell.loadConfig saved path = .ok config ∧ ∀ other, other ≠ path →
      saved other = files other := by
  refine ⟨files.write path (Text.toUtf8 (config.lines.flatMap (· ++ ['\n']))), ?_, ?_,
    fun other hother => ?_⟩
  · rw [Shell.saveConfig, toText_eq_ok h]
    rfl
  · exact loadedAs_lines h _ path (if_pos rfl)
  · exact if_neg hother

/-- Whatever the prefix and the flags are, and whatever indentation up to the limit, the file of a
saved configuration is loaded as that configuration, wherever it is saved and whatever files there
are. A file of sections in any order, each with settings in any order, in the styles that hold their
texts, and with blanks, comments and empty lines, is loaded as the standard configuration with those
settings and no others replaced. So is any other text that is read as a document that holds those
settings. -/
theorem load_settings :
    (∀ config : Config, config.output.indent ≤ indentLimit →
      (∃ text, config.toText = .ok text ∧ LoadedAs text config) ∧
      ∀ files path, ∃ saved, Shell.saveConfig files path config = .ok saved ∧
        Shell.loadConfig saved path = .ok config ∧ ∀ other, other ≠ path →
        saved other = files other) ∧
    (∀ (settings : Settings) (sections : List Section) (text : List Char),
      (sections.map Section.name).Nodup →
      (Toml.assigned sections).Perm settings.listed →
      Document text (sections.flatMap Section.statements) →
      LoadedAs text (settings.override standard)) ∧
    ∀ (settings : Settings) (text : List Char) (root : Node), Toml.read text = some root →
    settings.HeldBy root →
      LoadedAs text (settings.override standard) := by
  refine ⟨fun config h => ⟨⟨_, toText_eq_ok h, loadedAs_lines h⟩, loadConfig_saveConfig h⟩,
    fun settings _ _ => loadedAs_of_document settings, fun settings text root hread h =>
      loadedAs_of_ofText (ofText_of_heldBy hread h)⟩

/-- A prefix that needs escapes and the largest indentation; two sections with a text on several
lines, comments and both kinds of line ends; and other notations for tables, texts and numbers. -/
theorem load_settings_of_notations :
    let config : Config := ⟨⟨"\"'''\\\r\n\x01\x7fü"⟩, ⟨false, true⟩, ⟨indentLimit⟩⟩
    let settings : Settings := ⟨some "q\"\n", none, none, some 4⟩
    let sections : List Section :=
      [⟨"output", [("indent", .integer 4)]⟩, ⟨"engine", [("thread_name_prefix", .text "q\"\n")]⟩]
    let text :=
      "# local\r\n\n[output]\n\tindent=4 # wide\r\n[engine]\nthread_name_prefix = '''\nq\"\n'''\n".toList
    let other : Settings := ⟨some "A", none, none, some 31⟩
    let otherText :=
      "engine.thread_name_prefix = \"\\u0041\"\noutput = \x7bindent = 0x1F\x7d".toList
    let root : Node := .table .header
      [("engine", .table .dotted [("thread_name_prefix", .text "A")]),
        ("output", .table .sealed [("indent", .integer 31)])]
    (config.output.indent ≤ indentLimit ∧ (sections.map Section.name).Nodup ∧
        (Toml.assigned sections).Perm settings.listed ∧
        Document text (sections.flatMap Section.statements) ∧
        Toml.read otherText = some root ∧ other.HeldBy root) ∧
      ((∃ text, config.toText = .ok text ∧ LoadedAs text config) ∧
        ∀ files path, ∃ saved, Shell.saveConfig files path config = .ok saved ∧
          Shell.loadConfig saved path = .ok config ∧ ∀ other, other ≠ path →
          saved other = files other) ∧
      LoadedAs text ⟨⟨"q\"\n"⟩, ⟨true, true⟩, ⟨4⟩⟩ ∧
      LoadedAs otherText ⟨⟨"A"⟩, ⟨true, true⟩, ⟨31⟩⟩ := by
  intro config settings sections text other otherText root
  have hindent : config.output.indent ≤ indentLimit := Nat.le_refl _
  have hnames : (sections.map Section.name).Nodup := by simp [sections]
  have hperm : (Toml.assigned sections).Perm settings.listed := .swap _ _ _
  have htext : Document text (sections.flatMap Section.statements) := by
    have hcomment : Toml.LineEnd "# local\r\n".toList :=
      .comment " local".toList ['\r', '\n'] (List.all_eq_true.mp rfl) (.inr rfl)
    have hwide : Toml.LineEnd " # wide\r\n".toList :=
      .blank ' ' _ rfl (.comment " wide".toList ['\r', '\n'] (List.all_eq_true.mp rfl) (.inr rfl))
    -- Recursion on the number is not by its structure, so evaluation does not write it.
    have hfour : Written ['4'] (.integer 4) := by
      have hwrite := Written.integer 4 (by decide)
      rwa [Numeral.write_of_lt (by decide)] at hwrite
    have hraw : ∀ c ∈ "q\"\n".toList, Toml.needsEscape c = false := fun c hc =>
      Bool.eq_false_iff.mpr (List.any_eq_false.mp rfl c hc)
    have hquoted : Written "'''\nq\"\n'''".toList (.text "q\"\n") :=
      .text "q\"\n".toList .literalLines ⟨hraw, by decide⟩
    have hdocument := Document.line _ _ _ hcomment <| .line _ _ _ .newline <|
      document_header "output" (by decide) <| .blank '\t' _ _ rfl <|
      .entry "indent".toList [] [] _ _ _ _ _ (by decide) nofun nofun hfour hwide <|
      document_header "engine" (by decide) <|
      document_entry "thread_name_prefix" (by decide) hquoted .done
    simpa [text, sections, Section.statements] using hdocument
  have hroot : Toml.read otherText = some root := by
    simp only [otherText, root, String.reduceToList]
    rfl
  have hother : other.HeldBy root := by
    refine ⟨rfl, fun name hname node hnode => ?_, rfl, rfl, rfl, rfl⟩
    simp only [List.mem_cons, List.not_mem_nil, or_false] at hname
    rcases hname with rfl | rfl | rfl <;> cases hnode <;> rfl
  obtain ⟨hsaved, hsections, hany⟩ := load_settings
  exact ⟨⟨hindent, hnames, hperm, htext, hroot, hother⟩, hsaved config hindent,
    hsections settings sections text hnames hperm htext, hany other otherText root hroot hother⟩

end QueryShell.Config
