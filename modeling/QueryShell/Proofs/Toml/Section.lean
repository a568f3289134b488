import Mathlib.Data.List.Nodup
import QueryShell.Proofs.Dictionary
import QueryShell.Toml.Basic

/-! Documents that are made of sections: a header each, and entries behind it. The order of the
sections makes no difference, nor does the order of the entries in a section. -/

namespace QueryShell.Toml

structure Section where
  name : String
  entries : List (String × Node)

def Section.statements (s : Section) : List Statement :=
  .header ⟨[], s.name⟩ :: s.entries.map fun e => .entry ⟨[], e.1⟩ e.2

/-- The table of a section. -/
def Section.table (s : Section) : Node := .table .header (Dictionary.ofEntries s.entries)

/-- The table of a document. -/
def sectionTable (sections : List Section) : List (String × Node) :=
  Dictionary.ofEntries (sections.map fun s => (s.name, s.table))

variable {form : Form} {table entries : List (String × Node)} {name key : String} {node : Node}
    {current : List String}

theorem add_header (h : Dictionary.find? name table = none) :
    Draft.add ⟨.table form table, current⟩ (.header ⟨[], name⟩) =
      some ⟨.table form (Dictionary.insert name .root table), [name]⟩ := by
  have hopen : Node.openTable name (.table form table) =
      some (.table form (Dictionary.insert name .root table)) := by
    rw [Node.openTable, h]
  simp only [Draft.add, Node.changeAt, hopen]
  rfl

theorem add_entry (htable : Dictionary.find? name table = some (.table .header entries))
    (hentry : Dictionary.find? key entries = none) :
    Draft.add ⟨.table form table, [name]⟩ (.entry ⟨[], key⟩ node) =
      some
        ⟨.table form
          (Dictionary.insert name (.table .header (Dictionary.insert key node entries)) table),
          [name]⟩ := by
  have hadd : Node.assign [] key node (.table .header entries) =
      some (.table .header (Dictionary.insert key node entries)) := by
    simp [Node.assign, Node.changeAt, Node.addEntry, Dictionary.contains, hentry]
  simp only [Draft.add, Node.changeAt, htable, hadd]
  rfl

theorem addAll_entries {added : List (String × Node)} (hkeys : (Dictionary.keys added).Nodup)
    (hnew : ∀ e ∈ added, Dictionary.find? e.1 entries = none) (ss : List Statement) :
    Draft.addAll ⟨.table form (Dictionary.insert name (.table .header entries) table), [name]⟩
        (added.map (fun e => .entry ⟨[], e.1⟩ e.2) ++ ss) =
      Draft.addAll
        ⟨.table form
          (Dictionary.insert name (.table .header (Dictionary.union entries added)) table), [name]⟩
        ss := by
  induction added generalizing entries with
  | nil => rfl
  | cons e added ih =>
    obtain ⟨hfirst, hkeys⟩ := List.nodup_cons.mp hkeys
    obtain ⟨hentry, hnew⟩ := List.forall_mem_cons.mp hnew
    have htable : Dictionary.find? name (Dictionary.insert name (.table .header entries) table) =
        some (.table .header entries) := by
      rw [Dictionary.find?_insert, if_pos rfl]
    have hnext : ∀ f ∈ added, Dictionary.find? f.1 (Dictionary.insert e.1 e.2 entries) = none := by
      intro f hf
      have hne : f.1 ≠ e.1 := fun heq => hfirst (List.mem_map.mpr ⟨f, hf, heq⟩)
      rw [Dictionary.find?_insert_of_ne hne, hnew f hf]
    -- The section is replaced in place, so the induction sees one insertion again.
    rw [List.map_cons, List.cons_append, Draft.addAll, add_entry htable hentry, Option.bind_eq_bind,
      Option.bind_some, Dictionary.insert_insert_self, ih hkeys hnext]
    rfl

theorem addAll_section {s : Section} (hname : Dictionary.find? s.name table = none)
    (hkeys : (Dictionary.keys s.entries).Nodup) (ss : List Statement) :
    Draft.addAll ⟨.table form table, current⟩ (s.statements ++ ss) =
      Draft.addAll ⟨.table form (Dictionary.insert s.name s.table table), [s.name]⟩ ss := by
  rw [Section.statements, List.cons_append, Draft.addAll, add_header hname, Option.bind_eq_bind,
    Option.bind_some]
  exact addAll_entries hkeys (fun _ _ => rfl) ss

theorem addAll_sections {sections : List Section} (hnames : (sections.map Section.name).Nodup)
    (hnew : ∀ s ∈ sections, Dictionary.find? s.name table = none)
    (hkeys : ∀ s ∈ sections, (Dictionary.keys s.entries).Nodup) :
    (Draft.addAll ⟨.table form table, current⟩ (sections.flatMap Section.statements)).map
        Draft.root =
      some (.table form (Dictionary.union table (sections.map fun s => (s.name, s.table)))) := by
  induction sections generalizing table current with
  | nil => rfl
  | cons s sections ih =>
    obtain ⟨hfirst, hnames⟩ := List.nodup_cons.mp hnames
    obtain ⟨hname, hnew⟩ := List.forall_mem_cons.mp hnew
    obtain ⟨hsection, hkeys⟩ := List.forall_mem_cons.mp hkeys
    have hnext : ∀ t ∈ sections, Dictionary.find? t.name (Dictionary.insert s.name s.table table) =
        none := by
      intro t ht
      have hne : t.name ≠ s.name := fun heq => hfirst (List.mem_map.mpr ⟨t, ht, heq⟩)
      rw [Dictionary.find?_insert_of_ne hne, hnew t ht]
    rw [List.flatMap_cons, addAll_section hname hsection, ih hnames hnext hkeys]
    rfl

/-! ### Settings of sections -/

def Node.isTable : Node → Bool
  | .table .. => true
  | _ => false

def Node.entry? (key : String) : Node → Option Node
  | .table _ entries => Dictionary.find? key entries
  | _ => none

/-- What a document sets a key of a section to. -/
def Node.setting? (root : Node) (name key : String) : Option Node :=
  (root.entry? name).bind (Node.entry? key)

/-- All that sections set. -/
def assigned (sections : List Section) : List ((String × String) × Node) :=
  sections.flatMap fun s => s.entries.map fun e => ((s.name, e.1), e.2)

variable {sections : List Section}

theorem mem_assigned :
    ((name, key), node) ∈ assigned sections ↔ ∃ s ∈ sections, s.name = name ∧
    (key, node) ∈ s.entries := by
  simp only [assigned, List.mem_flatMap, List.mem_map, Prod.mk.injEq, Prod.exists]
  constructor
  · rintro ⟨s, hs, _, _, hmem, ⟨rfl, rfl⟩, rfl⟩
    exact ⟨s, hs, rfl, hmem⟩
  · rintro ⟨s, hs, rfl, hmem⟩
    exact ⟨s, hs, key, node, hmem, ⟨rfl, rfl⟩, rfl⟩

/-- If nothing is set twice, no section has a key twice. -/
theorem keys_nodup_of_assigned (h : (Dictionary.keys (assigned sections)).Nodup) :
    ∀ s ∈ sections, (Dictionary.keys s.entries).Nodup := by
  intro s hs
  have hkeys : Dictionary.keys (assigned sections) =
      sections.flatMap fun s => (Dictionary.keys s.entries).map fun key => (s.name, key) := by
    simp [Dictionary.keys, assigned, List.map_flatMap, Function.comp_def]
  rw [hkeys, List.nodup_flatMap] at h
  exact (h.1 s hs).of_map _

theorem isTable_of_entry?_sectionTable
    (h : Node.entry? name (.table form (sectionTable sections)) = some node) :
    node.isTable = true := by
  have hmem := Dictionary.mem_ofEntries (Dictionary.mem_of_find? h)
  obtain ⟨s, -, heq⟩ := List.mem_map.mp hmem
  rw [← (Prod.mk.inj heq).2]
  rfl

/-- What sections set is found in the document, and nothing else is. -/
theorem setting?_sectionTable (hnames : (sections.map Section.name).Nodup)
    (hkeys : ∀ s ∈ sections, (Dictionary.keys s.entries).Nodup) :
    Node.setting? (.table form (sectionTable sections)) name key = some node ↔
    ((name, key), node) ∈ assigned sections := by
  have hsections : (Dictionary.keys (sections.map fun s => (s.name, s.table))).Nodup := by
    rw [Dictionary.keys, List.map_map]
    exact hnames
  have hfound : ∀ s ∈ sections, Node.entry? key s.table = some node ↔ (key, node) ∈ s.entries :=
    fun s hs => Dictionary.find?_ofEntries_of_nodup (hkeys s hs)
  rw [Node.setting?, Option.bind_eq_some_iff, mem_assigned]
  constructor
  · rintro ⟨found, htable, hentry⟩
    obtain ⟨s, hs, heq⟩ :=
      List.mem_map.mp ((Dictionary.find?_ofEntries_of_nodup hsections).mp htable)
    obtain ⟨rfl, rfl⟩ := Prod.mk.inj heq
    exact ⟨s, hs, rfl, (hfound s hs).mp hentry⟩
  · rintro ⟨s, hs, rfl, hmem⟩
    have htable :=
      (Dictionary.find?_ofEntries_of_nodup hsections).mpr (List.mem_map.mpr ⟨s, hs, rfl⟩)
    exact ⟨s.table, htable, (hfound s hs).mpr hmem⟩

end QueryShell.Toml
