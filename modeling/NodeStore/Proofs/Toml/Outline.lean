import NodeStore.Proofs.Toml.Document

/-!
Documents as a table of tables: entries at the root, then tables with entries of
their own. Where no name stands twice in one table, the statements of such an
outline define exactly its entries.
-/

namespace NodeStore.Toml

/-- Entries before the first header, and a header with entries for each table. -/
structure Outline where
  root : Entries := []
  tables : List (String × Entries) := []

def assignments (entries : Entries) : List Statement :=
  entries.map fun entry => .assignment ⟨[], entry.1⟩ entry.2

/-- A header and the entries below it. -/
def tableStatements (table : String × Entries) : List Statement :=
  .table ⟨[], table.1⟩ :: assignments table.2

namespace Outline

def statements (outline : Outline) : List Statement :=
  assignments outline.root ++ outline.tables.flatMap tableStatements

def entries (outline : Outline) : Entries :=
  outline.root ++ outline.tables.map fun table => (table.1, .table .header table.2)

/-- No name stands twice in one table. -/
def Distinct (outline : Outline) : Prop :=
  (outline.entries.map Prod.fst).Nodup ∧ ∀ table ∈ outline.tables, (table.2.map Prod.fst).Nodup

end Outline

theorem lookup_eq_none_of_distinct {before after : Entries} {name : String} {v : Value}
    (h : ((before ++ (name, v) :: after).map Prod.fst).Nodup) : before.lookup name = none := by
  rw [List.map_append, List.nodup_append] at h
  rw [List.lookup_eq_none_iff]
  intro entry hMem
  have hNe := h.2.2 entry.1 (List.mem_map_of_mem hMem) name (List.mem_cons_self ..)
  exact bne_iff_ne.2 hNe.symm

/-- What has been defined when the last table has been given some entries. -/
def Draft.within (root : Entries) (name : String) (entries : Entries) : Draft :=
  ⟨root ++ [(name, .table .header entries)], some ⟨[], name⟩⟩

section Steps

variable {root entries : Entries} {name : String} {v : Value}

theorem assign_of_fresh (hFresh : entries.lookup name = none) (origin : Origin) :
    assign ⟨[], name⟩ v origin entries = some (entries ++ [(name, v)]) := by
  simp [assign, changeAt, hFresh, Entries.add]

theorem apply_root_assignment (hFresh : root.lookup name = none) :
    Draft.apply ⟨root, none⟩ (.assignment ⟨[], name⟩ v) = some ⟨root ++ [(name, v)], none⟩ := by
  simp [Draft.apply, changeAt, assign_of_fresh hFresh]

theorem apply_table (hFresh : root.lookup name = none) (heading? : Option KeyPath) :
    Draft.apply ⟨root, heading?⟩ (.table ⟨[], name⟩) = some (.within root name []) := by
  simp [Draft.apply, Draft.within, openTable, changeAt, hFresh, Entries.add]

/-- Below its header a table takes entries with new names. -/
theorem apply_table_assignment {table : String} (hTable : root.lookup table = none)
    (hFresh : entries.lookup name = none) :
    (Draft.within root table entries).apply (.assignment ⟨[], name⟩ v) =
      some (.within root table (entries ++ [(name, v)])) := by
  have hLookup : (root ++ [(table, Value.table .header entries)]).lookup table =
      some (.table .header entries) := by
    rw [List.lookup_append, hTable, Option.none_or, List.lookup_cons_self]
  have hReplace (inner : Value) :
      Records.replace table inner (root ++ [(table, .table .header entries)]) =
        root ++ [(table, inner)] := by
    rw [Records.replace, List.map_append, ← Records.replace,
      Records.replace_of_lookup_eq_none hTable]
    simp
  simp [Draft.apply, Draft.within, changeAt, hLookup, hReplace, assign_of_fresh hFresh,
    Descent.enters]

end Steps

section Runs

/-- Entries that a draft takes one by one, it takes in a row. -/
theorem foldlM_assignments {draft : Entries → Draft}
    (hStep : ∀ entries name v, entries.lookup name = none →
      (draft entries).apply (.assignment ⟨[], name⟩ v) = some (draft (entries ++ [(name, v)])))
    {before more : Entries} (hDistinct : ((before ++ more).map Prod.fst).Nodup) :
    (assignments more).foldlM Draft.apply (draft before) = some (draft (before ++ more)) := by
  induction more generalizing before with
  | nil => rw [List.append_nil]; rfl
  | cons entry more ih =>
    have hFresh := lookup_eq_none_of_distinct hDistinct
    rw [List.append_cons] at hDistinct ⊢
    rw [assignments, List.map_cons, List.foldlM_cons, hStep before entry.1 entry.2 hFresh]
    exact ih hDistinct

theorem foldlM_tableStatements {root entries : Entries} {name : String}
    (hFresh : root.lookup name = none) (hDistinct : (entries.map Prod.fst).Nodup)
    (heading? : Option KeyPath) :
    (tableStatements (name, entries)).foldlM Draft.apply ⟨root, heading?⟩ =
      some (.within root name entries) := by
  rw [tableStatements, List.foldlM_cons, apply_table hFresh]
  exact @foldlM_assignments (.within root name) (fun _ _ _ => apply_table_assignment hFresh) []
    entries hDistinct

/-- Tables are defined one after the other; what heading was in force before does
not matter. -/
theorem foldlM_tables {root : Entries} {tables : List (String × Entries)}
    {heading? : Option KeyPath} (h : Outline.Distinct ⟨root, tables⟩) :
    ∃ last?, (tables.flatMap tableStatements).foldlM Draft.apply ⟨root, heading?⟩ =
      some ⟨Outline.entries ⟨root, tables⟩, last?⟩ := by
  induction tables generalizing root heading? with
  | nil =>
    refine ⟨heading?, ?_⟩
    rw [Outline.entries, List.map_nil, List.append_nil]
    rfl
  | cons table tables ih =>
    obtain ⟨name, entries⟩ := table
    obtain ⟨hNames, hTables⟩ := h
    have hFresh : root.lookup name = none := lookup_eq_none_of_distinct hNames
    have hFirst := foldlM_tableStatements hFresh (hTables _ (List.mem_cons_self ..)) heading?
    have hSame : Outline.entries ⟨root ++ [(name, .table .header entries)], tables⟩ =
        Outline.entries ⟨root, (name, entries) :: tables⟩ := (List.append_cons ..).symm
    have hMore : Outline.Distinct ⟨root ++ [(name, .table .header entries)], tables⟩ :=
      ⟨by rwa [hSame], fun table hMem => hTables table (List.mem_cons_of_mem _ hMem)⟩
    obtain ⟨last?, hLast⟩ := @ih _ (some ⟨[], name⟩) hMore
    refine ⟨last?, ?_⟩
    rw [List.flatMap_cons, List.foldlM_append, hFirst, ← hSame]
    exact hLast

/-- The statements of an outline define its entries. -/
theorem define_statements {outline : Outline} (h : outline.Distinct) :
    define outline.statements = some outline.entries := by
  have hNames : (outline.root.map Prod.fst).Nodup := by
    have hNames := h.1
    rw [Outline.entries, List.map_append] at hNames
    exact (List.nodup_append.1 hNames).1
  have hRoot : (assignments outline.root).foldlM Draft.apply {} = some ⟨outline.root, none⟩ :=
    @foldlM_assignments (fun entries => ⟨entries, none⟩) (fun _ _ _ => apply_root_assignment) []
      outline.root hNames
  obtain ⟨last?, hTables⟩ := @foldlM_tables outline.root outline.tables none h
  rw [define, Outline.statements, List.foldlM_append, hRoot]
  exact congrArg (Option.map Draft.root) hTables

end Runs

theorem parse_of_outline {outline : Outline} {text : String} (hDistinct : outline.Distinct)
    (hText : SpellsDocument text outline.statements) : parse text = some outline.entries := by
  rw [parse_of_spelled hText, define_statements hDistinct]

theorem exists_spellsAssignments {entries : Entries}
    (h : ∀ entry ∈ entries, ∃ text, SpellsValue text entry.2) :
    ∀ s ∈ assignments entries, ∃ text, SpellsStatement text s := by
  intro s hMem
  obtain ⟨entry, hEntry, rfl⟩ := List.mem_map.1 hMem
  exact exists_spellsAssignment entry.1 (h entry hEntry)

/-- Every outline has a document if all of its values have texts. -/
theorem Outline.exists_spellsDocument {outline : Outline}
    (hRoot : ∀ entry ∈ outline.root, ∃ text, SpellsValue text entry.2)
    (hTables : ∀ table ∈ outline.tables, ∀ entry ∈ table.2, ∃ text, SpellsValue text entry.2) :
    ∃ text, SpellsDocument text outline.statements := by
  apply Toml.exists_spellsDocument
  rw [statements, List.forall_mem_append]
  refine ⟨exists_spellsAssignments hRoot, ?_⟩
  intro s hMem
  obtain ⟨table, hTable, hMem⟩ := List.mem_flatMap.1 hMem
  rcases List.mem_cons.1 hMem with rfl | hMem
  · exact exists_spellsTable table.1
  · exact exists_spellsAssignments (hTables table hTable) s hMem

end NodeStore.Toml
