import NestedSelection.Catalog.Basic
import NestedSelection.Selection.Query
import NestedSelection.Text.Quoted

/-! # Typed selections

Selections built over the tables of a catalogue. A field is chosen by a variant of its table and a
table is nested only where the catalogue lists its marker, so such a selection needs no check.
`Catalog.run` builds one from a list of steps or says which step is refused. Steps give columns by
name, and go on through the variants of these.
-/

namespace NestedSelection

/-- The selections that can be built over a table of a catalogue. -/
inductive Catalog.Builds (c : Catalog) : TypedTable → Selection → Prop
  | all {t : TypedTable} : Builds c t .all
  | select {t : TypedTable} {s : Selection} {variant name : String} :
      Builds c t s → t.columnName? variant = some name → Builds c t (s.field name)
  | nest {t related : TypedTable} {s child : Selection} :
      Builds c t s → related ∈ c.tables → related.marker ∈ t.relations →
      Builds c related child → Builds c t (s.nest related.name child)

/-- A selection over a table of a catalogue, together with the fact that it can be built. -/
structure TypedSelection (c : Catalog) (t : TypedTable) where
  selection : Selection
  built : c.Builds t selection

namespace TypedSelection

variable {c : Catalog} {t related : TypedTable}

def all : TypedSelection c t := ⟨.all, .all⟩

instance : Inhabited (TypedSelection c t) := ⟨all⟩

def select (s : TypedSelection c t) (variant : String) (h : (t.columnName? variant).isSome) :
    TypedSelection c t :=
  ⟨s.selection.field ((t.columnName? variant).get h), .select s.built (Option.some_get h).symm⟩

def nest (s : TypedSelection c t) (child : TypedSelection c related) (h : related ∈ c.tables)
    (hr : related.marker ∈ t.relations) : TypedSelection c t :=
  ⟨s.selection.nest related.name child.selection, .nest s.built h hr child.built⟩

end TypedSelection

/-- A step in building a typed selection. -/
inductive Step where
  | select (column : String)
  | selectAllOf (columns : List String)
  | nest (table : String) (steps : List Step)
  /-- Goes on with an equal selection. -/
  | keep
  /-- Starts over with every field. -/
  | restart

instance : Inhabited Step := ⟨.keep⟩

/-- Why a step cannot be taken. -/
inductive Refusal where
  | noSuchField (table field : String)
  | notIncludable (table relation : String)
deriving DecidableEq, Repr

namespace TypedTable

theorem isSome_columnName? {t : TypedTable} {column : TypedColumn} (h : column ∈ t.columns) :
    (t.columnName? column.variant).isSome := by
  rw [columnName?, Option.isSome_map]
  exact List.find?_isSome.2 ⟨column, h, beq_iff_eq.2 rfl⟩

/-- The variant for the column of a name, with the fact that the table has it. -/
def variantOf (t : TypedTable) (name : String) :
    Except Refusal { variant : String // (t.columnName? variant).isSome } :=
  match h : t.column? name with
  | some column => .ok ⟨column.variant, isSome_columnName? (List.mem_of_find?_eq_some h)⟩
  | none => .error (.noSuchField t.name name)

end TypedTable

namespace Catalog

variable {c : Catalog}

/-- The table of a name, with the facts that allow it to be nested. -/
def relatedOf (c : Catalog) (t : TypedTable) (name : String) : Except Refusal
    { related : TypedTable // related ∈ c.tables ∧ related.marker ∈ t.relations } :=
  match h : c.table? name with
  | some related =>
    if hr : related.marker ∈ t.relations then
      .ok ⟨related, List.mem_of_find?_eq_some h, hr⟩
    else .error (.notIncludable t.name name)
  | none => .error (.notIncludable t.name name)

/-- Selects columns in order, each by its variant. -/
def selectColumns {t : TypedTable} (s : TypedSelection c t) :
    List String → Except Refusal (TypedSelection c t)
  | [] => .ok s
  | name :: rest =>
    match t.variantOf name with
    | .error e => .error e
    | .ok variant => selectColumns (s.select variant.1 variant.2) rest

mutual

def step (t : TypedTable) (s : TypedSelection c t) : Step → Except Refusal (TypedSelection c t)
  | .select column => selectColumns s [column]
  | .selectAllOf columns => selectColumns s columns
  | .nest table steps =>
    match c.relatedOf t table with
    | .error e => .error e
    | .ok related =>
      match runSteps related.1 .all steps with
      | .error e => .error e
      | .ok child => .ok (s.nest child related.2.1 related.2.2)
  | .keep => .ok s
  | .restart => .ok .all

def runSteps (t : TypedTable) (s : TypedSelection c t) :
    List Step → Except Refusal (TypedSelection c t)
  | [] => .ok s
  | x :: rest =>
    match step t s x with
    | .error e => .error e
    | .ok s => runSteps t s rest

end

/-- The selection that steps build over a table. -/
def run (c : Catalog) (t : TypedTable) (steps : List Step) : Except Refusal (TypedSelection c t) :=
  runSteps t .all steps

end Catalog

namespace Selection

def optionText (inner : Option String) : String :=
  match inner with
  | none => "None"
  | some s => "Some(" ++ s ++ ")"

def mapText (entries : List String) : String := "\x7b" ++ ", ".intercalate entries ++ "\x7d"

def flagsText (flags : OrderedMap Bool) : String :=
  mapText (flags.entries.map fun e => quoteDisplay e.1 ++ ": " ++ if e.2 then "true" else "false")

mutual

def display : Selection → String
  | .node select nested =>
    "SelectionConfig \x7b select: " ++ optionText (select.map flagsText) ++ ", include: " ++
      displayNested nested ++ " \x7d"

def displayNested : Option (List (String × Selection)) → String
  | none => optionText none
  | some children => optionText (some (mapText (displayChildren children)))

def displayChildren : List (String × Selection) → List String
  | [] => []
  | (relation, child) :: rest =>
    (quoteDisplay relation ++ ": " ++ display child) :: displayChildren rest

end

end Selection

namespace TypedSelection

variable {c : Catalog} {t : TypedTable}

def display (s : TypedSelection c t) : String :=
  "Selection \x7b table: " ++ quoteDisplay t.name ++ ", config: " ++ s.selection.display ++ " \x7d"

end TypedSelection

end NestedSelection
