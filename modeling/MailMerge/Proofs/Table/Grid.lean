import MailMerge.Proofs.Data.Structured
import MailMerge.Proofs.Docx.Cells
import MailMerge.Tree.Text
import Mathlib.Data.List.Forall2

/-! What a built table holds. The keys of the first row are its columns; below the headings stands
one row for every row of the data, with one cell for every column, whichever keys that row has.
-/
namespace MailMerge
open Xml Docx

/-- Items that each have a result have results together. -/
theorem exists_mapM_eq_ok {step : α → Except ε β} {holds : α → β → Prop} {items : List α}
    (each : ∀ a ∈ items, ∃ b, step a = .ok b ∧ holds a b) :
    ∃ results, items.mapM step = .ok results ∧ List.Forall₂ holds items results := by
  induction items with
  | nil => exact ⟨[],rfl,.nil⟩
  | cons a items ih =>
    obtain ⟨b,here,held⟩ := each a List.mem_cons_self
    obtain ⟨bs,later,all⟩ := ih fun a' member => each a' (List.mem_cons_of_mem a member)
    refine ⟨b :: bs,?_,.cons held all⟩
    rw [List.mapM_cons,here,later]
    rfl

/-- What a step gives on some items, item by item. -/
theorem mapM_eq_ok_iff {step : α → Except ε β} {items : List α} {results : List β} :
    items.mapM step = .ok results ↔ List.Forall₂ (fun a b => step a = .ok b) items results := by
  induction items generalizing results with
  | nil =>
    constructor
    · intro ok
      exact Except.ok.inj ok ▸ .nil
    · rintro ⟨⟩
      rfl
  | cons a items ih =>
    rw [List.mapM_cons]
    constructor
    · intro ok
      obtain ⟨b,here,ok⟩ := exists_of_bind_eq_ok ok
      obtain ⟨bs,later,ok⟩ := exists_of_bind_eq_ok ok
      exact Except.ok.inj ok ▸ .cons here (ih.mp later)
    · rintro (_ | ⟨here,later⟩)
      rw [here,ih.mpr later]
      rfl

theorem mapM_congr {step step' : α → Except ε β} {items : List α}
    (each : ∀ a ∈ items, step a = step' a) : items.mapM step = items.mapM step' := by
  induction items with
  | nil => rfl
  | cons a items ih =>
    rw [List.mapM_cons,List.mapM_cons,each a List.mem_cons_self,
      ih fun a' member => each a' (List.mem_cons_of_mem a member)]

namespace Xml.Element

/-- The text of the paragraphs in an element. -/
def cellText (e : Element) : List Char :=
  (e.named paragraphName).flatMap fun paragraph => (paragraph.named runName).flatMap fun run =>
    (run.named textName).flatMap fun text => (text.text.getD "").toList

end Xml.Element

namespace Forest

variable {α : Type} {f : Forest} {owner : NodeId → α} {level : NodeId → Nat}

theorem cellText_element (sorted : f.Sorted owner level) (id : NodeId) :
    (f.element id).cellText = f.cellText id := by
  simp only [Element.cellText,named_element sorted,List.flatMap_map,text_element,cellText]
  refine List.flatMap_congr fun p _ => ?_
  rw [paragraphText,joinedText,textElements,List.flatMap_assoc]
  rfl

/-- A table has the shape of a grid of texts: so many columns, and a row for every list of texts
whose cells have a paragraph each and read as the texts. -/
structure Grid (f : Forest) (table : NodeId) (columns : Nat) (texts : List (List String)) : Prop where
  children_eq : (f.children table).map f.name =
    main "tblPr" :: main "tblGrid" :: List.replicate texts.length rowName
  columns_eq : ∀ grid ∈ f.childrenNamed table (main "tblGrid"),
    (f.children grid).map f.name = List.replicate columns (main "gridCol")
  cells_eq : ∀ row ∈ f.childrenNamed table rowName,
    (f.children row).map f.name = List.replicate columns cellName
  paragraphs_eq : ∀ row ∈ f.childrenNamed table rowName, ∀ cell ∈ f.children row,
    (f.named cell paragraphName).length = 1
  texts_eq : (f.childrenNamed table rowName).map (fun row => (f.children row).map f.cellText) =
    texts.map fun row => row.map String.toList

end Forest

namespace Table

/-- The cell of a new row. -/
private def cell (text : String) (bold : Bool) : Element :=
  .node cellName [] [.node (main "tcPr") [] [],paragraph [textRun text bold]]

private theorem children_row (texts : List String) (bold : Bool) :
    (row texts bold).children = texts.map (cell · bold) := rfl

private theorem name_row (texts : List String) (bold : Bool) : (row texts bold).name = rowName := rfl

private theorem paragraphs_cell (text : String) (bold : Bool) :
    (cell text bold).named paragraphName = [paragraph [textRun text bold]] := by
  cases bold <;>
    simp [cell,Element.named,Element.node,Element.descendants_mk,paragraph,textRun,textElement,
      Element.leaf,Element.name,cellName,paragraphName,runName,textName]

theorem cellText_cell (text : String) (bold : Bool) : (cell text bold).cellText = text.toList := by
  rw [Element.cellText,paragraphs_cell]
  cases bold <;>
    simp [Element.named,Element.node,Element.descendants_mk,paragraph,textRun,textElement,
      Element.leaf,Element.name,Element.text,paragraphName,runName,textName]

/-- The table of some rows, each bold or not. -/
private def ofRows (s : Settings) (columns : Nat) (rows : List (List String × Bool)) : Element :=
  .node tableName [] ([properties s,grid s columns] ++ rows.map fun r => row r.1 r.2)

private theorem rows_ofRows (s : Settings) (columns : Nat) (rows : List (List String × Bool)) :
    (ofRows s columns rows).childrenNamed rowName = rows.map fun r => row r.1 r.2 := by
  have all : (rows.map fun r => row r.1 r.2).filter (·.name == rowName) =
      rows.map fun r => row r.1 r.2 := by
    exact List.filter_eq_self.mpr (List.forall_mem_map.mpr fun r _ => by simp [name_row])
  simp only [ofRows,Element.childrenNamed,Element.node,Element.children,List.filter_append,all]
  rfl

private theorem grids_ofRows (s : Settings) (columns : Nat) (rows : List (List String × Bool)) :
    (ofRows s columns rows).childrenNamed (main "tblGrid") = [grid s columns] := by
  have none : (rows.map fun r => row r.1 r.2).filter (·.name == main "tblGrid") = [] := by
    exact List.filter_eq_nil_iff.mpr (List.forall_mem_map.mpr fun r _ => by simp [name_row,rowName])
  simp only [ofRows,Element.childrenNamed,Element.node,Element.children,List.filter_append,none]
  rfl

/-- The nodes planted for a table form the grid of its rows. -/
theorem grid_plant {α : Type} {f : Forest} {owner : NodeId → α} {level : NodeId → Nat}
    (sorted : f.Sorted owner level) (s : Settings) {columns : Nat}
    {rows : List (List String × Bool)} (wide : ∀ r ∈ rows, r.1.length = columns) :
    (f.plant (ofRows s columns rows)).2.Grid (f.plant (ofRows s columns rows)).1 columns
      (rows.map (·.1)) := by
  obtain ⟨grown,-⟩ := f.grown_plant (ofRows s columns rows)
  have sorted' := sorted.grow grown (owner 0)
  have table := Forest.element_plant sorted' f (ofRows s columns rows) fun _ _ _ => rfl
  generalize (f.plant (ofRows s columns rows)).2 = g at sorted' table
  generalize (f.plant (ofRows s columns rows)).1 = id at table
  have names (n : NodeId) : (g.children n).map g.name = (g.element n).children.map Element.name := by
    rw [Forest.children_element sorted',List.map_map]
    exact List.map_congr_left fun n _ => (g.name_element n).symm
  have rows_eq : (g.childrenNamed id rowName).map g.element = rows.map fun r => row r.1 r.2 := by
    rw [← Forest.childrenNamed_element sorted',table,rows_ofRows]
  have row_eq : ∀ n ∈ g.childrenNamed id rowName, ∃ r ∈ rows, row r.1 r.2 = g.element n :=
    fun n member => List.mem_map.mp (rows_eq ▸ List.mem_map_of_mem member)
  have cells_eq : ∀ n ∈ g.childrenNamed id rowName, ∀ c ∈ g.children n, ∃ text bold,
      cell text bold = g.element c := by
    intro n member c below
    obtain ⟨r,-,same⟩ := row_eq n member
    have inside : g.element c ∈ (g.element n).children := by
      rw [Forest.children_element sorted']
      exact List.mem_map_of_mem below
    rw [← same,children_row] at inside
    obtain ⟨text,-,here⟩ := List.mem_map.mp inside
    exact ⟨text,r.2,here⟩
  refine ⟨?_,?_,?_,?_,?_⟩
  · rw [names,table]
    rw [ofRows,Element.node,Element.children,List.map_append,List.map_map,List.length_map,
      ← List.map_const']
    rfl
  · intro n member
    have same : g.element n ∈ (ofRows s columns rows).childrenNamed (main "tblGrid") := by
      rw [← table,Forest.childrenNamed_element sorted']
      exact List.mem_map_of_mem member
    rw [grids_ofRows,List.mem_singleton] at same
    rw [names,same]
    simp [grid,Element.node,Element.children,Element.name]
  · intro n member
    obtain ⟨r,listed,same⟩ := row_eq n member
    rw [names,← same,children_row,List.map_map,← wide r listed]
    exact List.map_const'
  · intro n member c below
    obtain ⟨text,bold,same⟩ := cells_eq n member c below
    rw [← List.length_map g.element,← Forest.named_element sorted',← same,paragraphs_cell]
    rfl
  · have texts_eq (n : NodeId) : (g.children n).map g.cellText =
        (g.element n).children.map Element.cellText := by
      rw [Forest.children_element sorted',List.map_map]
      exact List.map_congr_left fun n _ => (Forest.cellText_element sorted' n).symm
    calc (g.childrenNamed id rowName).map (fun row => (g.children row).map g.cellText)
        = ((g.childrenNamed id rowName).map g.element).map fun e => e.children.map Element.cellText := by
          simp only [texts_eq,List.map_map,Function.comp_def]
      _ = (rows.map (·.1)).map fun row => row.map String.toList := by
          simp only [rows_eq,List.map_map,Function.comp_def,children_row,cellText_cell]

/-- What the cell of a row in a column reads. -/
inductive Reads : Value → Scalar → String → Prop
  | entry {entries : List (Scalar × Value)} {column : Scalar} {v : Value} {text : String}
    (found : Entries.lookup entries column = some v) (given : v ≠ .null)
    (shown : v.display = .ok text) : Reads (.map entries) column text
  | null {entries : List (Scalar × Value)} {column : Scalar}
    (found : Entries.lookup entries column = some .null) : Reads (.map entries) column ""
  | missing {entries : List (Scalar × Value)} {column : Scalar}
    (lacking : Entries.lookup entries column = none) : Reads (.map entries) column ""
  | other {row : Value} {column : Scalar} (noMap : ∀ entries, row ≠ .map entries) :
    Reads row column ""

/-- A cell reads as one text. -/
theorem reads_unique (v : Value) : Relator.RightUnique (Reads v) := by
  intro column text text' reads reads'
  cases reads with
  | other noMap =>
    cases reads' with
    | other => rfl
    | entry | null | missing => exact absurd rfl (noMap _)
  | entry found given shown =>
    cases reads' with
    | other noMap => exact absurd rfl (noMap _)
    | entry found' given' shown' => simp_all
    | null found' | missing found' => simp_all
  | null found | missing found =>
    cases reads' with
    | other noMap => exact absurd rfl (noMap _)
    | entry found' given' => simp_all
    | null | missing => rfl

theorem exists_reads {entries : List (Scalar × Value)} (structured : (Value.map entries).Structured)
    (column : Scalar) : ∃ text, ((Entries.lookup entries column).getD .null).display = .ok text ∧
      Reads (.map entries) column text := by
  cases found : Entries.lookup entries column with
  | none => exact ⟨"",rfl,.missing found⟩
  | some v =>
    by_cases null : v = .null
    · subst null
      exact ⟨"",rfl,.null found⟩
    · obtain ⟨text,shown⟩ := (structured.of_holds (Value.holds_of_lookup found)).exists_display
      exact ⟨text,shown,.entry found null shown⟩

/-- Every row of structured data has the cells that read as it says. -/
theorem exists_cells {v : Value} (structured : v.Structured) (columns : List Scalar) :
    ∃ texts, cells columns v = .ok texts ∧ List.Forall₂ (Reads v) columns texts := by
  cases v with
  | map entries => exact exists_mapM_eq_ok fun column _ => exists_reads structured column
  | scalar | list =>
    refine ⟨_,rfl,List.forall₂_map_right_iff.mpr (List.forall₂_same.mpr fun column _ => ?_)⟩
    exact .other nofun

/-- A row without the keys that are no columns. -/
def onlyColumns (columns : List Scalar) : Value → Value
  | .map entries => .map (entries.filter fun entry => columns.any entry.1.same)
  | v => v

theorem cells_onlyColumns (columns : List Scalar) (v : Value) :
    cells columns (onlyColumns columns v) = cells columns v := by
  cases v with
  | scalar | list => rfl
  | map entries =>
    refine mapM_congr fun column member => ?_
    have same : Entries.lookup (entries.filter fun entry => columns.any entry.1.same) column =
        Entries.lookup entries column := by
      rw [Entries.lookup,Entries.lookup,List.find?_filter]
      refine congrArg (fun test => (entries.find? test).map (·.2)) (funext fun entry => ?_)
      cases is : entry.1.same column with
      | false => simp
      | true => simpa using ⟨column,member,is⟩
    rw [same]

/-- A table is built of the cells of all its rows, below the headings. -/
private theorem build_cons (s : Settings) {first : List (Scalar × Value)} (later : List Value)
    (some : first ≠ []) : build s (.map first :: later) =
      ((.map first :: later : List Value).mapM (cells (first.map (·.1)))).map fun body =>
        ofRows s first.length ((first.map fun entry => (Value.scalar entry.1).bare,true) ::
          body.map (·,false)) := by
  obtain ⟨entry,entries,rfl⟩ := List.exists_cons_of_ne_nil some
  rw [build]
  cases (.map (entry :: entries) :: later : List Value).mapM
      (cells ((entry :: entries).map (·.1))) with
  | error fault => rfl
  | ok body => simp [bind,Except.bind,Except.map,pure,Except.pure,ofRows,Function.comp_def]

/-- The first row of data has all columns. -/
private theorem onlyColumns_first {first : List (Scalar × Value)}
    (keys : ∀ entry ∈ first, entry.1.IsText) :
    onlyColumns (first.map (·.1)) (.map first) = .map first := by
  refine congrArg Value.map (List.filter_eq_self.mpr fun entry member => ?_)
  obtain ⟨key,is⟩ := keys entry member
  refine List.any_eq_true.mpr ⟨entry.1,List.mem_map_of_mem member,?_⟩
  simp [is,Scalar.same,Scalar.number?]

/-- Structured rows are refused exactly if there is none or the first is no mapping with an entry.
All others make a table: its headings are the keys of the first row, every row of the data has a
row of cells that read as what it holds in these columns, and entries that are in none of them make no
difference. -/
theorem build_reads {α : Type} {f : Forest} {owner : NodeId → α} {level : NodeId → Nat}
    (sorted : f.Sorted owner level) (s : Settings) {rows : List Value}
    (structured : ∀ row ∈ rows, row.Structured) :
    ((∃ fault, build s rows = .error fault ∧ fault.label = "EmptyTableDataError") ↔
      ∀ first, rows.head? = some (.map first) → first = []) ∧
    ∀ first later, rows = .map first :: later → first ≠ [] →
      ∃ (table : Element) (header : List String) (body : List (List String)),
        build s rows = .ok table ∧ header.map Scalar.text = first.map (·.1) ∧
          List.Forall₂ (fun row texts => List.Forall₂ (Reads row) (first.map (·.1)) texts) rows body ∧
          (f.plant table).2.Grid (f.plant table).1 first.length (header :: body) ∧
          build s (rows.map (onlyColumns (first.map (·.1)))) = .ok table := by
  have made : ∀ first later, rows = .map first :: later → first ≠ [] →
      ∃ body, build s rows = .ok (ofRows s first.length
          ((first.map fun entry => (Value.scalar entry.1).bare,true) :: body.map (·,false))) ∧
        List.Forall₂ (fun row texts => List.Forall₂ (Reads row) (first.map (·.1)) texts) rows body := by
    rintro first later rfl some
    obtain ⟨body,ok,reads⟩ := exists_mapM_eq_ok fun row member =>
      exists_cells (structured row member) (first.map (·.1))
    exact ⟨body,by rw [build_cons s later some,ok]; rfl,reads⟩
  refine ⟨⟨?_,?_⟩,?_⟩
  · rintro ⟨fault,failed,-⟩ first head
    by_contra some
    obtain ⟨later,is⟩ := List.head?_eq_some_iff.mp head
    obtain ⟨body,ok,-⟩ := made first later is some
    simp [ok] at failed
  · intro unheaded
    match rows, unheaded with
    | [], _ => exact ⟨.noTableRows,rfl,rfl⟩
    | .map (entry :: entries) :: _, unheaded => exact absurd (unheaded _ rfl) (by simp)
    | .map [] :: _, _ => exact ⟨.badFirstRow,rfl,rfl⟩
    | .scalar _ :: _, _ => exact ⟨.badFirstRow,rfl,rfl⟩
    | .list _ :: _, _ => exact ⟨.badFirstRow,rfl,rfl⟩
  · intro first later is some
    obtain ⟨body,ok,reads⟩ := made first later is some
    have keys : ∀ entry ∈ first, entry.1.IsText := by
      cases structured _ (is ▸ List.mem_cons_self) with
      | map keys _ => exact keys
    refine ⟨_,first.map fun entry => (Value.scalar entry.1).bare,body,ok,?_,reads,?_,?_⟩
    · rw [List.map_map]
      refine List.map_congr_left fun entry member => ?_
      obtain ⟨key,is⟩ := keys entry member
      rw [Function.comp_apply,is,Value.bare,Scalar.bare]
    · have wide : ∀ r ∈ ((first.map fun entry => (Value.scalar entry.1).bare,true) ::
          body.map (·,false) : List (List String × Bool)), r.1.length = first.length := by
        have lengths := reads.flip.imp (S := fun texts _ => texts.length = first.length ∧ True)
          fun texts row read => ⟨by simpa using read.length_eq.symm,trivial⟩
        rw [List.forall_mem_cons,List.forall_mem_map]
        exact ⟨List.length_map _,((List.forall₂_and_left _ _).mp lengths).1⟩
      simpa [Function.comp_def] using grid_plant sorted s wide
    · rw [← ok,is,List.map_cons,onlyColumns_first keys,build_cons s _ some,build_cons s _ some,
        ← onlyColumns_first keys,← List.map_cons,List.mapM_map,onlyColumns_first keys]
      exact congrArg _ (mapM_congr fun row _ => cells_onlyColumns _ row)

/-- A row with all columns, one that is no mapping, and one with a column of its own. -/
private def ragged : List Value :=
  [.map [(.text "a",.bool true),(.text "b",.null)],.list [],
    .map [(.text "c",.text "x"),(.text "b",.list [.text "y"])]]

private theorem structured_ragged : ∀ row ∈ ragged, row.Structured := by
  have scalar (s : Scalar) (plain : s.IsPlain) : (Value.scalar s).Structured := .scalar plain
  simp only [ragged,List.forall_mem_cons]
  refine ⟨.map ?_ ?_,.list nofun,.map ?_ ?_,nofun⟩
  · simp [Scalar.IsText]
  · simp only [List.forall_mem_cons]
    exact ⟨scalar _ trivial,scalar _ trivial,nofun⟩
  · simp [Scalar.IsText]
  · simp only [List.forall_mem_cons]
    exact ⟨scalar _ trivial,.list (by simpa using scalar (.text "y") trivial),nofun⟩

theorem build_reads_ragged : (∀ row ∈ ragged, row.Structured) ∧
    ({} : Forest).Sorted (fun _ => 0) (fun _ => 0) ∧
    ∃ table, build {} ragged = .ok table ∧ (({} : Forest).plant table).2.Grid
      (({} : Forest).plant table).1 2 [["a","b"],["true",""],["",""],["","[\"y\"]"]] := by
  have sorted : ({} : Forest).Sorted (fun _ => 0) (fun _ => 0) := ⟨nofun,nofun⟩
  obtain ⟨-,tables⟩ := build_reads sorted {} structured_ragged
  obtain ⟨table,header,body,ok,headings,reads,grid,-⟩ := tables _ _ rfl (by simp)
  have cells : List.Forall₂ (fun row texts => List.Forall₂ (Reads row) [.text "a",.text "b"] texts)
      ragged [["true",""],["",""],["","[\"y\"]"]] := by
    refine .cons (.cons (.entry rfl (by simp) rfl) (.cons (.null rfl) .nil)) (.cons ?_ (.cons ?_ .nil))
    · exact .cons (.other nofun) (.cons (.other nofun) .nil)
    · exact .cons (.missing rfl) (.cons (.entry rfl (by simp) rfl) .nil)
  have unique (row : Value) := Relator.RightUnique.forall₂ (reads_unique row)
  obtain rfl := List.right_unique_forall₂' (fun row _ _ => @unique row _ _ _) reads cells
  obtain rfl : header = ["a","b"] :=
    List.map_injective_iff.mpr (fun _ _ => Scalar.text.inj) headings
  exact ⟨structured_ragged,sorted,table,ok,grid⟩

end Table
end MailMerge
