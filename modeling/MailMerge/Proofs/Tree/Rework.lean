import MailMerge.Table.Style
import MailMerge.Proofs.Tree.Work

/-! The functions that rework the tree of a part: each comes down to steps of work on that tree which
leave every paragraph where it is.
-/
namespace MailMerge.Grove
open Xml Docx Forest Plot Relation

/-- Work on the tree of a part leads to a forest. -/
def Reaches (g : Grove) (s : Settings) (part : String) (scope : Scope) (ix : Index) (f : Forest) :
    Prop :=
  ∃ h : Grove, h.forest = f ∧ Works s part scope ⟨g,ix⟩ ⟨h,ix⟩

variable {g : Grove} {s : Settings} {part : String} {scope : Scope} {ix : Index} {f : Forest}

theorem reaches_self (g : Grove) : g.Reaches s part scope ix g.forest :=
  ⟨g,rfl,ReflTransGen.refl⟩

theorem Reaches.trans {k : Grove} (first : Works s part scope ⟨g,ix⟩ ⟨k,ix⟩)
    (second : k.Reaches s part scope ix f) : g.Reaches s part scope ix f := by
  obtain ⟨h,forest_eq,steps⟩ := second
  exact ⟨h,forest_eq,first.trans steps⟩

theorem Reaches.single {h : Grove} (step : Work s part scope ⟨g,ix⟩ ⟨h,ix⟩) :
    g.Reaches s part scope ix h.forest :=
  ⟨h,rfl,ReflTransGen.single step⟩

theorem Orderly.works (orderly : g.Orderly) {h : Grove}
    (steps : Works s part scope ⟨g,ix⟩ ⟨h,ix⟩) : h.Orderly :=
  orderly.edits (Works.edits steps)

/-- A step repeated for every item of a list. -/
theorem reaches_foldl {α : Type} (step : Forest → α → Forest) (items : List α)
    (each : ∀ k : Grove, Works s part scope ⟨g,ix⟩ ⟨k,ix⟩ → ∀ a ∈ items,
      k.Reaches s part scope ix (step k.forest a)) :
    g.Reaches s part scope ix (items.foldl step g.forest) := by
  induction items generalizing g with
  | nil => exact reaches_self g
  | cons a items ih =>
    obtain ⟨k,forest_eq,steps⟩ := each g ReflTransGen.refl a List.mem_cons_self
    rw [List.foldl_cons,← forest_eq]
    apply Reaches.trans steps
    apply ih
    intro k' steps' b member
    exact each k' (steps.trans steps') b (List.mem_cons_of_mem a member)

/-- Something without a paragraph is planted and put among the children of an element. -/
theorem plantInto_reaches (scope : Scope) (ix : Index) (orderly : g.Orderly) {parent : NodeId}
    (inside : g.Within part parent) {e : Element} (built : Built s e) (plain : Plain e)
    (change : List NodeId → List NodeId) {before after : List NodeId}
    (split : g.forest.children parent = before ++ after)
    (changed : change (g.forest.children parent) = before ++ (g.forest.plant e).1 :: after)
    (front : g.forest.name parent = cellName → before = []) :
    ∃ h : Grove, h.forest = (g.forest.plant e).2.updateChildren parent change ∧
      Works s part scope ⟨g,ix⟩ ⟨h,ix⟩ ∧ h.Within part (g.forest.plant e).1 ∧
        h.forest.name (g.forest.plant e).1 = e.name := by
  have step := work_grow scope ix orderly inside built plain split front
  have same : (g.plant part e).setChildren parent (before ++ (g.forest.plant e).1 :: after) =
      (g.plant part e).withForest ((g.plant part e).forest.updateChildren parent change) := by
    rw [withForest_updateChildren,← changed]
    congr 2
    exact ((grown_plant g.forest e).1.children_eq inside.1).symm
  rw [same] at step
  have within := (within_plant g part e).1
  refine ⟨_,rfl,ReflTransGen.single step,?_,?_⟩
  · exact (later_updateChildren (g.plant part e) parent change).within within
  · rw [(later_updateChildren (g.plant part e) parent change).name_eq _ within.1]
    exact (copies_plant g.forest e).1

theorem reaches_setText {id : NodeId} (inside : g.Within part id) (text : String) :
    g.Reaches s part scope ix (g.forest.setText id text) :=
  Reaches.single (work_write scope ix text inside)

theorem reaches_detach {parent child : NodeId} (inside : g.Within part parent)
    (spare : g.forest.Spare parent child) :
    g.Reaches s part scope ix (g.forest.detach parent child) :=
  Reaches.single (work_take inside spare)

theorem reaches_writeText (orderly : g.Orderly) {paragraph : NodeId} {elements : List NodeId}
    (inside : g.Within part paragraph) (kind : g.forest.name paragraph = paragraphName)
    (inside' : ∀ id ∈ elements, g.Within part id) (text : String) :
    g.Reaches s part scope ix (g.forest.writeText paragraph elements text) := by
  cases elements with
  | nil =>
    obtain ⟨h,forest_eq,steps,_⟩ := plantInto_reaches scope ix orderly inside (Built.textRun text)
      (plain_textRun text) (· ++ [(g.forest.plant (textRun text)).1]) (List.append_nil _).symm rfl
      (by rw [kind]; exact fun same => absurd same (by decide))
    exact ⟨h,forest_eq,steps⟩
  | cons first others =>
    have here := inside' first List.mem_cons_self
    have step := work_write (s := s) scope ix text here
    apply Reaches.trans (ReflTransGen.single step)
    apply reaches_foldl (fun f id => f.setText id "") others
    intro k steps id member
    have old := inside' id (List.mem_cons_of_mem first member)
    exact reaches_setText ((Works.edits steps).later.within (step.edits.later.within old)) ""

theorem reaches_setParagraphText (orderly : g.Orderly) {paragraph : NodeId}
    (inside : g.Within part paragraph) (kind : g.forest.name paragraph = paragraphName)
    (text : String) : g.Reaches s part scope ix (g.forest.setParagraphText paragraph text) :=
  reaches_writeText orderly inside kind
    (fun _ member => orderly.sorted.within_textElements inside member) text

/-- A leaf is planted and put among the children of another element where it belongs. -/
theorem reaches_insertInOrder (orderly : g.Orderly) {parent : NodeId}
    (inside : g.Within part parent) (other : g.forest.name parent ≠ cellName) {name : Name}
    {attributes : Attributes} (built : Built s (.node name attributes []))
    (plain : Plain (.node name attributes [])) (later : List String) :
    g.Reaches s part scope ix ((g.forest.add { name := name, attributes := attributes }).2.insertInOrder
      parent (g.forest.add { name := name, attributes := attributes }).1 later) := by
  have front {before : List NodeId} : g.forest.name parent = cellName → before = [] :=
    fun same => absurd same other
  unfold insertInOrder
  split
  · next i _ =>
    obtain ⟨h,forest_eq,steps,_⟩ := plantInto_reaches scope ix orderly inside built plain
      (fun ids => ids.take i ++ g.forest.nodes.size :: ids.drop i) (List.take_append_drop i _).symm
      rfl front
    exact ⟨h,forest_eq,steps⟩
  · obtain ⟨h,forest_eq,steps,_⟩ := plantInto_reaches scope ix orderly inside built plain
      (· ++ [g.forest.nodes.size]) (List.append_nil _).symm rfl front
    exact ⟨h,forest_eq,steps⟩

/-- The first child with a stem is there or is planted. -/
theorem firstOrNew_reaches (scope : Scope) (ix : Index) (orderly : g.Orderly) {parent : NodeId}
    (inside : g.Within part parent) {stem : String} (built : Built s (.node (main stem) [] []))
    (plain : Plain (.node (main stem) [] [])) :
    ∃ h : Grove, h.forest = (g.forest.firstOrNew parent stem).2 ∧
      Works s part scope ⟨g,ix⟩ ⟨h,ix⟩ ∧ h.Within part (g.forest.firstOrNew parent stem).1 ∧
        h.forest.name (g.forest.firstOrNew parent stem).1 = main stem := by
  unfold firstOrNew
  cases found : g.forest.childNamed? parent (main stem) with
  | some id =>
    exact ⟨g,rfl,ReflTransGen.refl,orderly.sorted.within_childNamed inside found,
      eq_of_beq (List.find?_some (p := fun id => g.forest.name id == main stem) found)⟩
  | none =>
    exact plantInto_reaches scope ix orderly inside built plain
      (fun ids => ids.take 0 ++ g.forest.nodes.size :: ids.drop 0) (List.nil_append _).symm rfl
      fun _ => rfl

theorem reaches_shade (orderly : g.Orderly) {cell : NodeId} (inside : g.Within part cell)
    (fill : String) : g.Reaches s part scope ix (Table.shade g.forest cell fill) := by
  obtain ⟨h,forest_eq,steps,look_inside,look_name⟩ :=
    firstOrNew_reaches scope ix orderly inside Built.cellLook (plain_leaf (by decide) (by decide))
  unfold Table.shade
  generalize g.forest.firstOrNew cell "tcPr" = found at forest_eq look_inside look_name
  obtain ⟨look,bare⟩ := found
  obtain rfl : h.forest = bare := forest_eq
  apply Reaches.trans steps
  have orderly_h := orderly.works steps
  have clears : h.Reaches s part scope ix _ := reaches_foldl (fun f old => f.detach look old)
    (h.forest.childrenNamed look (main "shd")) fun k steps old member => by
      have later := (Works.edits steps).later
      have member' := List.mem_filter.mp member
      have old_inside := orderly_h.sorted.within_child look_inside member'.1
      refine reaches_detach (later.within look_inside) (Or.inl ⟨?_,?_⟩)
      · exact (later.name_eq look look_inside.1).trans look_name
      · exact (later.name_eq old old_inside.1).trans (eq_of_beq member'.2)
  obtain ⟨k,bare_eq,cleared⟩ := clears
  apply Reaches.trans cleared
  have later := (Works.edits cleared).later
  have other : k.forest.name look ≠ cellName := by
    rw [later.name_eq look look_inside.1,look_name]
    decide
  have placed : k.Reaches s part scope ix _ := reaches_insertInOrder (orderly_h.works cleared)
    (later.within look_inside) other (Built.shading fill)
    (plain_leaf (by decide) (by decide)) Table.afterShading
  simpa only [bare_eq] using placed

theorem reaches_embolden (orderly : g.Orderly) {run : NodeId} (inside : g.Within part run) :
    g.Reaches s part scope ix (Table.embolden g.forest run) := by
  obtain ⟨h,forest_eq,steps,look_inside,look_name⟩ :=
    firstOrNew_reaches scope ix orderly inside Built.runLook (plain_leaf (by decide) (by decide))
  unfold Table.embolden
  generalize g.forest.firstOrNew run "rPr" = found at forest_eq look_inside look_name
  obtain ⟨look,present⟩ := found
  obtain rfl : h.forest = present := forest_eq
  apply Reaches.trans steps
  simp only
  split
  · exact reaches_self h
  · exact reaches_insertInOrder (orderly.works steps) look_inside (by rw [look_name]; decide)
      Built.bold (plain_leaf (by decide) (by decide)) Table.afterBold

theorem reaches_styleRow (orderly : g.Orderly) {row : NodeId} (inside : g.Within part row)
    (style : String) : g.Reaches s part scope ix (Table.styleRow s g.forest row style) := by
  unfold Table.styleRow
  have cell_inside : ∀ cell ∈ g.forest.childrenNamed row cellName, g.Within part cell :=
    fun _ member => orderly.sorted.within_childrenNamed inside member
  simp only
  split
  · next fill _ =>
    apply reaches_foldl (fun f cell => Table.shade f cell fill)
    intro k steps cell member
    have later := (Works.edits steps).later
    exact reaches_shade (orderly.works steps) (later.within (cell_inside cell member)) fill
  · split
    · apply reaches_foldl fun f cell => (f.named cell runName).foldl Table.embolden f
      intro k steps cell member
      have orderly_k := orderly.works steps
      have cell_inside_k := (Works.edits steps).later.within (cell_inside cell member)
      apply reaches_foldl
      intro k' steps' run member'
      have run_inside := orderly_k.sorted.within_named cell_inside_k member'
      exact reaches_embolden (orderly_k.works steps') ((Works.edits steps').later.within run_inside)
    · exact reaches_self g

theorem reaches_strip (orderly : g.Orderly) {cell : NodeId} (inside : g.Within part cell)
    (raw : List Char) : g.Reaches s part scope ix (Table.strip g.forest cell raw) := by
  unfold Table.strip
  split
  · next found =>
    have member := List.mem_of_find?_eq_some found
    exact reaches_setParagraphText orderly (orderly.sorted.within_named inside member)
      (mem_named.mp member).2 _
  · exact reaches_self g

end MailMerge.Grove
