import MailMerge.Fill.Paragraph
import MailMerge.Proofs.Generation.Steps

/-! The steps by which a paragraph leaves its place. Each comes down to one move of work, or to none
where the index knows no parent of the paragraph. That the index is wrong about a parent would be a
breakdown.
-/
namespace MailMerge
open Xml Docx Forest Relation Generation

variable {setup : Setup} {scope : Scope} {w : World}

namespace Generation

theorem forest_apply (setup : Setup) (s : Session) :
    Generation.forest setup s = .ok s.package.forest s := rfl

theorem parent?_apply (id : NodeId) (setup : Setup) (s : Session) :
    Generation.parent? id setup s = .ok (s.index.parent? id) s := rfl

theorem plant_apply (e : Element) (setup : Setup) (s : Session) : plant e setup s =
    .ok (s.package.forest.plant e).1
      { s with package := { s.package with forest := (s.package.forest.plant e).2 } } := rfl

/-- A change through the index. -/
theorem change_apply (step : Index → Forest → Except Fault (Bool × Index × Forest)) (setup : Setup)
    (s : Session) : change step setup s = match step s.index s.package.forest with
      | .ok (known,ix,f) =>
        .ok known { s with index := ix, package := { s.package with forest := f } }
      | .error fault => .error fault s := by
  have look : (get : Generation Session) setup s = .ok s s := rfl
  unfold change
  rw [bind_apply,look]
  simp only
  rw [bind_apply]
  cases step s.index s.package.forest <;> rfl

theorem onPackage_ok {α : Type} {operation : Packaging α} {a : α} {s : Session} {q : Package}
    (ran : operation s.package = .ok a q) :
    onPackage operation setup s = .ok a { s with package := q } := by
  simp only [onPackage,ran]

theorem onPackage_error {α : Type} {operation : Packaging α} {fault : Fault} {s : Session}
    {q : Package} (ran : operation s.package = .error fault q) :
    onPackage operation setup s = .error fault { s with package := q } := by
  simp only [onPackage,ran]

/-- One step after another that gave a result. -/
theorem bind_ok {α β : Type} {step : Generation α} {next : α → Generation β} {s s' : Session}
    {a : α} (ran : step setup s = .ok a s') : (step >>= next) setup s = next a setup s' := by
  rw [bind_apply,ran]

/-- Nothing comes after a step that failed. -/
theorem bind_error {α β : Type} {step : Generation α} {next : α → Generation β} {s s' : Session}
    {fault : Fault} (ran : step setup s = .error fault s') :
    (step >>= next) setup s = .error fault s' := by
  rw [bind_apply,ran]

/-- A change through the index that is made. -/
theorem change_ok {step : Index → Forest → Except Fault (Bool × Index × Forest)} {s : Session}
    {known : Bool} {ix : Index} {f : Forest} (ran : step s.index s.package.forest = .ok (known,ix,f)) :
    change step setup s =
      .ok known { s with index := ix, package := { s.package with forest := f } } := by
  rw [change_apply,ran]

end Generation

/-- The index knows the place of an element. -/
private theorem place_cases (w : World) (q : NodeId) : w.session.index.parent? q = none ∨
    ∃ parent, w.session.index.parent? q = some parent ∧
      ((∃ fault, Index.position w.package.forest parent q = .error fault ∧ fault.isOwn = false) ∨
        ∃ before after, w.package.forest.children parent = before ++ q :: after ∧ q ∉ before ∧
          Index.position w.package.forest parent q = .ok before.length) := by
  cases known : w.session.index.parent? q with
  | none => exact Or.inl rfl
  | some parent =>
    refine Or.inr ⟨parent,rfl,?_⟩
    cases found : Index.position w.package.forest parent q with
    | error fault => exact Or.inl ⟨fault,rfl,Index.isOwn_of_position found⟩
    | ok i =>
      obtain ⟨before,after,split,rfl,first⟩ := Index.split_of_position found
      exact Or.inr ⟨before,after,split,first,rfl⟩

section
variable {q parent new : NodeId} {before after : List NodeId}

/-- How the tree is changed when an element takes the place of another. -/
private theorem replace_ok (known : w.session.index.parent? q = some parent)
    (split : w.package.forest.children parent = before ++ q :: after) (first : q ∉ before)
    (found : Index.position w.package.forest parent q = .ok before.length) (setup : Setup)
    (new : NodeId) : replace q new setup w.session = .ok true
      (w.withPlot (w.plot.place q parent new before after)).session :=
  change_ok (Index.replace_eq known split first found new)

/-- What cannot be replaced stays, or is a breakdown. -/
theorem replace_cases (w : World) (q new : NodeId) (setup : Setup) :
    (w.session.index.parent? q = none ∧ replace q new setup w.session = .ok false w.session) ∨
      (∃ fault, fault.isOwn = false ∧ replace q new setup w.session = .error fault w.session) ∨
        ∃ parent before after, w.session.index.parent? q = some parent ∧
          w.package.forest.children parent = before ++ q :: after ∧
            replace q new setup w.session =
              .ok true (w.withPlot (w.plot.place q parent new before after)).session := by
  rcases place_cases w q with unknown |
    ⟨parent,known,⟨fault,missing,foreign⟩ | ⟨before,after,split,first,found⟩⟩
  · refine Or.inl ⟨unknown,?_⟩
    simp [replace,change_apply,Index.replace,unknown]
  · refine Or.inr (Or.inl ⟨fault,foreign,?_⟩)
    have stops : Index.position w.session.package.forest parent q = .error fault := missing
    simp [replace,change_apply,Index.replace,known,stops]
  · exact Or.inr (Or.inr ⟨parent,before,after,known,split,replace_ok known split first found setup new⟩)

/-- A new paragraph takes the place of another. -/
theorem ends_replace (ready : w.Ready scope.base) (paragraph : w.Paragraph q)
    (may : scope.may q .replaced) (novel : Plot.Novel w.plot w.session.part scope.base new)
    (kind : w.package.forest.name new = paragraphName) :
    Ends (Stride setup scope) setup (replace q new) w fun _ _ => True := by
  rcases replace_cases w q new setup with ⟨_,ran⟩ | ⟨fault,foreign,ran⟩ |
    ⟨parent,before,after,known,split,ran⟩
  · exact Ends.of_still ran
  · exact Ends.of_breakdown foreign ran
  · exact Ends.of_work ready.toPlaced ran (Plot.work_place ready.sound.orderly ready.home may
      paragraph.kind known split novel (.replaced novel.later kind))

/-- How the tree is changed when an element follows another. -/
private theorem insertAfter_ok (known : w.session.index.parent? q = some parent)
    (split : w.package.forest.children parent = before ++ q :: after) (first : q ∉ before)
    (setup : Setup) (new : NodeId) : insertAfter q new setup w.session = .ok true (w.withPlot
      ⟨w.grove.setChildren parent ((before ++ [q]) ++ new :: after),w.session.index.enter
        (w.grove.setChildren parent ((before ++ [q]) ++ new :: after)).forest parent new⟩).session :=
  change_ok (Index.insertAfter_eq known split (Index.position_of_split split first) new)

/-- An empty paragraph follows what has just been put in the place of another. -/
private theorem insertAfter_follow {base : Nat} (ready : w.Ready base)
    (known : w.session.index.parent? q = some parent)
    (split : w.package.forest.children parent = before ++ q :: after)
    (novel : Plot.Novel w.plot w.session.part base new) :
    insertAfter new (w.plot.place q parent new before after).forest.nodes.size setup
      (w.withPlot ⟨(w.plot.place q parent new before after).grove.plant w.session.part
        (paragraph []),(w.plot.place q parent new before after).index⟩).session =
      .ok true (w.withPlot ((w.plot.place q parent new before after).follow w.session.part parent
        (before ++ [new]) after)).session := by
  have inside := ready.home.parent? known
  have edits : Grove.Edits setup.settings w.session.part w.grove _ :=
    Grove.edits_swap inside split novel.within (novel.deeper q parent known) novel.loose
      novel.last
  have sorted := ready.sound.orderly.sorted.edits edits
  have placed : (w.plot.place q parent new before after).forest.children parent =
      before ++ new :: after :=
    (w.grove.children_setChildren inside.1 _ parent).trans (if_pos rfl)
  have known' : (w.plot.place q parent new before after).index.parent? new = some parent := by
    apply Index.parent?_enter
    intro n member here
    have deeper := (sorted.below n new here).2.2
    exact absurd (sorted.le_of_below ((mem_tree_iff sorted).mp member)) (Nat.not_le.mpr deeper)
  have split' : ((w.plot.place q parent new before after).forest.plant (paragraph [])).2.children
      parent = before ++ new :: after :=
    ((grown_plant _ _).1.children_eq (edits.later.within inside).1).trans placed
  have first : new ∉ before := by
    intro member
    exact novel.loose parent (split ▸ List.mem_append_left _ member)
  exact insertAfter_ok (w := w.withPlot ⟨(w.plot.place q parent new before after).grove.plant
    w.session.part (paragraph []),(w.plot.place q parent new before after).index⟩) known' split' first
    setup _

/-- The tree at work with a new element in the place of another, and with an empty paragraph after it in a
cell. -/
def Plot.putTable (v : Plot) (part : String) (q parent new : NodeId) (before after : List NodeId) : Plot :=
  if v.forest.name parent = cellName then
    (v.place q parent new before after).follow part parent (before ++ [new]) after
  else v.place q parent new before after

theorem putTable_of_cell (cell : w.package.forest.name parent = cellName) :
    w.plot.putTable w.session.part q parent new before after =
      (w.plot.place q parent new before after).follow w.session.part parent (before ++ [new]) after :=
  if_pos cell

theorem putTable_of_other (other : w.package.forest.name parent ≠ cellName) :
    w.plot.putTable w.session.part q parent new before after =
      w.plot.place q parent new before after :=
  if_neg other

/-- How the tree is changed when a table takes the place of a paragraph, if it does. -/
theorem putTable_cases {base : Nat} (ready : w.Ready base)
    (novel : Plot.Novel w.plot w.session.part base new) (q : NodeId) (setup : Setup) :
    (w.session.index.parent? q = none ∧ Fill.putTable q new setup w.session = .ok () w.session) ∨
      (∃ fault, fault.isOwn = false ∧ Fill.putTable q new setup w.session = .error fault w.session) ∨
        ∃ parent before after, w.session.index.parent? q = some parent ∧
          w.package.forest.children parent = before ++ q :: after ∧
            Fill.putTable q new setup w.session = .ok ()
              (w.withPlot (w.plot.putTable w.session.part q parent new before after)).session := by
  rcases replace_cases w q new setup with ⟨unknown,ran⟩ | ⟨fault,foreign,ran⟩ |
    ⟨parent,before,after,known,split,ran⟩
  · refine Or.inl ⟨unknown,?_⟩
    simp only [Fill.putTable,bind_apply,parent?_apply,ran,unknown]
    rfl
  · refine Or.inr (Or.inl ⟨fault,foreign,?_⟩)
    simp only [Fill.putTable,bind_apply,parent?_apply,ran]
  refine Or.inr (Or.inr ⟨parent,before,after,known,split,?_⟩)
  have name_eq : (w.plot.place q parent new before after).forest.name parent =
      w.package.forest.name parent := congrFun (w.grove.name_setChildren _ _) parent
  simp only [Fill.putTable,bind_apply,parent?_apply,ran,known,forest_apply]
  by_cases cell : w.package.forest.name parent = cellName
  · have test : (((w.plot.place q parent new before after).forest.name parent == cellName) : Bool) =
        true := by rw [name_eq,cell,BEq.rfl]
    rw [putTable_of_cell cell]
    refine (congrFun (congrFun (if_pos test) setup) _).trans ?_
    refine (bind_ok (plant_apply _ _ _)).trans ?_
    exact (bind_ok (insertAfter_follow ready known split novel)).trans rfl
  · have test : (((w.plot.place q parent new before after).forest.name parent == cellName) : Bool) ≠
        true := by simpa [name_eq] using cell
    rw [putTable_of_other cell]
    exact congrFun (congrFun (if_neg test) setup) _

/-- A table takes the place of a paragraph, with an empty paragraph after it in a cell. -/
theorem ends_putTable (ready : w.Ready scope.base) (paragraph : w.Paragraph q)
    (may : scope.may q .becameTable) (novel : Plot.Novel w.plot w.session.part scope.base new)
    (kind : w.package.forest.name new = tableName) :
    Ends (Stride setup scope) setup (Fill.putTable q new) w fun _ _ => True := by
  rcases putTable_cases ready novel q setup with ⟨_,ran⟩ | ⟨fault,foreign,ran⟩ |
    ⟨parent,before,after,known,split,ran⟩
  · exact Ends.of_still ran
  · exact Ends.of_breakdown foreign ran
  refine Ends.of_work ready.toPlaced ran ?_
  by_cases cell : w.package.forest.name parent = cellName
  · rw [putTable_of_cell cell]
    exact Plot.work_tableInCell ready.sound.orderly ready.home ready.based may paragraph.kind known split
      novel kind cell rfl rfl
  · rw [putTable_of_other cell]
    exact Plot.work_place ready.sound.orderly ready.home may paragraph.kind known split novel
      (.table novel.later kind cell)

/-- How the tree is changed when an element is taken out, if it is. -/
private theorem remove_cases (w : World) (q : NodeId) (setup : Setup) :
    (w.session.index.parent? q = none ∧ remove q setup w.session = .ok false w.session) ∨
      (∃ fault, fault.isOwn = false ∧ remove q setup w.session = .error fault w.session) ∨
        ∃ parent before after, w.session.index.parent? q = some parent ∧
          w.package.forest.children parent = before ++ q :: after ∧ q ∉ before ∧
            remove q setup w.session = .ok true (w.withPlot
              ⟨w.grove.setChildren parent (before ++ after),({ w.session.index with
                parents := w.session.index.parents.filter (·.1 != q) } : Index).leave q⟩).session := by
  rcases place_cases w q with unknown |
    ⟨parent,known,⟨fault,missing,foreign⟩ | ⟨before,after,split,first,found⟩⟩
  · refine Or.inl ⟨unknown,?_⟩
    simp [remove,change_apply,Index.remove,unknown]
  · refine Or.inr (Or.inl ⟨fault,foreign,?_⟩)
    have stops : Index.position w.session.package.forest parent q = .error fault := missing
    simp [remove,change_apply,Index.remove,known,stops]
  · exact Or.inr (Or.inr ⟨parent,before,after,known,split,first,
      change_ok (Index.remove_eq known split first found)⟩)

/-- A cell is left without a paragraph among its children. -/
def Forest.Bare (f : Forest) (parent : NodeId) (left : List NodeId) : Prop :=
  f.name parent = cellName ∧ ∀ p ∈ left, f.name p ≠ paragraphName

instance (f : Forest) (parent : NodeId) (left : List NodeId) : Decidable (f.Bare parent left) :=
  inferInstanceAs (Decidable (_ ∧ _))

/-- The tree at work without an element, and with an empty paragraph in a cell that has none left. -/
def Plot.takeOut (v : Plot) (part : String) (q parent : NodeId) (before after : List NodeId) : Plot where
  grove := if v.forest.Bare parent (before ++ after) then
      (v.grove.setChildren parent (before ++ after)).fill part parent (before ++ after) []
    else v.grove.setChildren parent (before ++ after)
  index := ({ v.index with parents := v.index.parents.filter (·.1 != q) } : Index).leave q

theorem takeOut_of_bare (bare : w.package.forest.Bare parent (before ++ after)) (q : NodeId) :
    (w.plot.takeOut w.session.part q parent before after).grove =
      (w.grove.setChildren parent (before ++ after)).fill w.session.part parent (before ++ after) [] :=
  if_pos bare

theorem takeOut_of_held (held : ¬ w.package.forest.Bare parent (before ++ after)) (q : NodeId) :
    (w.plot.takeOut w.session.part q parent before after).grove =
      w.grove.setChildren parent (before ++ after) :=
  if_neg held

/-- How the tree is changed when a paragraph is taken out, if it is. -/
theorem removeParagraph_cases (home : w.At) (q : NodeId) (setup : Setup) :
    (w.session.index.parent? q = none ∧ Fill.removeParagraph q setup w.session = .ok () w.session) ∨
      (∃ fault, fault.isOwn = false ∧
        Fill.removeParagraph q setup w.session = .error fault w.session) ∨
        ∃ parent before after, w.session.index.parent? q = some parent ∧
          w.package.forest.children parent = before ++ q :: after ∧
            Fill.removeParagraph q setup w.session = .ok ()
              (w.withPlot (w.plot.takeOut w.session.part q parent before after)).session := by
  rcases remove_cases w q setup with ⟨unknown,ran⟩ | ⟨fault,foreign,ran⟩ |
    ⟨parent,before,after,known,split,first,ran⟩
  · refine Or.inl ⟨unknown,?_⟩
    simp only [Fill.removeParagraph,bind_apply,parent?_apply,ran,unknown]
    rfl
  · refine Or.inr (Or.inl ⟨fault,foreign,?_⟩)
    simp only [Fill.removeParagraph,bind_apply,parent?_apply,ran]
  refine Or.inr (Or.inr ⟨parent,before,after,known,split,?_⟩)
  have inside := home.parent? known
  have now : (w.grove.setChildren parent (before ++ after)).forest.children parent =
      before ++ after := (w.grove.children_setChildren inside.1 _ parent).trans (if_pos rfl)
  have names : (w.grove.setChildren parent (before ++ after)).forest.name = w.package.forest.name :=
    w.grove.name_setChildren parent (before ++ after)
  let f := (w.grove.setChildren parent (before ++ after)).forest
  have test : (f.name parent == cellName && (f.childNamed? parent paragraphName).isNone) = true ↔
      w.package.forest.Bare parent (before ++ after) := by
    have listed : f.children parent = before ++ after := now
    have same : f.name = w.package.forest.name := names
    rw [Bool.and_eq_true,beq_iff_eq,Option.isNone_iff_eq_none,Forest.childNamed?,
      List.find?_eq_none,listed,same]
    simp [Forest.Bare]
  simp only [Fill.removeParagraph,bind_apply,parent?_apply,ran,known,forest_apply]
  by_cases bare : w.package.forest.Bare parent (before ++ after)
  · have taken := takeOut_of_bare bare q
    refine (congrFun (congrFun (if_pos (test.mpr bare)) setup) _).trans ?_
    refine (bind_ok (plant_apply _ _ _)).trans ?_
    have appended : (f.plant (Docx.paragraph [])).2.append parent f.nodes.size =
        ((w.grove.setChildren parent (before ++ after)).fill w.session.part parent (before ++ after)
          []).forest := by
      refine @updateChildren_eq (f.plant (Docx.paragraph [])).2 parent (· ++ [f.nodes.size])
        (fun _ => (before ++ after) ++ [f.nodes.size]) ?_
      rw [(grown_plant f _).1.children_eq (Grove.within_setChildren inside).1,now]
    simp only [World.withPlot,World.withGrove,taken,← appended]
    rfl
  · have taken := takeOut_of_held bare q
    simp only [World.withPlot,World.withGrove,taken]
    exact congrFun (congrFun (if_neg fun found => bare (test.mp found)) setup) _

/-- A paragraph is taken out, and a cell without a paragraph gets an empty one. -/
theorem ends_removeParagraph (ready : w.Ready scope.base) (paragraph : w.Paragraph q)
    (may : scope.may q .removed) :
    Ends (Stride setup scope) setup (Fill.removeParagraph q) w fun _ _ => True := by
  rcases removeParagraph_cases ready.home q setup with ⟨_,ran⟩ | ⟨fault,foreign,ran⟩ |
    ⟨parent,before,after,known,split,ran⟩
  · exact Ends.of_still ran
  · exact Ends.of_breakdown foreign ran
  refine Ends.of_work ready.toPlaced ran ?_
  by_cases bare : w.package.forest.Bare parent (before ++ after)
  · exact Plot.work_refill ready.sound.orderly ready.home ready.based may paragraph.kind known split
      bare.1 bare.2 rfl (takeOut_of_bare bare q)
  · have held (cell : w.package.forest.name parent = cellName) :
        ∃ p ∈ before ++ after, w.package.forest.name p = paragraphName := by
      by_contra none
      exact bare ⟨cell,fun p member kind => none ⟨p,member,kind⟩⟩
    have taken : w.plot.takeOut w.session.part q parent before after =
        ⟨w.grove.setChildren parent (before ++ after),_⟩ := congrArg (Plot.mk · _) (takeOut_of_held bare q)
    rw [taken]
    exact Plot.work_remove ready.home may paragraph.kind known split held

end

/-- A row is taken out of its table. -/
theorem ends_dropRow (ready : w.Ready scope.base) {table row : NodeId} (owned : w.Owned table)
    (table_name : w.package.forest.name table = tableName)
    (row_name : w.package.forest.name row = rowName)
    (listed : row ∈ w.package.forest.children table) (indexed : Bool) :
    Ends (Stride setup scope) setup (Table.dropRow table row indexed) w fun _ _ => True := by
  have spare : w.grove.forest.Spare table row := Or.inr ⟨table_name,row_name⟩
  have detached : Ends (Stride setup scope) setup (edit (·.detach table row)) w fun _ _ => True :=
    ends_edit ready.toPlaced _ (Grove.reaches_detach owned spare)
  cases indexed with
  | false => exact detached
  | true =>
    rcases remove_cases w row setup with ⟨_,ran⟩ | ⟨fault,foreign,ran⟩ |
      ⟨parent,before,after,known,split,first,ran⟩
    · unfold Ends at detached ⊢
      simp only [Table.dropRow,if_true,bind_apply,ran]
      exact detached
    · apply Ends.of_breakdown foreign (s := w.session)
      simp only [Table.dropRow,if_true,bind_apply,ran]
    · obtain rfl : parent = table := ready.sound.branching.parent_eq parent table row
        (split ▸ List.mem_append_right _ List.mem_cons_self) listed
      refine Ends.of_work (a := ()) ready.toPlaced ?_
        (Plot.work_drop ready.home known split first spare)
      simp only [Table.dropRow,if_true,bind_apply,ran]
      rfl

end MailMerge
