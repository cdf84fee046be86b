import MailMerge.Proofs.Tree.Paths
import MailMerge.Proofs.Tree.Work

/-! The ways in which a paragraph leaves its place, each as one step of work on the tree: another
element takes the place, which in a cell may need a paragraph after it, or the paragraph is taken out,
and a cell that has no paragraph left gets an empty one.
-/
namespace MailMerge
open Xml Docx Forest Relation

namespace Grove

variable {s : Settings} {part : String} {g : Grove}

theorem setChildren_setChildren (g : Grove) (parent : NodeId) (ids ids' : List NodeId) :
    (g.setChildren parent ids).setChildren parent ids' = g.setChildren parent ids' := by
  simp only [setChildren,withForest,updateChildren,update_update]

theorem size_setChildren (g : Grove) (parent : NodeId) (ids : List NodeId) :
    (g.setChildren parent ids).forest.nodes.size = g.forest.nodes.size := by
  simp [setChildren,withForest,updateChildren]

theorem within_setChildren {parent id : NodeId} {ids : List NodeId} (inside : g.Within part id) :
    (g.setChildren parent ids).Within part id :=
  (later_setChildren g parent ids).within inside

theorem sublist_of_split {q parent : NodeId} {before after : List NodeId}
    (split : g.forest.children parent = before ++ q :: after) :
    (before ++ after).Sublist (g.forest.children parent) := by
  rw [split]
  exact List.Sublist.append_left (List.sublist_cons_self q after) before

/-- An element without a place takes that of another. -/
theorem edits_swap {q parent new : NodeId} {before after : List NodeId}
    (inside : g.Within part parent) (split : g.forest.children parent = before ++ q :: after)
    (within : g.Within part new) (deeper : g.level parent < g.level new)
    (loose : g.forest.Loose new) (last : new + 1 = g.forest.nodes.size) :
    Edits s part g (g.setChildren parent (before ++ new :: after)) := by
  have fewer := sublist_of_split split
  have take : Edit s part g _ := Edit.take inside fewer
  have children := g.children_setChildren inside.1 (before ++ after)
  have loose' : (g.setChildren parent (before ++ after)).forest.Loose new := by
    intro n member
    rw [children n] at member
    split at member
    · exact loose parent (fewer.subset member)
    · exact loose n member
  have put : Edit s part (g.setChildren parent (before ++ after)) _ :=
    Edit.put (within_setChildren inside) ((children parent).trans (if_pos rfl))
      (within_setChildren within) deeper loose' (last.trans (size_setChildren g parent _).symm)
  rw [setChildren_setChildren] at put
  exact (ReflTransGen.single take).tail put

/-- An empty paragraph is planted and put among the children of an element. -/
def fill (g : Grove) (part : String) (parent : NodeId) (before after : List NodeId) : Grove :=
  (g.plant part (paragraph [])).setChildren parent (before ++ g.forest.nodes.size :: after)

section
variable {parent : NodeId} (inside : g.Within part parent) (before after : List NodeId)
include inside

theorem edits_fill (orderly : g.Orderly) (split : g.forest.children parent = before ++ after) :
    Edits s part g (g.fill part parent before after) :=
  edits_put orderly inside Built.emptyParagraph split

theorem children_fill : (g.fill part parent before after).forest.children parent =
    before ++ g.forest.nodes.size :: after :=
  (children_setChildren _ ((later_plant g part _).within inside).1 _ parent).trans (if_pos rfl)

theorem children_fill_of_ne {n : NodeId} (old : n < g.forest.nodes.size) (other : n ≠ parent) :
    (g.fill part parent before after).forest.children n = g.forest.children n :=
  ((children_setChildren _ ((later_plant g part _).within inside).1 _ n).trans (if_neg other)).trans
    ((grown_plant g.forest _).1.children_eq old)

omit inside in
theorem name_fill : (g.fill part parent before after).forest.name g.forest.nodes.size =
    paragraphName :=
  (congrFun (name_setChildren _ parent _) _).trans (copies_plant g.forest (paragraph [])).1

end

end Grove

namespace Plot

/-- An element of a part that waits for a place in the tree: it has none, it is deeper than all that
the index knows as parents, all below it is new, and nothing was planted after it. -/
structure Novel (v : Plot) (part : String) (base : Nat) (id : NodeId) : Prop where
  within : v.grove.Within part id
  later : base ≤ id
  loose : v.forest.Loose id
  deeper : ∀ q n, v.index.parent? q = some n → v.grove.level n < v.grove.level id
  fresh : ∀ n, v.forest.Below id n → ∀ child ∈ v.forest.children n, base ≤ child
  last : id + 1 = v.forest.nodes.size

/-- An element is entered in the place of another. -/
def place (v : Plot) (q parent new : NodeId) (before after : List NodeId) : Plot where
  grove := v.grove.setChildren parent (before ++ new :: after)
  index := (v.index.leave q).enter (v.grove.setChildren parent (before ++ new :: after)).forest
    parent new

/-- An empty paragraph is planted and entered among the children of an element. -/
def follow (v : Plot) (part : String) (parent : NodeId) (before after : List NodeId) : Plot where
  grove := v.grove.fill part parent before after
  index := v.index.enter (v.grove.fill part parent before after).forest parent v.forest.nodes.size

variable {s : Settings} {part : String} {scope : Scope} {base : Nat} {g : Grove} {ix : Index}

/-- What has just been planted waits for a place. -/
theorem novel_plant (orderly : g.Orderly) (home : ix.Within g part)
    (based : base ≤ g.forest.nodes.size) (e : Element) :
    Novel ⟨g.plant part e,ix⟩ part base (g.forest.plant e).1 := by
  obtain ⟨grown,new,last⟩ := grown_plant g.forest e
  obtain ⟨within,deeper⟩ := Grove.within_plant g part e
  refine ⟨within,Nat.le_trans based new,(branching_plant orderly.branching e).2,?_,?_,last⟩
  · intro q n known
    exact deeper n (home.parent? known).1 orderly.sorted
  · intro n path
    have large : g.forest.nodes.size ≤ n := by
      induction path with
      | refl => exact new
      | tail _ here ih => exact (grown.children_new _ _ ih here).1
    intro child member
    exact Nat.le_trans based (grown.children_new n child large member).1

/-- What is below an element stays there while the children of a higher one are changed. -/
theorem below_setChildren (sorted : g.Sorted) {parent new n : NodeId} {ids : List NodeId}
    (inside : g.Within part parent) (higher : g.level parent < g.level new)
    (path : (g.setChildren parent ids).forest.Below new n) :
    g.forest.Below new n ∧ n ≠ parent := by
  have children := g.children_setChildren inside.1 ids
  have apart {m : NodeId} (path' : g.forest.Below new m) : m ≠ parent := by
    rintro rfl
    exact absurd (sorted.le_of_below path') (Nat.not_le.mpr higher)
  induction path with
  | refl => exact ⟨ReflTransGen.refl,apart ReflTransGen.refl⟩
  | @tail m n _ here ih =>
    rw [Child,children m,if_neg ih.2] at here
    have path := ih.1.tail here
    exact ⟨path,apart path⟩

/-- Entering an element that waited for a place changes nothing that was known of others. -/
theorem Novel.apart {new parent x : NodeId} {ids : List NodeId} {ix' : Index}
    {ix₀ : Index} (novel : Novel ⟨g,ix₀⟩ part base new) (sorted : g.Sorted)
    (sorted' : (g.setChildren parent ids).Sorted) (inside : g.Within part parent)
    (higher : g.level parent < g.level new) (apart : ix'.Apart ix base x) :
    (ix'.enter (g.setChildren parent ids).forest parent new).Apart ix base x := by
  refine (Index.apart_enter novel.later ?_).trans apart
  intro n member child here
  obtain ⟨path,other⟩ := below_setChildren sorted inside higher ((mem_tree_iff sorted').mp member)
  rw [g.children_setChildren inside.1,if_neg other] at here
  exact novel.fresh n path child here

section
variable {fate : Fate} {q parent new : NodeId} {before after : List NodeId}

/-- The place of a paragraph is given to a new element. -/
theorem work_place (orderly : g.Orderly) (home : ix.Within g part) (may : scope.may q fate)
    (kind : g.forest.name q = paragraphName) (known : ix.parent? q = some parent)
    (split : g.forest.children parent = before ++ q :: after)
    (novel : Novel ⟨g,ix⟩ part scope.base new)
    (left : fate.Leaves g.forest.name scope.base parent before after (before ++ new :: after)) :
    Work s part scope ⟨g,ix⟩ (place ⟨g,ix⟩ q parent new before after) := by
  have inside := home.parent? known
  have higher := novel.deeper q parent known
  have edits : Grove.Edits s part g _ :=
    Grove.edits_swap inside split novel.within higher novel.loose novel.last
  have orderly' := orderly.edits edits
  have later := edits.later
  have now := g.children_setChildren inside.1 (before ++ new :: after)
  have left' : fate.Leaves (g.setChildren parent (before ++ new :: after)).forest.name scope.base
      parent before after ((g.setChildren parent (before ++ new :: after)).forest.children parent) := by
    rw [now parent,if_pos rfl,g.name_setChildren]
    exact left
  refine ⟨edits,fun _ => ?_,?_⟩
  · exact ((home.later later).leave q).enter orderly'.sorted (later.within inside)
      (later.within novel.within)
  · refine stir_of_size_eq later (g.size_setChildren parent _) (.met may inside kind split left' ?_ ?_)
    · exact fun n _ other => (now n).trans (if_neg other)
    · exact novel.apart orderly.sorted orderly'.sorted inside higher
        (Index.apart_leave ix scope.base q)

/-- The place of a paragraph in a cell is given to a table, and an empty paragraph is put after it. -/
theorem work_tableInCell (orderly : g.Orderly) (home : ix.Within g part)
    (based : scope.base ≤ g.forest.nodes.size) (may : scope.may q .becameTable)
    (kind : g.forest.name q = paragraphName) (known : ix.parent? q = some parent)
    (split : g.forest.children parent = before ++ q :: after)
    (novel : Novel ⟨g,ix⟩ part scope.base new) (table : g.forest.name new = tableName)
    (cell : g.forest.name parent = cellName) {k h : Grove}
    (placed : k = g.setChildren parent (before ++ new :: after))
    (filled : h = k.fill part parent (before ++ [new]) after) :
    Work s part scope ⟨g,ix⟩ ⟨h,((ix.leave q).enter k.forest parent new).enter h.forest parent
      k.forest.nodes.size⟩ := by
  have inside := home.parent? known
  have higher := novel.deeper q parent known
  have swap : Grove.Edits s part g k :=
    placed ▸ Grove.edits_swap inside split novel.within higher novel.loose novel.last
  have orderly_k := orderly.edits swap
  have inside_k := swap.later.within inside
  have size_eq : k.forest.nodes.size = g.forest.nodes.size := placed ▸ g.size_setChildren parent _
  have now (n : NodeId) : k.forest.children n =
      if n = parent then before ++ new :: after else g.forest.children n :=
    placed ▸ g.children_setChildren inside.1 _ n
  have home_k := ((home.later swap.later).leave q).enter orderly_k.sorted inside_k
    (swap.later.within novel.within)
  have apart_k : ((ix.leave q).enter k.forest parent new).Apart ix scope.base q := by
    subst placed
    exact novel.apart orderly.sorted orderly_k.sorted inside higher
      (Index.apart_leave ix scope.base q)
  -- the empty paragraph goes between the table and what comes after it
  have split_k : k.forest.children parent = (before ++ [new]) ++ after := by
    rw [now,if_pos rfl,List.append_assoc,List.singleton_append]
  have fill : Grove.Edits s part k h :=
    filled ▸ Grove.edits_fill inside_k (before ++ [new]) after orderly_k split_k
  have orderly_h := orderly_k.edits fill
  have empty := novel_plant orderly_k home_k (size_eq ▸ based) (paragraph [])
  have later_k := Grove.later_plant k part (paragraph [])
  have kept {n : NodeId} (within : g.Within part n) : h.forest.name n = g.forest.name n :=
    (fill.later.name_eq n (swap.later.within within).1).trans (swap.later.name_eq n within.1)
  refine ⟨swap.trans fill,fun _ => ?_,?_⟩
  · refine (home_k.later fill.later).enter orderly_h.sorted (fill.later.within inside_k) ?_
    exact filled ▸ Grove.within_setChildren empty.within
  · have left : Fate.Leaves h.forest.name scope.base parent before after .becameTable
        (h.forest.children parent) := by
      rw [filled,Grove.children_fill inside_k,List.append_assoc,List.singleton_append,← filled]
      exact .tableInCell novel.later ((kept novel.within).trans table) empty.later
        (filled ▸ Grove.name_fill (before ++ [new]) after) ((kept inside).trans cell)
    subst filled
    refine stir_put swap.later size_eq inside_k (by simp) (fun _ => lacks_table_emptyParagraph)
      (.met may inside kind split left ?_ ?_)
    · intro n inside_n other
      refine (Grove.children_fill_of_ne inside_k _ _ (size_eq ▸ inside_n.1) other).trans ?_
      exact (now n).trans (if_neg other)
    · exact empty.apart (orderly_k.plant part _).sorted orderly_h.sorted (later_k.within inside_k)
        ((Grove.within_plant k part _).2 parent inside_k.1 orderly_k.sorted) apart_k

/-- A paragraph is taken out where another one stays, or where none is needed. -/
theorem work_remove (home : ix.Within g part) (may : scope.may q .removed)
    (kind : g.forest.name q = paragraphName) (known : ix.parent? q = some parent)
    (split : g.forest.children parent = before ++ q :: after)
    (held : g.forest.name parent = cellName → ∃ p ∈ before ++ after,
      g.forest.name p = paragraphName) :
    Work s part scope ⟨g,ix⟩ ⟨g.setChildren parent (before ++ after),
      ({ ix with parents := ix.parents.filter (·.1 != q) } : Index).leave q⟩ := by
  have inside := home.parent? known
  have take : Grove.Edit s part g _ := Grove.Edit.take inside (Grove.sublist_of_split split)
  have later := take.later
  have now := g.children_setChildren inside.1 (before ++ after)
  refine ⟨ReflTransGen.single take,fun _ => ((home.later later).forget q).leave q,?_⟩
  refine stir_of_size_eq later (g.size_setChildren parent _) (.met may inside kind split ?_ ?_ ?_)
  · rw [forest,now parent,if_pos rfl,g.name_setChildren]
    exact .removed held
  · exact fun n _ other => (now n).trans (if_neg other)
  · exact (Index.apart_leave _ scope.base q).trans (Index.apart_forget ix scope.base q)

/-- A row that the index knows is taken out of its table. -/
theorem work_drop {parent child : NodeId} {before after : List NodeId} (home : ix.Within g part)
    (known : ix.parent? child = some parent)
    (split : g.forest.children parent = before ++ child :: after) (first : child ∉ before)
    (spare : g.forest.Spare parent child) :
    Work s part scope ⟨g,ix⟩ ⟨g.setChildren parent (before ++ after),
      ({ ix with parents := ix.parents.filter (·.1 != child) } : Index).leave child⟩ := by
  have inside := home.parent? known
  have take : Grove.Edit s part g _ := Grove.Edit.take inside (Grove.sublist_of_split split)
  have later := take.later
  have now := g.children_setChildren inside.1 (before ++ after)
  have erased : (g.forest.children parent).erase child = before ++ after := by
    rw [split,List.erase_append_right _ first,List.erase_cons_head]
  refine ⟨ReflTransGen.single take,fun _ => ((home.later later).forget child).leave child,?_⟩
  refine stir_of_size_eq later (g.size_setChildren parent _) (.taken inside spare ?_ ?_ ?_
    (Or.inl (split ▸ List.mem_append_right _ List.mem_cons_self)))
  · exact ((now parent).trans (if_pos rfl)).trans erased.symm
  · exact fun n _ other => (now n).trans (if_neg other)
  · exact (Index.apart_leave _ scope.base child).trans (Index.apart_forget ix scope.base child)

/-- The last paragraph of a cell is taken out, and the cell gets an empty one at its end. -/
theorem work_refill (orderly : g.Orderly) (home : ix.Within g part)
    (based : scope.base ≤ g.forest.nodes.size) (may : scope.may q .removed)
    (kind : g.forest.name q = paragraphName) (known : ix.parent? q = some parent)
    (split : g.forest.children parent = before ++ q :: after)
    (cell : g.forest.name parent = cellName)
    (none : ∀ p ∈ before ++ after, g.forest.name p ≠ paragraphName) {k h : Grove}
    (taken : k = g.setChildren parent (before ++ after))
    (filled : h = k.fill part parent (before ++ after) []) :
    Work s part scope ⟨g,ix⟩
      ⟨h,({ ix with parents := ix.parents.filter (·.1 != q) } : Index).leave q⟩ := by
  have inside := home.parent? known
  have fewer := Grove.sublist_of_split split
  have take : Grove.Edit s part g k := taken ▸ Grove.Edit.take inside fewer
  have inside_k := take.later.within inside
  have size_eq : k.forest.nodes.size = g.forest.nodes.size := taken ▸ g.size_setChildren parent _
  have now (n : NodeId) : k.forest.children n =
      if n = parent then before ++ after else g.forest.children n :=
    taken ▸ g.children_setChildren inside.1 _ n
  have split_k : k.forest.children parent = (before ++ after) ++ [] := by
    rw [now,if_pos rfl,List.append_nil]
  have fill : Grove.Edits s part k h := filled ▸ Grove.edits_fill inside_k (before ++ after) []
    (orderly.edits (ReflTransGen.single take)) split_k
  have kept {n : NodeId} (old : n < g.forest.nodes.size) : h.forest.name n = g.forest.name n :=
    (fill.later.name_eq n (size_eq ▸ old)).trans (take.later.name_eq n old)
  refine ⟨fill.head take,fun _ => (((home.later take.later).later fill.later).forget q).leave q,?_⟩
  have left : Fate.Leaves h.forest.name scope.base parent before after .removed
      (h.forest.children parent) := by
    rw [filled,Grove.children_fill inside_k,← filled]
    refine .refilled (size_eq ▸ based) (filled ▸ Grove.name_fill (before ++ after) [])
      ((kept inside.1).trans cell) ?_
    intro p member
    rw [kept (orderly.sorted.within_child inside (fewer.subset member)).1]
    exact none p member
  subst filled
  refine stir_put take.later size_eq inside_k (by simp) (fun _ => lacks_table_emptyParagraph)
    (.met may inside kind split left ?_ ?_)
  · intro n inside_n other
    exact (Grove.children_fill_of_ne inside_k _ _ (size_eq ▸ inside_n.1) other).trans
      ((now n).trans (if_neg other))
  · exact (Index.apart_leave _ scope.base q).trans (Index.apart_forget ix scope.base q)

end

end Plot
end MailMerge
