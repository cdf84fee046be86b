import MailMerge.Proofs.Generation.Coverage
import MailMerge.Proofs.Generation.Noted
import MailMerge.Proofs.Tree.Written

/-! What the ending of a paragraph tells. Each ending names the one change that was made: the text below the
paragraph, or the place among the children of its parent. All else in the tree is as it was, and unless
a chart or an image was put in, so are the parts and manifests of the package and the counters, even when
a directive failed on the way.
-/
namespace MailMerge
open Xml Docx Package Forest Relation Generation

namespace Forest

/-- An element has other children, without a certain one, and others are as they were. -/
structure Rearranged (f g : Forest) (p parent : NodeId) (kept : NodeId → Prop)
    (ids : List NodeId) : Prop where
  gone : p ∉ ids
  parent_eq : g.node parent = { f.node parent with children := ids }
  node_eq : ∀ n, kept n → n ≠ parent → g.node n = f.node n

/-- In the place of one child there are others. -/
def Exchanged (f g : Forest) (p parent : NodeId) (kept : NodeId → Prop) (now : List NodeId) : Prop :=
  ∃ before after, f.children parent = before ++ p :: after ∧
    Rearranged f g p parent kept (before ++ now ++ after)

/-- What is added when there is a reason for a filler: a new paragraph without contents. -/
structure Filler (f g : Forest) (reason : Prop) (added : List NodeId) : Prop where
  empty : reason → ∃ id : Nat, added = [id] ∧ f.nodes.size ≤ id ∧ g.element id = paragraph []
  none : ¬ reason → added = []

variable {f g h : Forest} {p parent : NodeId} {kept kept' : NodeId → Prop} {ids now : List NodeId}

/-- What is rearranged in a forest is so in comparison with an earlier one, as far as nothing changed in
between. -/
theorem Rearranged.since (rearranged : Rearranged g h p parent kept ids)
    (parent_eq : g.node parent = f.node parent)
    (same : ∀ n, kept' n → kept n ∧ g.node n = f.node n) : Rearranged f h p parent kept' ids where
  gone := rearranged.gone
  parent_eq := parent_eq ▸ rearranged.parent_eq
  node_eq n held other := (rearranged.node_eq n (same n held).1 other).trans (same n held).2

theorem Exchanged.since (exchanged : Exchanged g h p parent kept now)
    (parent_eq : g.node parent = f.node parent)
    (same : ∀ n, kept' n → kept n ∧ g.node n = f.node n) : Exchanged f h p parent kept' now := by
  obtain ⟨before,after,split,rearranged⟩ := exchanged
  have split' : f.children parent = before ++ p :: after := by rw [← split,children,children,parent_eq]
  exact ⟨before,after,split',rearranged.since parent_eq same⟩

theorem Filler.since {reason reason' : Prop} {added : List NodeId} (filler : Filler g h reason added)
    (size_le : f.nodes.size ≤ g.nodes.size) (same : reason' ↔ reason) : Filler f h reason' added where
  empty holds := by
    obtain ⟨id,added_eq,later,contents⟩ := filler.empty (same.mp holds)
    exact ⟨id,added_eq,Nat.le_trans size_le later,contents⟩
  none absent := filler.none fun holds => absent (same.mpr holds)

theorem Exchanged.name_eq (exchanged : Exchanged f g p parent kept now) {n : NodeId} (held : kept n) :
    g.name n = f.name n := by
  obtain ⟨before,after,-,rearranged⟩ := exchanged
  by_cases here : n = parent
  · rw [here,Forest.name,rearranged.parent_eq]
    rfl
  · rw [Forest.name,rearranged.node_eq n held here]
    rfl

/-- An element that left its place is among neither those before nor those after it. -/
theorem Branching.notMem_of_split (branching : f.Branching) {before after : List NodeId}
    (split : f.children parent = before ++ p :: after) : p ∉ before ++ after := by
  have once := branching.nodup parent
  rw [split] at once
  exact (List.nodup_middle.mp once |> List.nodup_cons.mp).1

end Forest

/-- What an ending tells of the state after a paragraph below a parent, where `own` are the elements of the
part at work. -/
def Session.Tells (s : Session) (own : NodeId → Prop) (p parent : NodeId) (e : Fill.Ending)
    (s' : Session) : Prop :=
  let f := s.package.forest
  let g := s'.package.forest
  match e with
  | .unchanged => s.Keeps s' ∧ g = f
  | .rewritten => s.Keeps s' ∧ Retexted f g fun n => f.Below p n ∧ f.name n = textName
  | .deleted => s.Keeps s' ∧ ∃ before after added, f.children parent = before ++ p :: after ∧
      Filler f g (f.Bare parent (before ++ after)) added ∧
        Rearranged f g p parent (· < f.nodes.size) (before ++ after ++ added)
  | .becameTable => s.Keeps s' ∧ ∃ table added, f.nodes.size ≤ table ∧ g.name table = tableName ∧
      Filler f g (f.name parent = cellName) added ∧
        Exchanged f g p parent (fun n => n < f.nodes.size ∧ ¬ f.Below p n) (table :: added)
  | .becameChart | .becameImage => ∃ drawing, f.nodes.size ≤ drawing ∧
      g.name drawing = paragraphName ∧
        Exchanged f g p parent (fun n => own n ∧ ¬ f.Below p n) [drawing]

variable {setup : Setup} {scope : Scope} {w : World} {s s' s₁ : Session} {own : NodeId → Prop}
  {p parent new : NodeId} {base : Nat} {kept : NodeId → Prop} {ids before after : List NodeId}

namespace Grove

variable {g : Grove}

theorem node_setChildren (inside : parent < g.forest.nodes.size) (ids : List NodeId) (n : NodeId) :
    (g.setChildren parent ids).forest.node n =
      if n = parent then { g.forest.node parent with children := ids } else g.forest.node n := by
  simp only [setChildren,withForest,updateChildren,node_update]
  by_cases here : n = parent
  · subst here
    rw [if_pos ⟨rfl,inside⟩,if_pos rfl]
  · rw [if_neg fun both => here both.1,if_neg here]

/-- An element that is given other children. -/
theorem rearranged_setChildren (inside : parent < g.forest.nodes.size) (gone : p ∉ ids)
    (kept : NodeId → Prop) : Rearranged g.forest (g.setChildren parent ids).forest p parent kept ids where
  gone := gone
  parent_eq := by rw [node_setChildren inside,if_pos rfl]
  node_eq n _ other := by rw [node_setChildren inside,if_neg other]

section
variable {part : String} {f : Forest} (inside : parent < g.forest.nodes.size)
include inside

/-- An empty paragraph is entered among the children that an element was given. -/
theorem rearranged_fill (part : String)
    (rearranged : Rearranged f g.forest p parent kept (before ++ after))
    (old : ∀ n, kept n → n < g.forest.nodes.size) (other : p ≠ g.forest.nodes.size) :
    Rearranged f (g.fill part parent before after).forest p parent kept
      (before ++ g.forest.nodes.size :: after) := by
  have grown : Grown g.forest (g.plant part (paragraph [])).forest := (grown_plant g.forest _).1
  have node (n : NodeId) := node_setChildren (Nat.lt_of_lt_of_le inside grown.size_le)
    (before ++ g.forest.nodes.size :: after) n
  have gone := rearranged.gone
  rw [List.mem_append,not_or] at gone
  refine ⟨by simpa using ⟨gone.1,other,gone.2⟩,?_,fun n held different => ?_⟩
  · refine (node parent).trans ((if_pos rfl).trans ?_)
    rw [grown.node_eq parent inside,rearranged.parent_eq]
  · refine (node n).trans ((if_neg different).trans ?_)
    exact (grown.node_eq n (old n held)).trans (rearranged.node_eq n held different)

/-- The paragraph that was entered is a filler. -/
theorem filler_fill {owner : NodeId → String} {level : NodeId → Nat}
    (sorted : (g.fill part parent before after).forest.Sorted owner level)
    (size_le : f.nodes.size ≤ g.forest.nodes.size) {reason : Prop} (holds : reason) :
    Filler f (g.fill part parent before after).forest reason [g.forest.nodes.size] := by
  refine ⟨fun _ => ⟨_,rfl,size_le,?_⟩,fun absent => absurd holds absent⟩
  refine element_plant sorted g.forest (paragraph []) fun id later _ => ?_
  have grown : Grown g.forest (g.plant part (paragraph [])).forest := (grown_plant g.forest _).1
  have other : id ≠ parent := fun same => Nat.not_le.mpr inside (same ▸ later)
  exact (node_setChildren (Nat.lt_of_lt_of_le inside grown.size_le) _ id).trans (if_neg other)

end
end Grove

/-- A change of the tree at work keeps everything else. -/
theorem keeps_withPlot (w : World) (v : Plot) : w.session.Keeps (w.withPlot v).session :=
  ⟨rfl,rfl,rfl,rfl,rfl⟩

/-- A new element was planted in a session. -/
structure Session.Plants (s : Session) (e : Element) (id : NodeId) (s' : Session) : Prop where
  keeps : s.Keeps s'
  index_eq : s'.index = s.index
  grown : Grown s.package.forest s'.package.forest
  later : s.package.forest.nodes.size ≤ id
  name_eq : s'.package.forest.name id = e.name

theorem Generation.plants_of_ok {e : Element} {id : NodeId} (planted : plant e setup s = .ok id s') :
    s.Plants e id s' := by
  obtain ⟨rfl,rfl⟩ := EStateM.Result.ok.inj ((plant_apply e setup s).symm.trans planted)
  obtain ⟨grown,later,-⟩ := grown_plant s.package.forest e
  exact ⟨⟨rfl,rfl,rfl,rfl,rfl⟩,rfl,grown,later,(copies_plant s.package.forest e).1⟩

/-- What is exchanged after an element was planted is exchanged in comparison with the state before. -/
theorem Session.Plants.exchanged {e : Element} {id : NodeId} (plants : s.Plants e id s')
    (inside : parent < s.package.forest.nodes.size) {g : Forest} {now : List NodeId}
    (exchanged : Exchanged s'.package.forest g p parent (· < s'.package.forest.nodes.size) now)
    (kept : NodeId → Prop) (old : ∀ n, kept n → n < s.package.forest.nodes.size) :
    Exchanged s.package.forest g p parent kept now :=
  exchanged.since (plants.grown.node_eq parent inside) fun n held =>
    ⟨Nat.lt_of_lt_of_le (old n held) plants.grown.size_le,plants.grown.node_eq n (old n held)⟩

namespace Fill

/-- A new element stands in the place of the paragraph. -/
private theorem rearranged_place (ready : w.Ready base)
    (known : w.session.index.parent? p = some parent)
    (split : w.package.forest.children parent = before ++ p :: after)
    (loose : w.package.forest.Loose new) :
    Rearranged w.package.forest (w.grove.setChildren parent (before ++ new :: after)).forest p parent
      (· < w.package.forest.nodes.size) (before ++ new :: after) := by
  have gone := ready.sound.branching.notMem_of_split split
  have other : p ≠ new := by
    rintro rfl
    exact loose parent (split ▸ List.mem_append_right before List.mem_cons_self)
  refine Grove.rearranged_setChildren (g := w.grove) (ready.home.parent? known).1 ?_ _
  rw [List.mem_append,not_or] at gone
  simpa using ⟨gone.1,other,gone.2⟩

theorem exchanged_replace (ready : w.Ready base) (known : w.session.index.parent? p = some parent)
    (loose : w.package.forest.Loose new) {b : Bool}
    (ran : replace p new setup w.session = .ok b s') : w.session.Keeps s' ∧
      Exchanged w.package.forest s'.package.forest p parent (· < w.package.forest.nodes.size) [new] := by
  rcases replace_cases w p new setup with ⟨unknown,-⟩ | ⟨fault,-,failed⟩ |
    ⟨parent',before,after,known',split,ran'⟩
  · exact nomatch known.symm.trans unknown
  · exact nomatch ran.symm.trans failed
  obtain rfl : parent' = parent := Option.some.inj (known'.symm.trans known)
  obtain rfl := (EStateM.Result.ok.inj (ran.symm.trans ran')).2
  refine ⟨keeps_withPlot w _,before,after,split,?_⟩
  rw [List.append_assoc]
  exact rearranged_place ready known split loose

section
variable (ready : w.Ready base) (paragraph : w.Paragraph p)
  (known : w.session.index.parent? p = some parent)
include ready paragraph known

/-- Where a paragraph is taken out, it is deleted. -/
theorem tells_removeParagraph (ran : removeParagraph p setup w.session = .ok () s') :
    w.session.Tells own p parent .deleted s' := by
  have ends : Ends (Stride setup Scope.all) setup (removeParagraph p) w fun _ _ => True :=
    ends_removeParagraph (ready.fewer (Nat.zero_le base)) paragraph trivial
  obtain ⟨w',session_eq,moves,-⟩ := ends.coarse.of_ok ran
  rcases removeParagraph_cases ready.home p setup with ⟨unknown,-⟩ | ⟨fault,-,failed⟩ |
    ⟨parent',before,after,known',split,ran'⟩
  · exact nomatch known.symm.trans unknown
  · exact nomatch ran.symm.trans failed
  obtain rfl : parent' = parent := Option.some.inj (known'.symm.trans known)
  obtain rfl := (EStateM.Result.ok.inj (ran.symm.trans ran')).2
  have inside : parent' < w.grove.forest.nodes.size := (ready.home.parent? known).1
  let h := w.grove.setChildren parent' (before ++ after)
  have size_eq : h.forest.nodes.size = w.package.forest.nodes.size := w.grove.size_setChildren parent' _
  have taken : Rearranged w.package.forest h.forest p parent' (· < w.package.forest.nodes.size)
      (before ++ after) :=
    Grove.rearranged_setChildren inside (ready.sound.branching.notMem_of_split split) _
  refine ⟨keeps_withPlot w _,before,after,?_⟩
  have sorted := (ready.moves moves).sound.sorted
  rw [World.grove,World.package,session_eq] at sorted
  have forest_eq : (w.withPlot (w.plot.takeOut w.session.part p parent' before after)).session.package.forest =
      (w.plot.takeOut w.session.part p parent' before after).grove.forest := rfl
  rw [forest_eq] at sorted ⊢
  by_cases bare : w.package.forest.Bare parent' (before ++ after)
  · rw [takeOut_of_bare bare] at sorted ⊢
    refine ⟨[h.forest.nodes.size],split,Grove.filler_fill (size_eq ▸ inside) sorted
      (Nat.le_of_eq size_eq.symm) bare,?_⟩
    refine Grove.rearranged_fill (size_eq ▸ inside) _ ?_ (fun n old => size_eq.symm ▸ old)
      (Nat.ne_of_lt (size_eq.symm ▸ paragraph.owned.1))
    rw [List.append_nil]
    exact taken
  · rw [takeOut_of_held bare]
    refine ⟨[],split,⟨fun reason => absurd reason bare,fun _ => rfl⟩,?_⟩
    rw [List.append_nil]
    exact taken

theorem exchanged_putTable (novel : Plot.Novel w.plot w.session.part 0 new)
    (kind : w.package.forest.name new = tableName)
    (ran : putTable p new setup w.session = .ok () s') : w.session.Keeps s' ∧ ∃ added,
      Filler w.package.forest s'.package.forest (w.package.forest.name parent = cellName) added ∧
        Exchanged w.package.forest s'.package.forest p parent (· < w.package.forest.nodes.size)
          (new :: added) := by
  have ready₀ : w.Ready 0 := ready.fewer (Nat.zero_le base)
  have ends : Ends (Stride setup Scope.all) setup (putTable p new) w fun _ _ => True :=
    ends_putTable ready₀ paragraph trivial novel kind
  obtain ⟨w',session_eq,moves,-⟩ := ends.coarse.of_ok ran
  rcases putTable_cases ready₀ novel p setup with ⟨unknown,-⟩ | ⟨fault,-,failed⟩ |
    ⟨parent',before,after,known',split,ran'⟩
  · exact nomatch known.symm.trans unknown
  · exact nomatch ran.symm.trans failed
  obtain rfl : parent' = parent := Option.some.inj (known'.symm.trans known)
  obtain rfl := (EStateM.Result.ok.inj (ran.symm.trans ran')).2
  have inside : parent' < w.grove.forest.nodes.size := (ready.home.parent? known).1
  let h := w.grove.setChildren parent' (before ++ new :: after)
  have size_eq : h.forest.nodes.size = w.package.forest.nodes.size := w.grove.size_setChildren parent' _
  have placed : Rearranged w.package.forest h.forest p parent' (· < w.package.forest.nodes.size)
      (before ++ new :: after) := rearranged_place ready known split novel.loose
  refine ⟨keeps_withPlot w _,?_⟩
  have sorted := (ready.moves moves).sound.sorted
  rw [World.grove,World.package,session_eq] at sorted
  have forest_eq : (w.withPlot (w.plot.putTable w.session.part p parent' new before
      after)).session.package.forest =
        (w.plot.putTable w.session.part p parent' new before after).grove.forest := rfl
  rw [forest_eq] at sorted ⊢
  by_cases cell : w.package.forest.name parent' = cellName
  · rw [putTable_of_cell cell] at sorted ⊢
    refine ⟨[h.forest.nodes.size],Grove.filler_fill (g := h) (size_eq ▸ inside) sorted
      (Nat.le_of_eq size_eq.symm) cell,before,after,split,?_⟩
    have filled := Grove.rearranged_fill (g := h) (size_eq ▸ inside) w.session.part
      (List.append_cons before new after ▸ placed) (fun n old => size_eq.symm ▸ old)
        (Nat.ne_of_lt (size_eq.symm ▸ paragraph.owned.1))
    rw [List.append_assoc before]
    rw [List.append_assoc before] at filled
    exact filled
  · rw [putTable_of_other cell]
    refine ⟨[],⟨fun reason => absurd reason cell,fun _ => rfl⟩,before,after,split,?_⟩
    rw [List.append_assoc]
    exact placed

end

/-- An ending that a rule brings about. -/
def Ending.Ruled (e : Ending) : Prop :=
  e ≠ .unchanged ∧ e ≠ .deleted

/-- What an ending tells in comparison with a state after which only texts of the paragraph were written, it
tells in comparison with the state before. -/
theorem tells_since {e : Ending} (keeps : s.Keeps s₁)
    (retexted : Retexted s.package.forest s₁.package.forest fun n =>
      s.package.forest.Below p n ∧ s.package.forest.name n = textName)
    (parent_eq : p ∈ s.package.forest.children parent →
      s₁.package.forest.node parent = s.package.forest.node parent) (ruled : e.Ruled)
    (tells : s₁.Tells own p parent e s') : s.Tells own p parent e s' := by
  have below := retexted.below_eq
  have listed {kept : NodeId → Prop} {now : List NodeId} (exchanged : Exchanged s₁.package.forest
      s'.package.forest p parent kept now) : p ∈ s.package.forest.children parent := by
    obtain ⟨before,after,split,-⟩ := exchanged
    rw [← retexted.children_eq,split]
    exact List.mem_append_right before List.mem_cons_self
  have same (n : NodeId) (aside : ¬ s.package.forest.Below p n) :
      ¬ s₁.package.forest.Below p n ∧ s₁.package.forest.node n = s.package.forest.node n :=
    ⟨below ▸ aside,retexted.node_eq n fun here => aside here.1⟩
  cases e with
  | unchanged => exact absurd rfl ruled.1
  | deleted => exact absurd rfl ruled.2
  | rewritten =>
    obtain ⟨keeps',retexted'⟩ := tells
    refine ⟨keeps.trans keeps',retexted.trans (retexted'.mono fun n here => ?_)⟩
    rwa [below,retexted.name_eq] at here
  | becameTable =>
    obtain ⟨keeps',table,added,later,kind,filler,exchanged⟩ := tells
    rw [retexted.size_eq] at later exchanged
    refine ⟨keeps.trans keeps',table,added,later,kind,?_,
      exchanged.since (parent_eq (listed exchanged)) fun n old =>
        ⟨⟨old.1,(same n old.2).1⟩,(same n old.2).2⟩⟩
    exact filler.since (Nat.le_of_eq retexted.size_eq.symm) (by rw [retexted.name_eq])
  | becameChart | becameImage =>
    obtain ⟨drawing,later,kind,exchanged⟩ := tells
    rw [retexted.size_eq] at later
    exact ⟨drawing,later,kind,exchanged.since (parent_eq (listed exchanged)) fun n old =>
      ⟨⟨old.1,(same n old.2).1⟩,(same n old.2).2⟩⟩

/-- Notes that were taken before change nothing of what an ending tells. -/
theorem tells_of_notes {e : Ending} (notes : s.Notes s₁) (tells : s₁.Tells own p parent e s') :
    s.Tells own p parent e s' := by
  unfold Session.Tells at tells ⊢
  rw [notes.forest_eq] at tells
  cases e with
  | becameChart | becameImage => exact tells
  | unchanged | deleted | rewritten | becameTable => exact ⟨notes.toKeeps.trans tells.1,tells.2⟩

/-- Notes that are taken afterwards change nothing of what an ending tells. -/
theorem tells_noted {e : Ending} (tells : s.Tells own p parent e s₁) (notes : s₁.Notes s') :
    s.Tells own p parent e s' := by
  unfold Session.Tells at tells ⊢
  rw [notes.forest_eq]
  cases e with
  | becameChart | becameImage => exact tells
  | unchanged | deleted | rewritten | becameTable => exact ⟨tells.1.trans notes.toKeeps,tells.2⟩

/-- How a rule leaves the state: it took notes, or it brought about an ending. -/
inductive Stepped (s : Session) (own : NodeId → Prop) (p parent : NodeId) : Step → Session → Prop
  | next {s' : Session} (notes : s.Notes s') : Stepped s own p parent .next s'
  | halt {s' : Session} (notes : s.Notes s') : Stepped s own p parent .halt s'
  | ended {e : Ending} {s' : Session} (ruled : e.Ruled) (tells : s.Tells own p parent e s') :
    Stepped s own p parent (.ended e) s'

namespace Stepped

variable {step : Step}

/-- Notes that were taken before. -/
theorem of_notes (stepped : Stepped s₁ own p parent step s') (notes : s.Notes s₁) :
    Stepped s own p parent step s' := by
  cases stepped with
  | next later => exact .next (notes.trans later)
  | halt later => exact .halt (notes.trans later)
  | ended ruled tells => exact .ended ruled (tells_of_notes notes tells)

end Stepped

/-- A paragraph is at work: it has a place, and its text elements are those that it had at the beginning. -/
structure Task (own : NodeId → Prop) (w : World) (t : Target) (parent : NodeId) : Prop where
  ready : w.Ready 0
  owned : t.Owned w
  known : w.session.index.parent? t.paragraph = some parent
  own : ∀ n, own n → w.Owned n
  some : t.elements ≠ []
  inside : ∀ n ∈ t.elements, w.package.forest.Below t.paragraph n ∧ w.package.forest.name n = textName

namespace Task

variable {t : Target}

/-- After notes were taken, the paragraph is still at work. -/
theorem noted (task : Task own w t parent) (notes : w.session.Notes s') :
    ∃ w' : World, w'.session = s' ∧ Task own w' t parent := by
  have move : Move {} Scope.all w _ :=
    .serve (.note s'.package.journal s'.outcomes w.session.watermarks)
  have moves : Moves {} Scope.all w _ := ReflTransGen.single move
  exact ⟨_,notes.eq.symm,task.ready.moves moves,task.owned.moves moves,task.known,
    fun n mine => (task.own n mine).moves moves,task.some,task.inside⟩

/-- The parent of the paragraph is not among what is below the paragraph. -/
theorem not_below (task : Task own w t parent) (listed : t.paragraph ∈ w.package.forest.children parent) :
    ¬ w.package.forest.Below t.paragraph parent := by
  intro path
  have sorted := task.ready.sound.sorted
  exact Nat.not_le.mpr (sorted.below parent t.paragraph listed).2.2 (sorted.le_of_below path)

/-- Writing rewrites the paragraph, which is at work afterwards as before. -/
theorem write (task : Task own w t parent) {text : List Char}
    (ran : t.write text setup w.session = .ok () s') :
    w.session.Tells own t.paragraph parent .rewritten s' ∧
      ∃ w' : World, w'.session = s' ∧ Task own w' t parent := by
  have ends : Ends (Stride setup Scope.all) setup (t.write text) w fun _ _ => True :=
    ends_write task.ready task.owned text
  obtain ⟨w',session_eq,moves,-⟩ := ends.coarse.of_ok ran
  obtain rfl := (EStateM.Result.ok.inj ran).2
  have retexted := (retexted_writeText w.package.forest t.paragraph task.some (String.ofList text)).mono
    task.inside
  have forest_eq : w'.package.forest =
      w.package.forest.writeText t.paragraph t.elements (String.ofList text) :=
    congrArg (fun s : Session => s.package.forest) session_eq
  have known : w'.session.index.parent? t.paragraph = Option.some parent :=
    (congrArg (fun s : Session => s.index.parent? t.paragraph) session_eq).trans task.known
  refine ⟨⟨⟨rfl,rfl,rfl,rfl,rfl⟩,retexted⟩,w',session_eq,task.ready.moves moves,
    task.owned.moves moves,known,fun n mine => (task.own n mine).moves moves,task.some,
    fun n member => ?_⟩
  rw [forest_eq,retexted.below_eq,retexted.name_eq]
  exact task.inside n member

/-- Where a table is planted and put, the paragraph became a table. -/
theorem putTable (task : Task own w t parent) {e : Element} (built : Built setup.settings e)
    (kind : e.name = tableName) {table : NodeId} (planted : plant e setup w.session = .ok table s)
    (ran : Fill.putTable t.paragraph table setup s = .ok () s') :
    w.session.Tells own t.paragraph parent .becameTable s' := by
  have ends : Ends (Stride setup Scope.all) setup (plant e) w fun id w' => w.Planted w' id e :=
    ends_plant task.ready.toPlaced built fun none => absurd trivial (none t.paragraph)
  obtain ⟨w₁,rfl,moves,fresh⟩ := ends.coarse.of_ok planted
  have plants := plants_of_ok planted
  have known : w₁.session.index.parent? t.paragraph = Option.some parent := by
    rw [plants.index_eq,task.known]
  obtain ⟨keeps,added,filler,exchanged⟩ := exchanged_putTable (task.ready.moves moves)
    (task.owned.paragraph.moves moves) known (fresh.novel 0 task.ready) (fresh.name_eq.trans kind) ran
  have inside := (task.ready.home.parent? task.known).1
  have parent_eq : w₁.package.forest.node parent = w.package.forest.node parent :=
    plants.grown.node_eq parent inside
  refine ⟨plants.keeps.trans keeps,table,added,plants.later,?_,
    filler.since plants.grown.size_le ?_,plants.exchanged inside exchanged _ fun n held => held.1⟩
  · exact (exchanged.name_eq fresh.owned.1).trans (fresh.name_eq.trans kind)
  · rw [Forest.name,Forest.name,parent_eq]
    rfl

/-- Where what was embedded is planted and put, the paragraph became a chart or an image. -/
theorem put (task : Task own w t parent) {embed : Generation Element} {shown : Element}
    {drawing : NodeId} {s₁ s₂ : Session} {known : Bool}
    (ends : Ends (Stock setup) setup embed w fun shown w' => w'.Awaits setup.settings shown)
    (embedded : embed setup w.session = .ok shown s₁) (planted : plant shown setup s₁ = .ok drawing s₂)
    (ran : replace t.paragraph drawing setup s₂ = .ok known s') {e : Ending}
    (drawn : e = .becameChart ∨ e = .becameImage) : w.session.Tells own t.paragraph parent e s' := by
  obtain ⟨w₁,rfl,steps,awaits⟩ := ends.of_ok embedded
  have stocks : Stocks setup w w₁ := steps
  have ready₁ := task.ready.stocks stocks
  have shows : Ends (Stride setup Scope.all) setup (plant shown) w₁ fun id w' => w₁.Planted w' id shown :=
    ends_show ready₁.toPlaced awaits
  obtain ⟨w₂,rfl,moves,fresh⟩ := shows.coarse.of_ok planted
  have plants := plants_of_ok planted
  have owned := task.ready.home.parent? task.known
  have known₁ : w₁.session.index.parent? t.paragraph = Option.some parent := by
    rw [stocks.index_eq,task.known]
  have known₂ : w₂.session.index.parent? t.paragraph = Option.some parent := by
    rw [plants.index_eq,known₁]
  obtain ⟨-,exchanged⟩ := exchanged_replace (ready₁.moves moves) known₂ fresh.loose ran
  have owned₁ : ∀ n, w.Owned n → w₁.Owned n := fun n mine => mine.moves stocks.moves
  have kind := (exchanged.name_eq fresh.owned.1).trans (fresh.name_eq.trans awaits.kind)
  have later := Nat.le_trans stocks.moves.legs.later.size_le plants.later
  have since : Exchanged w.package.forest s'.package.forest t.paragraph parent
      (fun n => own n ∧ ¬ w.package.forest.Below t.paragraph n) [drawing] := by
    refine Exchanged.since (plants.exchanged (owned₁ parent owned).1 exchanged own fun n mine =>
      (owned₁ n (task.own n mine)).1) (stocks.node_eq task.ready.toPlaced owned) fun n held => ?_
    exact ⟨held.1,stocks.node_eq task.ready.toPlaced (task.own n held.1)⟩
  rcases drawn with rfl | rfl <;> exact ⟨drawing,later,kind,since⟩

end Task

/-- A rule leaves the state as its result tells. -/
def Telling (rule : Target → List Char → Generation Step) : Prop :=
  ∀ {setup : Setup} {own : NodeId → Prop} {w : World} {t : Target} {parent : NodeId} (text : List Char),
    Task own w t parent → Gives setup (rule t text) w.session (Stepped w.session own t.paragraph parent)

/-- The text of the paragraph is written after notes were taken. -/
private theorem stepped_write {t : Target} (task : Task own w t parent) (notes : w.session.Notes s)
    {text : List Char} (ran : t.write text setup s = .ok () s₁) (later : s₁.Notes s') :
    Stepped w.session own t.paragraph parent (.ended .rewritten) s' := by
  obtain ⟨w₁,rfl,task₁⟩ := task.noted notes
  exact .of_notes (.ended ⟨by decide,by decide⟩ (tells_noted (task₁.write ran).1 later)) notes

theorem telling_formatRule : Telling formatRule := by
  intro setup own w t parent text task
  unfold formatRule
  split
  · exact .of_pure (.next (.refl _))
  · refine .of_bind fun formatted s₁ given => ?_
    have notes := (noting_formatAll text _).of_ok given
    split
    · exact .of_pure (.next notes)
    · exact .of_bind fun _ s₂ written => .of_pure (stepped_write task notes written (.refl s₂))

theorem telling_textRule : Telling textRule := by
  intro setup own w t parent text task
  unfold textRule
  split
  · exact .of_pure (.next (.refl _))
  · refine .of_bind fun texts s₁ given => .of_bind fun _ s₂ written => .of_pure ?_
    exact stepped_write task ((Noting.of_mapM noting_placeholderText _).of_ok given) written (.refl s₂)

theorem telling_loopRule : Telling loopRule := by
  intro setup own w t parent text task
  unfold loopRule
  split
  · refine .of_bind fun value s₁ given => ?_
    have notes := (noting_valueAt _).of_ok given
    split
    · refine .of_bind fun rendered s₂ given => .of_bind fun _ s₃ written => ?_
      obtain ⟨-,rfl⟩ := eq_ok_of_ofExcept given
      exact gives_recorded fun s' later => stepped_write task notes written later
    · exact gives_recorded fun s' later => .next (notes.trans later)
  · exact .of_pure (.next (.refl _))

theorem telling_chartRule : Telling chartRule := by
  intro setup own w t parent text task
  unfold chartRule
  split
  · refine .of_bind fun value s₁ given => ?_
    have notes := (noting_valueAt _).of_ok given
    split
    · refine .of_bind fun result s₂ ran => ?_
      obtain ⟨w₁,rfl,task₁⟩ := task.noted notes
      rcases guarded_cases ran with ⟨shown,rfl,embedded⟩ | ⟨fault,rfl,own',failed⟩
      · refine .of_bind fun drawing s₃ planted => .of_bind fun known s₄ replaced => ?_
        have tells := task₁.put (Embed.ends_chart task₁.ready _ _ _ _ _) embedded planted replaced
          (Or.inl rfl)
        exact gives_recorded fun s' later =>
          .of_notes (.ended ⟨by decide,by decide⟩ (tells_noted tells later)) notes
      · have notes' := (Embed.cautious_chart _ _ _).notes failed own'
        exact gives_recorded fun s' later => .halt ((notes.trans notes').trans later)
    · exact gives_recorded fun s' later => .halt (notes.trans later)
  · exact .of_pure (.next (.refl _))

theorem telling_imageRule : Telling imageRule := by
  intro setup own w t parent text task
  unfold imageRule
  split
  · refine .of_bind fun value s₁ given => ?_
    have notes := (noting_valueAt _).of_ok given
    split
    · split
      · exact gives_recorded fun s' later => .halt (notes.trans later)
      · refine .of_look_setup (.of_bind fun width s₂ measured => .of_bind fun height s₃ measured' => ?_)
        have notes' := (notes.trans ((noting_lengthAt _ _).of_ok measured)).trans
          ((noting_lengthAt _ _).of_ok measured')
        obtain ⟨m,rfl⟩ := exists_of_lengthAt measured
        obtain ⟨n,rfl⟩ := exists_of_lengthAt measured'
        refine .of_bind fun result s₄ ran => ?_
        obtain ⟨w₁,rfl,task₁⟩ := task.noted notes'
        rcases guarded_cases ran with ⟨shown,rfl,embedded⟩ | ⟨fault,rfl,own',failed⟩
        · refine .of_bind fun drawing s₅ planted => .of_bind fun known s₆ replaced => ?_
          have tells := task₁.put (Embed.ends_fetched task₁.ready _ _ _) embedded planted replaced
            (Or.inr rfl)
          exact gives_recorded fun s' later =>
            .of_notes (.ended ⟨by decide,by decide⟩ (tells_noted tells later)) notes'
        · have failed' := (Embed.cautious_fetched _ _ _).notes failed own'
          exact gives_recorded fun s' later => .halt ((notes'.trans failed').trans later)
    · exact gives_recorded fun s' later => .halt (notes.trans later)
  · exact .of_pure (.next (.refl _))

theorem telling_tableRule : Telling tableRule := by
  intro setup own w t parent text task
  unfold tableRule
  split
  · refine .of_bind fun value s₁ given => ?_
    have notes := (noting_valueAt _).of_ok given
    split
    · refine .of_look_setup (.of_bind fun result s₂ ran => ?_)
      rcases guarded_cases ran with ⟨element,rfl,built⟩ | ⟨fault,rfl,own',failed⟩
      · obtain ⟨drawn,rfl⟩ := eq_ok_of_ofExcept built
        obtain ⟨w₁,rfl,task₁⟩ := task.noted notes
        refine .of_bind fun table s₃ planted => .of_bind fun _ s₄ put => .of_bind fun _ s₅ logged => ?_
        have tells := task₁.putTable (Built.table _ element drawn) (name_table drawn) planted put
        have logs := (Noting.of_log _ _).of_ok logged
        exact gives_recorded fun s' later =>
          .of_notes (.ended ⟨by decide,by decide⟩ (tells_noted tells (logs.trans later))) notes
      · have notes' := (Noting.of_ofExcept _).cautious.notes failed own'
        exact gives_recorded fun s' later => .halt ((notes.trans notes').trans later)
    · exact gives_recorded fun s' later => .halt (notes.trans later)
  · exact .of_pure (.next (.refl _))

theorem telling_of_mem_rules : ∀ rule ∈ rules, Telling rule := by
  simp only [rules,List.forall_mem_cons]
  exact ⟨telling_tableRule,telling_chartRule,telling_imageRule,telling_formatRule,telling_loopRule,
    telling_textRule,by simp⟩

/-- Rules that are tried in order leave the state as the last of them did. -/
theorem gives_tryRules {t : Target} (task : Task own w t parent) (text : List Char)
    {rules : List (Target → List Char → Generation Step)} (telling : ∀ rule ∈ rules, Telling rule) :
    Gives setup (tryRules t text rules) w.session fun found s' => match found with
      | some e => e.Ruled ∧ w.session.Tells own t.paragraph parent e s'
      | none => w.session.Notes s' := by
  induction rules generalizing w with
  | nil => exact .of_pure (.refl _)
  | cons rule rules ih =>
    refine .of_bind fun step s₁ ran => ?_
    cases telling rule List.mem_cons_self text task step s₁ ran with
    | next notes =>
      obtain ⟨w₁,rfl,task₁⟩ := task.noted notes
      intro found s' tried
      have later := ih task₁ (fun rule member => telling rule (List.mem_cons_of_mem _ member)) found s' tried
      cases found with
      | none => exact notes.trans later
      | some e =>
        exact ⟨later.1,tells_of_notes notes later.2⟩
    | halt notes => exact .of_pure notes
    | ended ruled tells => exact .of_pure ⟨ruled,tells⟩

/-- Conditional blocks are resolved by notes, unless one of them takes the paragraph out. -/
theorem gives_resolveBlocks {t : Target} (task : Task own w t parent) (fuel : Nat) (text : List Char)
    (pos : Nat) (met : Bool) : Gives setup (resolveBlocks fuel t.paragraph text pos met) w.session
      fun left s' => match left.1 with
        | some _ => w.session.Notes s'
        | none => w.session.Tells own t.paragraph parent .deleted s' := by
  induction fuel generalizing w text pos met with
  | zero => exact .of_pure (.refl _)
  | succ fuel ih =>
    unfold resolveBlocks
    split
    · exact .of_pure (.refl _)
    · refine .of_bind fun verdict s₁ judged => ?_
      have notes := (noting_holds _).of_ok judged
      split
      · refine .of_bind fun _ s₂ recorded => ?_
        have notes' := notes.trans ((Noting.of_record _ _ _ _).of_ok recorded)
        obtain ⟨w₁,rfl,task₁⟩ := task.noted notes'
        intro left s' resolved
        have later := ih task₁ _ _ _ left s' resolved
        obtain ⟨left,met'⟩ := left
        cases left with
        | some text' => exact notes'.trans later
        | none => exact tells_of_notes notes' later
      · refine .of_bind fun _ s₂ removed => gives_recorded fun s' later => ?_
        obtain ⟨w₁,rfl,task₁⟩ := task.noted notes
        have tells : w₁.session.Tells own t.paragraph parent .deleted s₂ :=
          tells_removeParagraph task₁.ready task₁.owned.paragraph task₁.known removed
        exact tells_of_notes notes (tells_noted tells later)

/-- When the blocks are resolved, the text that is left is written if there were any; then the rules are
tried. -/
private theorem gives_rules {t : Target} (task : Task own w t parent) (text : List Char) (met : Bool) :
    Gives setup (do
      if met then t.write text
      match ← tryRules t text rules with
      | some e => return e
      | none => return if met then .rewritten else .unchanged) w.session
        (w.session.Tells own t.paragraph parent) := by
  have still : w.session.Tells own t.paragraph parent .unchanged w.session := ⟨.refl _,rfl⟩
  cases met with
  | false =>
    refine .of_bind fun found s₁ tried => ?_
    have last := gives_tryRules task text telling_of_mem_rules found s₁ tried
    cases found with
    | none => exact .of_pure (tells_noted still last)
    | some e => exact .of_pure last.2
  | true =>
    refine .of_bind fun _ s₁ written => .of_bind fun found s₂ tried => ?_
    obtain ⟨rewritten,w₁,rfl,task₁⟩ := task.write written
    have last := gives_tryRules task₁ text telling_of_mem_rules found s₂ tried
    cases found with
    | none => exact .of_pure (tells_noted rewritten last)
    | some e =>
      obtain ⟨keeps,retexted⟩ := rewritten
      have above (listed : t.paragraph ∈ w.package.forest.children parent) :
          w₁.package.forest.node parent = w.package.forest.node parent :=
        retexted.node_eq parent fun here => task.not_below listed here.1
      exact .of_pure (tells_since keeps retexted above last.1 last.2)

/-- The ending of a paragraph tells what was changed. -/
theorem paragraph_tells (ready : w.Ready base) (paragraph : w.Paragraph p)
    (known : w.session.index.parent? p = some parent) {e : Ending}
    (ran : Fill.paragraph p setup w.session = .ok e s') : w.session.Tells w.Owned p parent e s' := by
  have still : w.session.Tells w.Owned p parent .unchanged w.session := ⟨.refl _,rfl⟩
  suffices gives : Gives setup (Fill.paragraph p) w.session (w.session.Tells w.Owned p parent) from
    gives e s' ran
  unfold Fill.paragraph
  refine .of_bind fun attached s₁ looked => ?_
  obtain ⟨rfl,rfl⟩ := EStateM.Result.ok.inj looked
  split
  · exact .of_pure still
  · refine .of_look_forest ?_
    extract_lets t text
    split
    · exact .of_pure still
    · next braced =>
      have task : Task w.Owned w t parent := by
        refine ⟨ready.fewer (Nat.zero_le base),⟨paragraph,fun n member =>
          ready.sound.sorted.within_textElements paragraph.owned member⟩,known,fun _ mine => mine,?_,
            fun n member => ?_⟩
        · intro none
          have empty : w.session.package.forest.textElements p = [] := none
          simp [text,t,Forest.joinedText,empty] at braced
        · obtain ⟨named,run,path,-,path'⟩ := (mem_textElements_iff ready.sound.sorted).mp member
          exact ⟨path.trans path',named⟩
      refine .of_bind fun left s₂ resolved => ?_
      have blocks := gives_resolveBlocks task _ _ _ _ left s₂ resolved
      obtain ⟨left,met⟩ := left
      cases left with
      | none => exact .of_pure blocks
      | some text =>
        obtain ⟨w₁,rfl,task₁⟩ := task.noted blocks
        intro e s₃ ended
        exact tells_of_notes blocks (gives_rules task₁ text met e s₃ ended)

/-- A template with a cell that has one paragraph, which stays under a condition only. -/
def lonelyTemplate : Package where
  parts := [(documentPart,Text.encode ("<document " ++
    "xmlns=\"http://schemas.openxmlformats.org/wordprocessingml/2006/main\"><body><tbl><tr><tc>" ++
    "<p><r><t>\x7b#if a\x7dx\x7b/if\x7d</t></r></p></tc></tr></tbl></body></document>"))]
  order := [documentPart]

private def lonelyCheck (_ id : NodeId) (_ s : Session) (_ : List Round) (_ : Session) : Bool :=
  (s.package.forest.named id paragraphName).any fun p =>
    (s.index.parent? p).any fun parent => match Fill.paragraph p {} s with
      | .ok e _ => e == .deleted && s.package.forest.name parent == cellName
      | .error _ _ => false

private theorem lonely_run : bodyRun {} {} lonelyTemplate lonelyCheck = true := by
  decide +kernel

theorem paragraph_tells_lonely : ∃ (w : World) (root p parent : NodeId) (s₀ s' : Session),
    opening {} {} { package := lonelyTemplate } = .ok root s₀ ∧
      prepare root {} s₀ = .ok () w.session ∧ w.Ready 0 ∧ w.Paragraph p ∧
        w.session.index.parent? p = some parent ∧ w.package.forest.name parent = cellName ∧
          Fill.paragraph p {} w.session = .ok .deleted s' ∧
            w.session.Tells w.Owned p parent .deleted s' := by
  obtain ⟨root,id,s₀,_,_,_,opened,ready,found,ran,checked⟩ := exists_bodyRun lonely_run
  have fresh : lonelyTemplate.Fresh := ⟨rfl,rfl,rfl,rfl,rfl⟩
  obtain ⟨_,start,_,_,-,rfl,-,-,run⟩ :=
    exists_run fresh rfl opened ready found (body_of_bodyRounds ran)
  obtain ⟨p,member,checked⟩ := List.any_eq_true.mp checked
  obtain ⟨parent,known,checked⟩ := (Option.any_eq_true _ _).mp checked
  split at checked
  · next e s' ended =>
    obtain ⟨deleted,cell⟩ := Bool.and_eq_true_iff.mp checked
    obtain rfl := eq_of_beq deleted
    have sorted := run.site.ready.sound.sorted
    have owned : start.Owned id := run.site.place_owned ⟨ReflTransGen.refl,Or.inl rfl⟩
    have paragraph : start.Paragraph p :=
      ⟨sorted.within_named owned member,(Forest.mem_named.mp member).2⟩
    exact ⟨start,root,p,parent,s₀,s',opened,ready,run.site.ready.fewer (Nat.zero_le _),paragraph,
      known,eq_of_beq cell,ended,paragraph_tells run.site.ready paragraph known ended⟩
  · exact absurd checked Bool.false_ne_true

end Fill
end MailMerge
