import MailMerge.Proofs.Table.Properties

/-! Styled rows. A style makes the runs of a row bold and shades its cells. Either is put among the properties that
an element has already, at the place that their order leaves for it.

Every run of a row that is made bold has one bold mark afterwards, and its other properties are what they were. The
mark has its place among them, unless the record of a tracked change stands there with nothing beside it that must
follow the mark.
-/
namespace MailMerge.Table
open Xml Docx Forest Relation

/-- The order of the properties of a run. -/
def runOrder : List String :=
  ["rStyle","rFonts","b"] ++ (afterBold ++ ["rPrChange"])

/-- Properties of a run are left, or they get the bold mark that they lacked. -/
inductive Marks (f g : Forest) (ids : List NodeId) : List NodeId → Prop
  | left (same : ∀ id ∈ ids, g.name id = f.name id) : Marks f g ids ids
  | put {before after : List NodeId} {new : NodeId} (same : ∀ id ∈ ids, g.name id = f.name id)
    (split : ids = before ++ after) (none : main "b" ∉ ids.map f.name) (mark : g.name new = main "b")
    (place : InOrder runOrder (ids.map f.name) → (InOrder runOrder ((before ++ new :: after).map g.name) ↔
      (Lists (ids.map f.name) ["rPrChange"] → Lists (ids.map f.name) afterBold))) :
    Marks f g ids (before ++ new :: after)

namespace Marks

variable {f g h : Forest} {ids ids' ids'' : List NodeId}

theorem marked (marks : Marks f g ids ids') (marked : main "b" ∈ ids.map f.name) : main "b" ∈ ids'.map g.name := by
  cases marks with
  | left same => rwa [List.map_congr_left same]
  | put same split none mark place => exact absurd marked none

theorem trans (first : Marks f g ids ids') (second : Marks g h ids' ids'') : Marks f h ids ids'' := by
  cases first with
  | left same =>
    have names_eq : ids.map g.name = ids.map f.name := List.map_congr_left same
    cases second with
    | left same' => exact .left fun id member => (same' id member).trans (same id member)
    | put same' split none mark place =>
      rw [names_eq] at none place
      exact .put (fun id member => (same' id member).trans (same id member)) split none mark place
  | @put before after new same split none mark place =>
    cases second with
    | left same' =>
      have same'' : ∀ id ∈ ids, h.name id = f.name id := by
        intro id member
        refine (same' id ?_).trans (same id member)
        rw [split] at member
        simp only [List.mem_append,List.mem_cons] at member ⊢
        tauto
      rw [← List.map_congr_left same'] at place
      exact .put same'' split none ((same' new (by simp)).trans mark) place
    | put _ _ none' => exact absurd (by simp [mark]) none'

end Marks

/-- Runs get bold marks, and nothing else is changed. -/
structure Bolds (f g : Forest) : Prop where
  alters : Alters (fun id => f.name id ∈ [runName,main "rPr"]) f g
  kept : ∀ a b, f.Child a b → g.Child a b
  fresh : ∀ a b, g.Child a b → f.Child a b ∨ f.nodes.size ≤ b
  quiet : ∀ id, f.nodes.size ≤ id → g.name id ≠ runName
  marks : ∀ run, f.name run = runName → Marks f g (f.properties run "rPr") (g.properties run "rPr")

namespace Bolds

variable {f g h : Forest}

theorem refl (acyclic : f.Acyclic) : Bolds f f where
  alters := .refl acyclic
  kept _ _ here := here
  fresh _ _ here := .inl here
  quiet id new := by
    rw [name_of_size_le f new]
    decide
  marks _ _ := .left fun _ _ => rfl

theorem trans (first : Bolds f g) (second : Bolds g h) : Bolds f h where
  alters := first.alters.trans second.alters fun _ inside kind => first.alters.name_eq inside ▸ kind
  kept a b here := second.kept a b (first.kept a b here)
  fresh a b here := by
    rcases second.fresh a b here with here | new
    · exact first.fresh a b here
    · exact .inr (Nat.le_trans first.alters.size_le new)
  quiet id new := by
    rcases Nat.lt_or_ge id g.nodes.size with old | new'
    · rw [second.alters.name_eq old]
      exact first.quiet id new
    · exact second.quiet id new'
  marks run kind := (first.marks run kind).trans (second.marks run (first.alters.named kind))

/-- What there was stands below the same elements as before. -/
theorem below_of_below (bolds : Bolds f g) {a b : NodeId} (path : g.Below a b) (old : b < f.nodes.size) :
    f.Below a b := by
  induction path with
  | refl => exact .refl
  | tail _ here ih =>
    rcases bolds.fresh _ _ here with here | new
    · exact (ih (f.lt_size_of_child here)).tail here
    · exact absurd old (Nat.not_lt.mpr new)

theorem mem_named_iff (bolds : Bolds f g) (acyclic : f.Acyclic) {id run : NodeId} :
    run ∈ g.named id runName ↔ run ∈ f.named id runName := by
  simp only [mem_named,acyclic.mem_tree_iff,bolds.alters.acyclic.mem_tree_iff]
  constructor
  · intro ⟨path,kind⟩
    have old : run < f.nodes.size := by
      by_contra new
      exact bolds.quiet run (Nat.le_of_not_lt new) kind
    exact ⟨bolds.below_of_below path old,(bolds.alters.name_eq old).symm.trans kind⟩
  · intro ⟨path,kind⟩
    exact ⟨ReflTransGen.mono bolds.kept _ _ path,bolds.alters.named kind⟩

end Bolds

/-- The properties of a run have a bold mark among them. -/
def IsBold (f : Forest) (run : NodeId) : Prop :=
  main "b" ∈ (f.properties run "rPr").map f.name

theorem Bolds.isBold {f g : Forest} (bolds : Bolds f g) {run : NodeId} (kind : f.name run = runName)
    (bold : IsBold f run) : IsBold g run :=
  (bolds.marks run kind).marked bold

theorem bolds_of_found {f g : Forest} {run look : NodeId} (acyclic : f.Acyclic) (kind : f.name run = runName)
    (found : Found f g run "rPr" look) : Bolds f g where
  alters := found.alters.mono fun id inside here => by simp [here,kind]
  kept := found.kept
  fresh := found.fresh
  quiet id new := by
    rcases Nat.lt_or_ge id g.nodes.size with old | new'
    · rw [found.only id new old,found.name_eq]
      decide
    · rw [name_of_size_le g new']
      decide
  marks run' kind' := by
    rw [found.properties_eq acyclic (by rw [kind]; decide) (f.lt_size_of_main kind')]
    exact .left fun id member => found.alters.name_eq (lt_size_of_mem_properties acyclic member)

theorem bolds_of_placed {f g : Forest} {look : NodeId} {before after : List NodeId} (acyclic : f.Acyclic)
    (kind : f.name look = main "rPr") (none : f.childNamed? look (main "b") = none)
    (placed : Placed f g look { name := main "b" } afterBold before after) : Bolds f g := by
  have inside := f.lt_size_of_main kind
  have alters := placed.alters inside acyclic rfl
  have mark : g.name f.nodes.size = main "b" := by rw [Forest.name,placed.node_eq inside]
  refine ⟨alters.mono fun id _ here => by simp [here,kind],?_,?_,?_,?_⟩
  · exact fun a b here => (placed.child_iff inside rfl).mpr (.inl here)
  · intro a b here
    rcases (placed.child_iff inside rfl).mp here with here | ⟨-,rfl⟩
    · exact .inl here
    · exact .inr (Nat.le_refl _)
  · intro id new
    rcases Nat.eq_or_lt_of_le new with rfl | large
    · rw [mark]
      decide
    · rw [name_of_size_le g (placed.size_eq ▸ large)]
      decide
  · intro run kind'
    have other : run ≠ look := fun same => absurd ((same ▸ kind').symm.trans kind) (by decide)
    have same (id : NodeId) (member : id ∈ f.properties run "rPr") : g.name id = f.name id :=
      alters.name_eq (lt_size_of_mem_properties acyclic member)
    rcases alters.properties_cases acyclic (f.lt_size_of_main kind') other "rPr" with left | ⟨theirs,theirs'⟩
    · rw [left]
      exact .left same
    · rw [theirs] at same ⊢
      have nodup : runOrder.Nodup := by decide
      have parts : runOrder = ["rStyle","rFonts"] ++ "b" :: (afterBold ++ ["rPrChange"]) := rfl
      have order := placed.inOrder_iff inside acyclic rfl nodup parts
      rw [theirs']
      rw [placed.children_eq inside] at order ⊢
      refine .put same placed.split ?_ mark order
      intro member
      obtain ⟨id,member,named⟩ := List.mem_map.mp member
      simpa [named] using List.find?_eq_none.mp none id member

theorem bolds_embolden {f : Forest} (acyclic : f.Acyclic) {run : NodeId} (kind : f.name run = runName) :
    Bolds f (embolden f run) ∧ IsBold (embolden f run) run := by
  have inside := f.lt_size_of_main kind
  have found := found_firstOrNew acyclic inside "rPr"
  unfold embolden
  generalize f.firstOrNew run "rPr" = pair at found ⊢
  obtain ⟨look,g⟩ := pair
  have bolds := bolds_of_found acyclic kind found
  dsimp only at found bolds ⊢
  split
  · next mark there =>
    refine ⟨bolds,?_⟩
    rw [IsBold,properties_of_found found.found]
    exact List.mem_map.mpr ⟨mark,List.mem_of_find?_eq_some there,name_of_childNamed? there⟩
  · next none =>
    have acyclic' := found.alters.acyclic
    have inside' := g.lt_size_of_main found.name_eq
    obtain ⟨before,after,placed⟩ := exists_placed acyclic' inside' { name := main "b" } afterBold
    have alters := placed.alters inside' acyclic' rfl
    refine ⟨bolds.trans (bolds_of_placed acyclic' found.name_eq none placed),?_⟩
    rw [fst_add,IsBold,found.properties_of_alters alters inside (by rw [kind]; decide),
      placed.names_eq inside' acyclic' rfl]
    simp

theorem bolds_foldl_embolden {f : Forest} (acyclic : f.Acyclic) {runs : List NodeId}
    (kind : ∀ run ∈ runs, f.name run = runName) :
    Bolds f (runs.foldl embolden f) ∧ ∀ run ∈ runs, IsBold (runs.foldl embolden f) run := by
  induction runs generalizing f with
  | nil => exact ⟨.refl acyclic,nofun⟩
  | cons run runs ih =>
    obtain ⟨here,later⟩ := List.forall_mem_cons.mp kind
    obtain ⟨first,bold⟩ := bolds_embolden acyclic here
    obtain ⟨second,others⟩ := ih first.alters.acyclic fun id member => first.alters.named (later id member)
    exact ⟨first.trans second,List.forall_mem_cons.mpr ⟨second.isBold (first.alters.named here) bold,others⟩⟩

/-- Makes all runs of some cells bold. -/
def emboldenAll (f : Forest) (cells : List NodeId) : Forest :=
  cells.foldl (fun f cell => (f.named cell runName).foldl embolden f) f

theorem bolds_emboldenAll {f : Forest} (acyclic : f.Acyclic) (cells : List NodeId) :
    Bolds f (emboldenAll f cells) ∧
      ∀ cell ∈ cells, ∀ run ∈ f.named cell runName, IsBold (emboldenAll f cells) run := by
  induction cells generalizing f with
  | nil => exact ⟨.refl acyclic,nofun⟩
  | cons cell cells ih =>
    have kind : ∀ run ∈ f.named cell runName, f.name run = runName := fun run member => (mem_named.mp member).2
    obtain ⟨first,bold⟩ := bolds_foldl_embolden acyclic kind
    obtain ⟨second,others⟩ := ih first.alters.acyclic
    refine ⟨first.trans second,List.forall_mem_cons.mpr ⟨fun run member => ?_,fun cell' member run below => ?_⟩⟩
    · exact second.isBold (first.alters.named (kind run member)) (bold run member)
    · -- the runs of the other cells are still the same
      exact others cell' member run ((first.mem_named_iff acyclic).mpr below)

/-- What a bold style does to the properties of a run. -/
structure Emboldened (f g : Forest) (ids ids' : List NodeId) : Prop where
  others_eq : ids'.filter (g.name · != main "b") = ids.filter (f.name · != main "b")
  one : (ids.filter (f.name · == main "b")).length ≤ 1 → (ids'.filter (g.name · == main "b")).length = 1
  ordered_iff : InOrder runOrder (ids.map f.name) → (InOrder runOrder (ids'.map g.name) ↔
    (main "b" ∉ ids.map f.name → Lists (ids.map f.name) ["rPrChange"] → Lists (ids.map f.name) afterBold))

theorem Marks.emboldened {f g : Forest} {ids ids' : List NodeId} (marks : Marks f g ids ids')
    (bold : main "b" ∈ ids'.map g.name) : Emboldened f g ids ids' := by
  have filter_eq (p : Name → Bool) (same : ∀ id ∈ ids, g.name id = f.name id) :
      (ids.filter fun id => p (g.name id)) = ids.filter fun id => p (f.name id) :=
    List.filter_congr fun id member => by rw [same id member]
  cases marks with
  | left same =>
    rw [List.map_congr_left same] at bold
    refine ⟨filter_eq (· != main "b") same,?_,?_⟩
    · rw [filter_eq (· == main "b") same]
      intro few
      obtain ⟨id,member,named⟩ := List.mem_map.mp bold
      have some : 0 < (ids.filter (f.name · == main "b")).length :=
        List.length_pos_of_mem (List.mem_filter.mpr ⟨member,by simp [named]⟩)
      omega
    · rw [List.map_congr_left same]
      exact fun ordered => iff_of_true ordered fun none => absurd bold none
  | @put before after new same split none mark place =>
    have none' : ids.filter (g.name · == main "b") = [] := by
      rw [filter_eq (· == main "b") same,List.filter_eq_nil_iff]
      intro id member named
      exact none (List.mem_map.mpr ⟨id,member,eq_of_beq named⟩)
    refine ⟨?_,fun _ => ?_,fun ordered => ?_⟩
    · rw [← filter_eq (· != main "b") same,split]
      simp [mark]
    · rw [split,List.filter_append] at none'
      obtain ⟨front,back⟩ := List.append_eq_nil_iff.mp none'
      simp [List.filter_append,mark,front,back]
    · rw [place ordered]
      exact ⟨fun rescue _ => rescue,fun rescue => rescue none⟩

/-- Every run of a row becomes bold. It keeps its other properties, and they stay in order with the mark, unless the
mark is new and follows the record of a tracked change for want of another property that must follow it. -/
theorem styleRow_bold (s : Settings) {f : Forest} {row : NodeId} (acyclic : f.Acyclic)
    (kind : f.name row = rowName) (plain : s.rowFills.lookup "bold" = none) :
    Alters (fun id => f.name id ∈ [runName,main "rPr"]) f (styleRow s f row "bold") ∧
      (styleRow s f row "bold").childrenNamed row cellName = f.childrenNamed row cellName ∧
      ∀ cell ∈ f.childrenNamed row cellName,
        (∀ run, run ∈ (styleRow s f row "bold").named cell runName ↔ run ∈ f.named cell runName) ∧
        ∀ run ∈ f.named cell runName, Emboldened f (styleRow s f row "bold") (f.properties run "rPr")
          ((styleRow s f row "bold").properties run "rPr") := by
  have is : styleRow s f row "bold" = emboldenAll f (f.childrenNamed row cellName) := by
    simp only [styleRow,plain,beq_self_eq_true,if_true]
    rfl
  rw [is]
  obtain ⟨bolds,bold⟩ := bolds_emboldenAll acyclic (f.childrenNamed row cellName)
  have inside := f.lt_size_of_main kind
  refine ⟨bolds.alters,bolds.alters.childrenNamed_eq acyclic inside (by rw [kind]; decide) _,
    fun cell member => ⟨fun run => bolds.mem_named_iff acyclic,fun run below => ?_⟩⟩
  exact (bolds.marks run (mem_named.mp below).2).emboldened (bold cell member run below)

/-- A row with one cell and two runs, one of which has the record of a tracked change for its only property. -/
private def ledger : Forest :=
  ⟨#[⟨rowName,[],none,[1],none⟩,⟨cellName,[],none,[2,5],none⟩,⟨runName,[],none,[3],none⟩,
    ⟨main "rPr",[],none,[4],none⟩,⟨main "rPrChange",[],none,[],none⟩,⟨runName,[],none,[],none⟩]⟩

theorem styleRow_bold_ledger : ledger.Acyclic ∧ ledger.name 0 = rowName ∧
    Emboldened ledger (styleRow {} ledger 0 "bold") (ledger.properties 5 "rPr")
      ((styleRow {} ledger 0 "bold").properties 5 "rPr") ∧
    InOrder runOrder ((ledger.properties 2 "rPr").map ledger.name) ∧
    ¬ InOrder runOrder
      (((styleRow {} ledger 0 "bold").properties 2 "rPr").map (styleRow {} ledger 0 "bold").name) := by
  have acyclic : ledger.Acyclic := acyclic_of_rising (by decide)
  have kind : ledger.name 0 = rowName := rfl
  obtain ⟨-,-,each⟩ := styleRow_bold {} acyclic kind rfl
  obtain ⟨-,bold⟩ := each 1 (by decide)
  have ordered : InOrder runOrder ((ledger.properties 2 "rPr").map ledger.name) := by decide
  refine ⟨acyclic,kind,bold 5 (by decide),ordered,fun ordered' => ?_⟩
  exact absurd (((bold 2 (by decide)).ordered_iff ordered).mp ordered') (by decide)

end MailMerge.Table

/-! Shaded rows. However often a row is styled, each of its cells has one shading afterwards, that of the last style
with a colour. The other properties of a cell stay as they are, and what was in order stays so.
-/
namespace MailMerge.Table
open Xml Docx Forest

/-- The order of the properties of a cell. -/
def cellOrder : List String :=
  ["cnfStyle","tcW","gridSpan","hMerge","vMerge","tcBorders","shd"] ++ afterShading

/-- Properties of a cell were changed, but for shadings they are the same and stand in their order. -/
structure Reshaded (f g : Forest) (ids ids' : List NodeId) : Prop where
  others_eq : ids'.filter (g.name · != main "shd") = ids.filter (f.name · != main "shd")
  ordered : InOrder cellOrder (ids.map f.name) → InOrder cellOrder (ids'.map g.name)

/-- There is one shading among the properties of a cell, and it has a colour. -/
def Filled (f : Forest) (ids : List NodeId) (fill : String) : Prop :=
  ∃ shading, ids.filter (f.name · == main "shd") = [shading] ∧ f.attribute? shading (main "fill") = some fill

theorem Reshaded.of_same {f g : Forest} {ids : List NodeId} (same : ∀ id ∈ ids, g.name id = f.name id) :
    Reshaded f g ids ids := by
  refine ⟨List.filter_congr fun id member => ?_,?_⟩
  · rw [same id member]
  · rw [List.map_congr_left same]
    exact id

theorem Reshaded.trans {f g h : Forest} {ids ids' ids'' : List NodeId} (first : Reshaded f g ids ids')
    (second : Reshaded g h ids' ids'') : Reshaded f h ids ids'' :=
  ⟨second.others_eq.trans first.others_eq,fun ordered => second.ordered (first.ordered ordered)⟩

section
variable {f g h : Forest} {look : NodeId}

theorem diff_filter {α : Type} [DecidableEq α] (p : α → Bool) (items : List α) :
    items.diff (items.filter p) = items.filter fun a => !p a := by
  induction items with
  | nil => rfl
  | cons a items ih =>
    by_cases taken : p a = true
    · rw [List.filter_cons_of_pos taken,List.diff_cons,List.erase_cons_head,ih,
        List.filter_cons_of_neg (by simp [taken])]
    · rw [List.filter_cons_of_neg taken,List.filter_cons_of_pos (by simp [taken]),← ih]
      exact List.cons_diff_of_not_mem (fun member => taken (List.mem_filter.mp member).2) items

theorem alters_detach (acyclic : f.Acyclic) (look old : NodeId) : Alters (· = look) f (f.detach look old) where
  acyclic := acyclic.detach look old
  size_le := Nat.le_of_eq (f.size_update look _).symm
  same id _ := by
    rw [detach,updateChildren,node_update]
    split <;> rfl
  children_eq id _ other := by rw [detach,children_updateChildren,if_neg fun both => other both.1]

theorem alters_foldl_detach (acyclic : f.Acyclic) (inside : look < f.nodes.size) (ids : List NodeId) :
    Alters (· = look) f (ids.foldl (fun f old => f.detach look old) f) ∧
      (ids.foldl (fun f old => f.detach look old) f).children look = (f.children look).diff ids := by
  induction ids generalizing f with
  | nil => exact ⟨.refl acyclic,rfl⟩
  | cons old ids ih =>
    have first := alters_detach acyclic look old
    obtain ⟨second,left⟩ := ih first.acyclic (Nat.lt_of_lt_of_le inside first.size_le)
    refine ⟨first.trans second fun _ _ here => here,left.trans ?_⟩
    rw [List.diff_cons,detach,children_updateChildren,if_pos ⟨rfl,inside⟩]

/-- The children of the element that shading is put into. -/
private theorem reshaded_of_placed {before after : List NodeId} (acyclic : f.Acyclic)
    (inside : look < f.nodes.size) (cleared : Alters (· = look) f g)
    (left : g.children look = (f.children look).filter (f.name · != main "shd")) {n : Node}
    (leaf : n.children = []) (name_eq : n.name = main "shd")
    (placed : Placed g h look n afterShading before after) :
    Reshaded f h (f.children look) (h.children look) ∧
      (h.children look).filter (h.name · == main "shd") = [g.nodes.size] := by
  have inside' := Nat.lt_of_lt_of_le inside cleared.size_le
  have new_name : h.name g.nodes.size = main "shd" := by rw [Forest.name,placed.node_eq inside',name_eq]
  have rest : before ++ after = (f.children look).filter (f.name · != main "shd") := placed.split ▸ left
  have old (id : NodeId) (member : id ∈ before ++ after) : id < f.nodes.size := by
    rw [rest] at member
    exact acyclic.inside look id (List.mem_of_mem_filter member)
  have placing := placed.alters inside' cleared.acyclic leaf
  have other (id : NodeId) (member : id ∈ before ++ after) : (h.name id != main "shd") = true := by
    rw [placing.name_eq (Nat.lt_of_lt_of_le (old id member) cleared.size_le),cleared.name_eq (old id member)]
    rw [rest] at member
    exact (List.mem_filter.mp member).2
  refine ⟨⟨?_,?_⟩,?_⟩
  · -- the new shading is passed over, and the others are gone
    rw [← rest,placed.children_eq inside',List.filter_append,List.filter_cons_of_neg (by simp [new_name]),
      ← List.filter_append]
    exact List.filter_eq_self.mpr other
  · intro ordered
    have nodup : cellOrder.Nodup := by decide
    have parts : cellOrder = ["cnfStyle","tcW","gridSpan","hMerge","vMerge","tcBorders"] ++ n.name.stem ::
        (afterShading ++ []) := by rw [name_eq]; rfl
    have ordered' : InOrder cellOrder ((g.children look).map g.name) := by
      have names_eq : (g.children look).map g.name = (g.children look).map f.name := by
        rw [placed.split]
        exact List.map_congr_left fun id member => cleared.name_eq (old id member)
      rw [names_eq,left]
      exact ordered.sublist (List.filter_sublist.map f.name)
    refine (placed.inOrder_iff inside' cleared.acyclic leaf nodup parts ordered').mpr ?_
    exact fun ⟨_,_,impossible⟩ => nomatch impossible
  · rw [placed.children_eq inside',List.filter_append,List.filter_cons_of_pos (by simp [new_name])]
    have none {some : List NodeId} (fewer : ∀ id ∈ some, id ∈ before ++ after) :
        some.filter (h.name · == main "shd") = [] :=
      List.filter_eq_nil_iff.mpr fun id member => by simpa using other id (fewer id member)
    rw [none fun _ => List.mem_append_left _,none fun _ => List.mem_append_right _]
    rfl

end

/-- The names of elements whose children a style changes. -/
def styledNames : List Name :=
  [cellName,main "tcPr",runName,main "rPr"]

/-- Elements are left, or a single one comes where there was none. -/
def Completes (ids ids' : List NodeId) : Prop :=
  ids' = ids ∨ (ids = [] ∧ ∃ new, ids' = [new])

theorem Completes.trans {ids ids' ids'' : List NodeId} (first : Completes ids ids') (second : Completes ids' ids'') :
    Completes ids ids'' := by
  obtain rfl | ⟨none,new,rfl⟩ := first
  · exact second
  · obtain rfl | ⟨none',-⟩ := second
    · exact .inr ⟨none,new,rfl⟩
    · exact nomatch none'

/-- The properties of cells are changed by styles only. -/
structure Restyled (f g : Forest) : Prop where
  alters : Alters (fun id => f.name id ∈ styledNames) f g
  completes : ∀ cell, f.name cell = cellName →
    Completes (f.childrenNamed cell (main "tcPr")) (g.childrenNamed cell (main "tcPr"))
  reshaded : ∀ cell, f.name cell = cellName → Reshaded f g (f.properties cell "tcPr") (g.properties cell "tcPr")

/-- Cells that have a colour keep it. -/
def Keeps (fill : String) (f g : Forest) : Prop :=
  ∀ cell, f.name cell = cellName → Filled f (f.properties cell "tcPr") fill → Filled g (g.properties cell "tcPr") fill

namespace Restyled

variable {f g h : Forest}

theorem refl (acyclic : f.Acyclic) : Restyled f f :=
  ⟨.refl acyclic,fun _ _ => .inl rfl,fun _ _ => .of_same fun _ _ => rfl⟩

theorem trans (first : Restyled f g) (second : Restyled g h) : Restyled f h where
  alters := first.alters.trans second.alters fun _ inside kind => first.alters.name_eq inside ▸ kind
  completes cell kind := (first.completes cell kind).trans (second.completes cell (first.alters.named kind))
  reshaded cell kind := (first.reshaded cell kind).trans (second.reshaded cell (first.alters.named kind))

end Restyled

theorem Keeps.trans {fill : String} {f g h : Forest} (restyled : Restyled f g) (first : Keeps fill f g)
    (second : Keeps fill g h) : Keeps fill f h :=
  fun cell kind filled => second cell (restyled.alters.named kind) (first cell kind filled)

theorem Filled.of_same {f g : Forest} {touched : NodeId → Prop} {ids : List NodeId} {fill : String}
    (filled : Filled f ids fill) (alters : Alters touched f g) (inside : ∀ id ∈ ids, id < f.nodes.size) :
    Filled g ids fill := by
  obtain ⟨shading,one,colour⟩ := filled
  have member : shading ∈ ids := by
    have kept : shading ∈ ids.filter (f.name · == main "shd") := one ▸ List.mem_cons_self
    exact List.mem_of_mem_filter kept
  refine ⟨shading,?_,(alters.attribute?_eq (inside shading member) _).trans colour⟩
  rw [← one]
  exact List.filter_congr fun id member => by rw [alters.name_eq (inside id member)]

/-- Bold marks leave the properties of cells. -/
theorem restyled_of_bolds {f g : Forest} (acyclic : f.Acyclic) (bolds : Bolds f g) :
    Restyled f g ∧ ∀ fill, Keeps fill f g := by
  have free {cell : NodeId} (kind : f.name cell = cellName) : f.name cell ∉ [runName,main "rPr"] := by
    rw [kind]
    decide
  have same (cell : NodeId) (kind : f.name cell = cellName) :
      g.properties cell "tcPr" = f.properties cell "tcPr" := by
    refine bolds.alters.properties_eq acyclic (f.lt_size_of_main kind) (free kind) fun look found => ?_
    rw [name_of_childNamed? found]
    decide
  refine ⟨⟨bolds.alters.mono fun id _ kind => ?_,fun cell kind => ?_,fun cell kind => ?_⟩,
    fun fill cell kind filled => ?_⟩
  · exact List.mem_cons_of_mem _ (List.mem_cons_of_mem _ kind)
  · exact .inl (bolds.alters.childrenNamed_eq acyclic (f.lt_size_of_main kind) (free kind) _)
  · rw [same cell kind]
    exact .of_same fun id member => bolds.alters.name_eq (lt_size_of_mem_properties acyclic member)
  · rw [same cell kind]
    exact filled.of_same bolds.alters fun id => lt_size_of_mem_properties acyclic

section
variable {f g : Forest} {cell look : NodeId} {fill : String}

theorem restyled_of_found (acyclic : f.Acyclic) (kind : f.name cell = cellName)
    (found : Found f g cell "tcPr" look) : Restyled f g ∧ Keeps fill f g := by
  have same (cell' : NodeId) (kind' : f.name cell' = cellName) :
      g.properties cell' "tcPr" = f.properties cell' "tcPr" :=
    found.properties_eq acyclic (by rw [kind]; decide) (f.lt_size_of_main kind')
  refine ⟨⟨found.alters.mono fun id _ here => by simp [here,kind,styledNames],fun cell' kind' => ?_,
    fun cell' kind' => ?_⟩,?_⟩
  · by_cases here : cell' = cell
    · subst here
      exact found.looks.imp_right fun both => ⟨both.1,look,both.2⟩
    · exact .inl (found.alters.childrenNamed_eq acyclic (f.lt_size_of_main kind') here _)
  · rw [same cell' kind']
    exact .of_same fun id member => found.alters.name_eq (lt_size_of_mem_properties acyclic member)
  · intro cell' kind' filled
    rw [same cell' kind']
    exact filled.of_same found.alters fun id => lt_size_of_mem_properties acyclic

/-- The shadings among the children of an element are replaced by one. -/
theorem restyled_of_reshaded (acyclic : f.Acyclic) (kind : f.name look = main "tcPr")
    (alters : Alters (· = look) f g) (reshaded : Reshaded f g (f.children look) (g.children look))
    (filled : Filled g (g.children look) fill) : Restyled f g ∧ Keeps fill f g := by
  have other (cell : NodeId) (kind' : f.name cell = cellName) : cell ≠ look := fun same =>
    absurd ((same ▸ kind').symm.trans kind) (by decide)
  have cases_of (cell : NodeId) (kind' : f.name cell = cellName) :=
    alters.properties_cases acyclic (f.lt_size_of_main kind') (other cell kind') "tcPr"
  refine ⟨⟨alters.mono fun id _ here => by simp [here,kind,styledNames],fun cell kind' => ?_,
    fun cell kind' => ?_⟩,?_⟩
  · exact .inl (alters.childrenNamed_eq acyclic (f.lt_size_of_main kind') (other cell kind') _)
  · rcases cases_of cell kind' with left | ⟨theirs,theirs'⟩
    · rw [left]
      exact .of_same fun id member => alters.name_eq (lt_size_of_mem_properties acyclic member)
    · rw [theirs,theirs']
      exact reshaded
  · intro cell kind' filled'
    rcases cases_of cell kind' with left | ⟨-,theirs⟩
    · rw [left]
      exact filled'.of_same alters fun id => lt_size_of_mem_properties acyclic
    · rw [theirs]
      exact filled

theorem restyled_shade (acyclic : f.Acyclic) (kind : f.name cell = cellName) (fill : String) :
    Restyled f (shade f cell fill) ∧ Keeps fill f (shade f cell fill) ∧
      Filled (shade f cell fill) ((shade f cell fill).properties cell "tcPr") fill := by
  have inside := f.lt_size_of_main kind
  have found := found_firstOrNew acyclic inside "tcPr"
  unfold shade
  generalize f.firstOrNew cell "tcPr" = pair at found ⊢
  obtain ⟨look,g⟩ := pair
  dsimp only at found ⊢
  have acyclic' := found.alters.acyclic
  have inside' := g.lt_size_of_main found.name_eq
  obtain ⟨cleared,left⟩ := alters_foldl_detach acyclic' inside' (g.childrenNamed look (main "shd"))
  rw [childrenNamed,diff_filter] at left
  obtain ⟨before,after,placed⟩ := exists_placed cleared.acyclic (Nat.lt_of_lt_of_le inside' cleared.size_le)
    { name := main "shd", attributes := [(main "val","clear"),(main "color","auto"),(main "fill",fill)] } afterShading
  have bare := Nat.lt_of_lt_of_le inside' cleared.size_le
  obtain ⟨reshaded,one⟩ := reshaded_of_placed acyclic' inside' cleared left rfl rfl placed
  have alters := cleared.trans (placed.alters bare cleared.acyclic rfl) fun _ _ here => here
  have filled : Filled _ _ fill := ⟨_,one,by rw [attribute?,placed.node_eq bare]; rfl⟩
  obtain ⟨first,keeps⟩ := restyled_of_found acyclic kind found
  obtain ⟨second,keeps'⟩ := restyled_of_reshaded acyclic' found.name_eq alters reshaded filled
  refine ⟨first.trans second,keeps.trans first keeps',?_⟩
  rw [fst_add,found.properties_of_alters alters inside (by rw [kind]; decide)]
  exact filled

end

theorem restyled_foldl_shade {f : Forest} (acyclic : f.Acyclic) {cells : List NodeId}
    (kind : ∀ cell ∈ cells, f.name cell = cellName) (fill : String) :
    Restyled f (cells.foldl (fun f cell => shade f cell fill) f) ∧
      Keeps fill f (cells.foldl (fun f cell => shade f cell fill) f) ∧
      ∀ cell ∈ cells, Filled (cells.foldl (fun f cell => shade f cell fill) f)
        ((cells.foldl (fun f cell => shade f cell fill) f).properties cell "tcPr") fill := by
  induction cells generalizing f with
  | nil => exact ⟨.refl acyclic,fun _ _ filled => filled,nofun⟩
  | cons cell cells ih =>
    obtain ⟨here,later⟩ := List.forall_mem_cons.mp kind
    obtain ⟨first,keeps,filled⟩ := restyled_shade acyclic here fill
    rw [List.foldl_cons]
    generalize shade f cell fill = g at first keeps filled ⊢
    obtain ⟨second,keeps',others⟩ := ih first.alters.acyclic fun id member => first.alters.named (later id member)
    have shaded := keeps' cell (first.alters.named here) filled
    exact ⟨first.trans second,keeps.trans first keeps',List.forall_mem_cons.mpr ⟨shaded,others⟩⟩

theorem styleRow_of_isUnknown {s : Settings} {style : String} (unknown : isUnknown s style = true) (f : Forest)
    (row : NodeId) : styleRow s f row style = f := by
  simp only [isUnknown,Bool.and_eq_true,Option.isNone_iff_eq_none,bne_iff_ne] at unknown
  simp [styleRow,unknown]

theorem restyled_styleRow (s : Settings) {f : Forest} (acyclic : f.Acyclic) (row : NodeId) (style : String) :
    Restyled f (styleRow s f row style) ∧
      (s.rowFills.lookup style = none → ∀ fill, Keeps fill f (styleRow s f row style)) ∧
      ∀ fill, s.rowFills.lookup style = some fill → ∀ cell ∈ f.childrenNamed row cellName,
        Filled (styleRow s f row style) ((styleRow s f row style).properties cell "tcPr") fill := by
  have kind : ∀ cell ∈ f.childrenNamed row cellName, f.name cell = cellName := fun cell member =>
    eq_of_beq (List.mem_filter.mp member).2
  unfold styleRow
  cases s.rowFills.lookup style with
  | some fill =>
    obtain ⟨restyled,-,filled⟩ := restyled_foldl_shade acyclic kind fill
    exact ⟨restyled,nofun,fun _ same => Option.some.inj same ▸ filled⟩
  | none =>
    dsimp only
    split
    · obtain ⟨bolds,-⟩ := bolds_emboldenAll acyclic (f.childrenNamed row cellName)
      obtain ⟨restyled,keeps⟩ := restyled_of_bolds acyclic bolds
      exact ⟨restyled,fun _ => keeps,nofun⟩
    · exact ⟨.refl acyclic,fun _ _ _ _ filled => filled,nofun⟩

/-- The colour of the last style that has one. -/
def lastFill (s : Settings) (styles : List String) : Option String :=
  (styles.filterMap fun style => s.rowFills.lookup style).getLast?

theorem lastFill_concat (s : Settings) (styles : List String) (style : String) :
    lastFill s (styles ++ [style]) = (s.rowFills.lookup style).or (lastFill s styles) := by
  rw [lastFill,lastFill,List.filterMap_append]
  cases known : s.rowFills.lookup style with
  | none => simp only [List.filterMap_cons,known,List.filterMap_nil,List.append_nil,Option.none_or]
  | some fill => simp only [List.filterMap_cons,known,List.filterMap_nil,List.getLast?_concat,Option.some_or]

/-- What styles do to a cell of a row. -/
structure Styled (f g : Forest) (cell : NodeId) (last : Option String) : Prop where
  reshaded : Reshaded f g (f.properties cell "tcPr") (g.properties cell "tcPr")
  completes : Completes (f.childrenNamed cell (main "tcPr")) (g.childrenNamed cell (main "tcPr"))
  filled : ∀ fill, last = some fill → Filled g (g.properties cell "tcPr") fill

/-- Styles are given to a row one after the other. -/
def styleAll (s : Settings) (f : Forest) (row : NodeId) (styles : List String) : Forest :=
  styles.foldl (fun f style => styleRow s f row style) f

section
variable (s : Settings) {f : Forest} {row : NodeId} (acyclic : f.Acyclic) (kind : f.name row = rowName)
  (styles : List String)
include acyclic kind

/-- What holds after each style holds after all of them. -/
theorem restyled_styleAll : Restyled f (styleAll s f row styles) ∧
    (styleAll s f row styles).childrenNamed row cellName = f.childrenNamed row cellName ∧
    ∀ cell ∈ f.childrenNamed row cellName, ∀ fill, lastFill s styles = some fill →
      Filled (styleAll s f row styles) ((styleAll s f row styles).properties cell "tcPr") fill := by
  induction styles using List.reverseRecOn with
  | nil => exact ⟨.refl acyclic,rfl,fun _ _ _ impossible => nomatch impossible⟩
  | append_singleton styles style ih =>
    obtain ⟨restyled,cells_eq,filled⟩ := ih
    have last_step : styleAll s f row (styles ++ [style]) = styleRow s (styleAll s f row styles) row style := by
      simp only [styleAll,List.foldl_append,List.foldl_cons,List.foldl_nil]
    rw [last_step,lastFill_concat]
    generalize styleAll s f row styles = g at restyled cells_eq filled ⊢
    obtain ⟨step,keeps,fills⟩ := restyled_styleRow s restyled.alters.acyclic row style
    have kind' : g.name row = rowName := restyled.alters.named kind
    have cells_eq' := step.alters.childrenNamed_eq restyled.alters.acyclic (g.lt_size_of_main kind')
      (by rw [kind']; decide) cellName
    refine ⟨restyled.trans step,cells_eq'.trans cells_eq,fun cell member fill last => ?_⟩
    have cell_kind : g.name cell = cellName := restyled.alters.named (eq_of_beq (List.mem_filter.mp member).2)
    cases known : s.rowFills.lookup style with
    | some fill' =>
      rw [known,Option.some_or] at last
      exact Option.some.inj last ▸ fills fill' known cell (cells_eq ▸ member)
    | none =>
      rw [known,Option.none_or] at last
      exact keeps known fill cell cell_kind (filled cell member fill last)

/-- Whatever styles a row is given, its cells keep their properties in their order but for shadings. If one of the
styles has a colour, every cell has one shading in the end, of the last such colour. Unknown styles do nothing. -/
theorem styleAll_styled : Alters (fun id => f.name id ∈ styledNames) f (styleAll s f row styles) ∧
    (styleAll s f row styles).childrenNamed row cellName = f.childrenNamed row cellName ∧
    (∀ cell ∈ f.childrenNamed row cellName, Styled f (styleAll s f row styles) cell (lastFill s styles)) ∧
    ∀ style, isUnknown s style = true → ∀ (g : Forest) (row' : NodeId), styleRow s g row' style = g := by
  obtain ⟨restyled,cells_eq,filled⟩ := restyled_styleAll s acyclic kind styles
  refine ⟨restyled.alters,cells_eq,fun cell member => ?_,fun style unknown => styleRow_of_isUnknown unknown⟩
  have cell_kind : f.name cell = cellName := eq_of_beq (List.mem_filter.mp member).2
  exact ⟨restyled.reshaded cell cell_kind,restyled.completes cell cell_kind,filled cell member⟩

end

/-- A row with two cells, the first of which has two shadings among other properties. -/
private def palette : Forest :=
  ⟨#[⟨rowName,[],none,[1,2],none⟩,⟨cellName,[],none,[3,4],none⟩,⟨cellName,[],none,[],none⟩,
    ⟨main "tcPr",[],none,[5,6,7,8,9],none⟩,⟨runName,[],none,[],none⟩,⟨main "tcW",[],none,[],none⟩,
    ⟨main "shd",[],none,[],none⟩,⟨.bare "custom",[],none,[],none⟩,⟨main "shd",[],none,[],none⟩,
    ⟨main "vAlign",[],none,[],none⟩]⟩

theorem styleAll_styled_palette : palette.Acyclic ∧ palette.name 0 = rowName ∧ isUnknown {} "purple" = true ∧
    Styled palette (styleAll {} palette 0 ["bold","red","purple","green","bold"]) 1 (some "00FF00") ∧
    Styled palette (styleAll {} palette 0 ["bold","red","purple","green","bold"]) 2 (some "00FF00") := by
  have acyclic : palette.Acyclic := acyclic_of_rising (by decide)
  have kind : palette.name 0 = rowName := rfl
  have last : lastFill {} ["bold","red","purple","green","bold"] = some "00FF00" := by decide
  obtain ⟨-,-,styled,-⟩ := styleAll_styled {} acyclic kind ["bold","red","purple","green","bold"]
  rw [last] at styled
  exact ⟨acyclic,kind,rfl,styled 1 (by decide),styled 2 (by decide)⟩

end MailMerge.Table
