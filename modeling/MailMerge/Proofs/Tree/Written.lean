import MailMerge.Proofs.Tree.Paths
import MailMerge.Proofs.Xml.Attributes
import MailMerge.Tree.Text

/-! Writing the text of a paragraph. The text goes into the first text element and the others are
emptied; only these change, and only a paragraph without any gets a run. The elements are listed run by
run, so that one inside two runs is listed twice: if that is the first one, it is emptied after it was
written, and the paragraph ends up without text.
-/
namespace MailMerge.Forest
open Xml Docx

/-- A forest in which some elements have another text, and with it another keeping of blanks. -/
structure Retexted (f g : Forest) (place : NodeId → Prop) : Prop where
  size_eq : g.nodes.size = f.nodes.size
  node_eq : ∀ n, ¬ place n → g.node n = f.node n
  name_eq : ∀ n, g.name n = f.name n
  children_eq : ∀ n, g.children n = f.children n
  tail_eq : ∀ n, (g.node n).tail = (f.node n).tail
  attribute?_eq : ∀ n name, name ≠ keepBlanksName → g.attribute? n name = f.attribute? n name

variable {f g h : Forest} {place place' : NodeId → Prop} {id p : NodeId} {text : String}

namespace Retexted

theorem refl (f : Forest) (place : NodeId → Prop) : Retexted f f place :=
  ⟨rfl,fun _ _ => rfl,fun _ => rfl,fun _ => rfl,fun _ => rfl,fun _ _ _ => rfl⟩

theorem trans (first : Retexted f g place) (second : Retexted g h place) : Retexted f h place where
  size_eq := second.size_eq.trans first.size_eq
  node_eq n aside := (second.node_eq n aside).trans (first.node_eq n aside)
  name_eq n := (second.name_eq n).trans (first.name_eq n)
  children_eq n := (second.children_eq n).trans (first.children_eq n)
  tail_eq n := (second.tail_eq n).trans (first.tail_eq n)
  attribute?_eq n name other :=
    (second.attribute?_eq n name other).trans (first.attribute?_eq n name other)

theorem mono (retexted : Retexted f g place) (more : ∀ n, place n → place' n) :
    Retexted f g place' where
  __ := retexted
  node_eq n aside := retexted.node_eq n fun here => aside (more n here)

theorem tree_eq (retexted : Retexted f g place) (id : NodeId) : g.tree id = f.tree id :=
  tree_of_children_eq retexted.size_eq retexted.children_eq id

theorem named_eq (retexted : Retexted f g place) (id : NodeId) (name : Name) :
    g.named id name = f.named id name := by
  simp only [named,retexted.tree_eq,retexted.name_eq]

theorem below_eq (retexted : Retexted f g place) : g.Below = f.Below := by
  have same : g.Child = f.Child := by
    funext parent child
    rw [Child,Child,retexted.children_eq]
  unfold Below
  rw [same]

theorem textElements_eq (retexted : Retexted f g place) (id : NodeId) :
    g.textElements id = f.textElements id := by
  simp only [textElements,retexted.named_eq]

end Retexted

theorem retexted_setText (f : Forest) (id : NodeId) (text : String) :
    Retexted f (f.setText id text) (· = id) where
  size_eq := by simp [setText]
  node_eq n other := node_update_of_ne _ _ other
  name_eq n := f.name_update id n fun _ => rfl
  children_eq n := f.children_update id n fun _ => rfl
  tail_eq n := by
    simp only [setText,node_update]
    split <;> rfl
  attribute?_eq n name other := by
    simp only [attribute?,setText,node_update]
    split
    · simp only
      split
      · exact Attributes.get?_erase_of_ne _ other
      · split
        · simp [Attributes.get?_set,other]
        · rfl
    · rfl

theorem ownText_setText (f : Forest) (id n : NodeId) (text : String) :
    (f.setText id text).ownText n = if n = id ∧ n < f.nodes.size then text else f.ownText n := by
  simp only [ownText,Forest.text,setText,node_update]
  split <;> rfl

/-- A text that begins or ends with a blank has its blanks kept. -/
theorem attribute?_setText (inside : id < f.nodes.size) (blank : hasOuterBlank text = true) :
    (f.setText id text).attribute? id keepBlanksName = some "preserve" := by
  have some : (text == "") = false := by
    rw [beq_eq_false_iff_ne]
    rintro rfl
    exact absurd blank (by decide)
  simp [attribute?,setText,node_update,inside,some,blank,Attributes.get?_set]

theorem retexted_clear (f : Forest) (ids : List NodeId) :
    Retexted f (ids.foldl (fun f id => f.setText id "") f) (· ∈ ids) := by
  induction ids generalizing f with
  | nil => exact Retexted.refl f _
  | cons id ids ih =>
    have first : Retexted f (f.setText id "") (· ∈ id :: ids) :=
      (retexted_setText f id "").mono fun n here => here ▸ List.mem_cons_self
    exact first.trans ((ih (f.setText id "")).mono fun _ => List.mem_cons_of_mem id)

theorem ownText_clear (f : Forest) (ids : List NodeId) (n : NodeId) :
    (ids.foldl (fun f id => f.setText id "") f).ownText n =
      if n ∈ ids ∧ n < f.nodes.size then "" else f.ownText n := by
  induction ids generalizing f with
  | nil => simp
  | cons id ids ih =>
    rw [List.foldl_cons,ih,ownText_setText,(retexted_setText f id "").size_eq]
    grind

/-- Writing into text elements changes these only. -/
theorem retexted_writeText (f : Forest) (p : NodeId) {elements : List NodeId}
    (some : elements ≠ []) (text : String) :
    Retexted f (f.writeText p elements text) (· ∈ elements) := by
  obtain ⟨first,others,rfl⟩ := List.exists_cons_of_ne_nil some
  exact ((retexted_setText f first text).mono fun _ here => here ▸ List.mem_cons_self).trans
    ((retexted_clear _ others).mono fun _ => List.mem_cons_of_mem first)

/-- The first text element of a paragraph stands in two of the paragraph's runs. -/
def Wrapped (f : Forest) (p : NodeId) : Prop :=
  ∃ first others, f.textElements p = first :: others ∧ ∃ r r' : NodeId, r ≠ r' ∧
    f.Below p r ∧ f.name r = runName ∧ f.Below r first ∧
      f.Below p r' ∧ f.name r' = runName ∧ f.Below r' first

/-- What a forest is after a text was written into a paragraph. -/
structure Written (f : Forest) (p : NodeId) (text : String) (g : Forest) : Prop where
  paragraphText_eq : ¬ f.Wrapped p → g.paragraphText p = text.toList
  paragraphText_eq_nil : f.Wrapped p → g.paragraphText p = []
  held : ¬ f.Wrapped p → ∃ n ∈ g.textElements p, g.ownText n = text ∧
    (hasOuterBlank text = true → g.attribute? n keepBlanksName = some "preserve") ∧
      ∀ m ∈ g.textElements p, m ≠ n → g.ownText m = ""
  filled : f.textElements p ≠ [] → Retexted f g (· ∈ f.textElements p)
  extended : f.textElements p = [] → ∃ run : Nat, f.nodes.size ≤ run ∧
    g.element run = textRun text ∧ g.node p = { f.node p with children := f.children p ++ [run] } ∧
      ∀ n : Nat, n < f.nodes.size → n ≠ p → g.node n = f.node n

variable {α : Type} {owner : NodeId → α} {level : NodeId → Nat}

section
variable {owner' : NodeId → α} {level' : NodeId → Nat} {keep : NodeId → Prop}
  (sorted : f.Sorted owner level) (sorted' : g.Sorted owner' level')
  (closed : ∀ n, keep n → ∀ child ∈ f.children n, keep child)
  (same : ∀ n, keep n → g.node n = f.node n) {id : NodeId} (kept : keep id)
include sorted closed kept

theorem keep_of_mem_tree {n : NodeId} (member : n ∈ f.tree id) : keep n := by
  have path := (mem_tree_iff sorted).mp member
  induction path with
  | refl => exact kept
  | tail path here ih => exact closed _ (ih ((mem_tree_iff sorted).mpr path)) _ here

include sorted' same

theorem named_congr (name : Name) : g.named id name = f.named id name := by
  rw [named,named,tree_congr sorted sorted' closed same id kept]
  refine List.filter_congr fun n member => ?_
  rw [Forest.name,same n (keep_of_mem_tree sorted closed kept member),Forest.name]

theorem textElements_congr : g.textElements id = f.textElements id := by
  rw [textElements,textElements,named_congr sorted sorted' closed same kept]
  exact List.flatMap_congr fun run member => named_congr sorted sorted' closed same
    (keep_of_mem_tree sorted closed kept (mem_named.mp member).1) textName

/-- The text of a paragraph depends on what is below it only. -/
theorem paragraphText_congr : g.paragraphText id = f.paragraphText id := by
  have within {n : NodeId} {name : Name} {top : NodeId} (kept : keep top)
      (member : n ∈ f.named top name) : keep n :=
    keep_of_mem_tree sorted closed kept (mem_named.mp member).1
  have elements := textElements_congr sorted sorted' closed same kept
  rw [paragraphText,paragraphText,elements,joinedText,joinedText]
  refine List.flatMap_congr fun n member => ?_
  obtain ⟨run,above,member⟩ := List.mem_flatMap.mp member
  rw [ownText,Forest.text,same n (within (within kept above) member)]
  rfl

end

/-- Of lists without repetitions put one after the other, the first item comes again if it is in two of
them. -/
private theorem first_again_iff {β γ : Type} {lists : β → List γ} {items : List β}
    (distinct : items.Nodup) (each : ∀ b ∈ items, (lists b).Nodup) {first : γ} {others : List γ}
    (split : items.flatMap lists = first :: others) : first ∈ others ↔
      ∃ a ∈ items, ∃ b ∈ items, a ≠ b ∧ first ∈ lists a ∧ first ∈ lists b := by
  induction items with
  | nil => simp at split
  | cons item items ih =>
    obtain ⟨absent,distinct⟩ := List.nodup_cons.mp distinct
    rw [List.flatMap_cons] at split
    cases here : lists item with
    | nil =>
      rw [here,List.nil_append] at split
      rw [ih distinct (fun b member => each b (List.mem_cons_of_mem _ member)) split]
      constructor
      · rintro ⟨a,member,b,member',rest⟩
        exact ⟨a,List.mem_cons_of_mem _ member,b,List.mem_cons_of_mem _ member',rest⟩
      · rintro ⟨a,member,b,member',different,inside,inside'⟩
        have other {c : β} (member : c ∈ item :: items) (inside : first ∈ lists c) : c ∈ items := by
          rcases List.mem_cons.mp member with rfl | member
          · simp [here] at inside
          · exact member
        exact ⟨a,other member inside,b,other member' inside',different,inside,inside'⟩
    | cons front rest =>
      rw [here,List.cons_append,List.cons.injEq] at split
      obtain ⟨rfl,rfl⟩ := split
      have nodup := each item List.mem_cons_self
      rw [here,List.nodup_cons] at nodup
      rw [List.mem_append,or_iff_right nodup.1,List.mem_flatMap]
      constructor
      · rintro ⟨b,member,inside⟩
        refine ⟨item,List.mem_cons_self,b,List.mem_cons_of_mem _ member,?_,?_,inside⟩
        · rintro rfl
          exact absent member
        · exact here ▸ List.mem_cons_self
      · rintro ⟨a,member,b,member',different,inside,inside'⟩
        rcases List.mem_cons.mp member with rfl | member
        · exact ⟨b,(List.mem_cons.mp member').resolve_left different.symm,inside'⟩
        · exact ⟨a,member,inside⟩

section
variable (sorted : f.Sorted owner level)
include sorted

/-- The text elements of a paragraph are those inside its runs. -/
theorem mem_textElements_iff {n : NodeId} : n ∈ f.textElements p ↔ f.name n = textName ∧
    ∃ run, f.Below p run ∧ f.name run = runName ∧ f.Below run n := by
  simp only [textElements,List.mem_flatMap,mem_named_iff sorted]
  constructor
  · rintro ⟨run,⟨path,kind⟩,path',named⟩
    exact ⟨named,run,path,kind,path'⟩
  · rintro ⟨named,run,path,kind,path'⟩
    exact ⟨run,⟨path,kind⟩,path',named⟩

theorem lt_size_of_mem_textElements {n : NodeId} (member : n ∈ f.textElements p) :
    n < f.nodes.size := by
  obtain ⟨named,_⟩ := (mem_textElements_iff sorted).mp member
  exact f.lt_size_of_name named (by decide)

/-- The first text element of a paragraph is listed again if it stands in two runs. -/
theorem wrapped_iff (branching : f.Branching) {first : NodeId} {others : List NodeId}
    (split : f.textElements p = first :: others) : f.Wrapped p ↔ first ∈ others := by
  have named : f.name first = textName :=
    ((mem_textElements_iff sorted).mp (split ▸ List.mem_cons_self)).1
  rw [first_again_iff (nodup_named sorted branching p runName)
    (fun run _ => nodup_named sorted branching run textName) split]
  constructor
  · rintro ⟨first',others',split',r,r',different,path,kind,inside,path',kind',inside'⟩
    obtain ⟨rfl,rfl⟩ := List.cons.inj (split.symm.trans split')
    exact ⟨r,(mem_named_iff sorted).mpr ⟨path,kind⟩,r',(mem_named_iff sorted).mpr ⟨path',kind'⟩,
      different,(mem_named_iff sorted).mpr ⟨inside,named⟩,(mem_named_iff sorted).mpr ⟨inside',named⟩⟩
  · rintro ⟨r,member,r',member',different,inside,inside'⟩
    obtain ⟨path,kind⟩ := (mem_named_iff sorted).mp member
    obtain ⟨path',kind'⟩ := (mem_named_iff sorted).mp member'
    exact ⟨first,others,split,r,r',different,path,kind,((mem_named_iff sorted).mp inside).1,
      path',kind',((mem_named_iff sorted).mp inside').1⟩

private theorem written_cons (branching : f.Branching) {first : NodeId} {others : List NodeId}
    (split : f.textElements p = first :: others) (text : String) :
    f.Written p text (f.setParagraphText p text) := by
  have inside {n : NodeId} (member : n ∈ first :: others) : n < f.nodes.size :=
    lt_size_of_mem_textElements sorted (split ▸ member)
  have result : f.setParagraphText p text =
      others.foldl (fun f id => f.setText id "") (f.setText first text) := by
    simp only [setParagraphText,split,writeText]
  have retexted : Retexted f (f.setParagraphText p text) (· ∈ first :: others) := by
    rw [setParagraphText,split]
    exact f.retexted_writeText p (List.cons_ne_nil first others) text
  have elements : (f.setParagraphText p text).textElements p = first :: others := by
    rw [retexted.textElements_eq,split]
  have own {n : NodeId} (member : n ∈ first :: others) : (f.setParagraphText p text).ownText n =
      if n ∈ others then "" else text := by
    have here : n ∉ others → n = first := fun absent => (List.mem_cons.mp member).resolve_right absent
    rw [result,ownText_clear,(retexted_setText f first text).size_eq,ownText_setText]
    by_cases again : n ∈ others
    · rw [if_pos ⟨again,inside member⟩,if_pos again]
    · rw [if_neg fun both => again both.1,if_pos ⟨here again,inside member⟩,if_neg again]
  have rest : (f.setParagraphText p text).joinedText others = [] := by
    refine List.flatMap_eq_nil_iff.mpr fun n member => ?_
    rw [own (List.mem_cons_of_mem _ member),if_pos member]
    rfl
  have joined : (f.setParagraphText p text).paragraphText p =
      ((f.setParagraphText p text).ownText first).toList := by
    rw [paragraphText,elements,joinedText,List.flatMap_cons]
    exact (congrArg _ rest).trans (List.append_nil _)
  have first_own := own (n := first) List.mem_cons_self
  have wrapped := wrapped_iff sorted branching split
  refine ⟨fun plain => ?_,fun twice => ?_,fun plain => ?_,fun _ => split ▸ retexted,?_⟩
  · rw [joined,first_own,if_neg fun again => plain (wrapped.mpr again)]
  · rw [joined,first_own,if_pos (wrapped.mp twice)]
    rfl
  · have once : first ∉ others := fun again => plain (wrapped.mpr again)
    rw [elements]
    refine ⟨first,List.mem_cons_self,by rw [first_own,if_neg once],fun blank => ?_,?_⟩
    · rw [attribute?,result,(retexted_clear _ others).node_eq first once]
      exact attribute?_setText (inside List.mem_cons_self) blank
    · intro m member other
      rw [own member,if_pos ((List.mem_cons.mp member).resolve_left other)]
  · intro none
    exact absurd (split.symm.trans none) (List.cons_ne_nil _ _)

/-- What is below an element is listed child by child. -/
private theorem named_of_other {name : Name} (other : f.name p ≠ name) :
    f.named p name = (f.children p).flatMap (f.named · name) := by
  simp only [named]
  rw [tree_eq sorted p,List.filter_cons_of_neg (by simpa using other),List.filter_flatMap]

/-- What is listed below an element that is under another does not depend on the other. -/
private theorem named_congr_of_deeper {owner' : NodeId → α} {level' : NodeId → Nat}
    (sorted' : g.Sorted owner' level')
    (node_eq : ∀ n : Nat, n < f.nodes.size → n ≠ p → g.node n = f.node n) {c : Nat}
    (inside : c < f.nodes.size) (deeper : level p < level c) (name : Name) :
    g.named c name = f.named c name := by
  let keep (n : Nat) : Prop := n < f.nodes.size ∧ level p < level n
  have kept : keep c := ⟨inside,deeper⟩
  refine named_congr sorted sorted' ?_ ?_ kept name
  · intro n kept child here
    obtain ⟨bound,_,further⟩ := sorted.below n child here
    exact ⟨bound,Nat.lt_trans kept.2 further⟩
  · intro n kept
    refine node_eq n kept.1 ?_
    rintro rfl
    exact Nat.lt_irrefl _ kept.2

omit sorted in
private theorem plant_textRun (f : Forest) (text : String) : f.plant (textRun text) =
    (f.nodes.size + 1,((f.add ⟨textName,textAttributes text,some text,[],none⟩).2.add
      ⟨runName,[],none,[f.nodes.size],none⟩).2) := by
  have planted : f.plant (textRun text) = (f.add ⟨textName,textAttributes text,some text,[],none⟩).2.add
      ⟨runName,[],none,[f.nodes.size],none⟩ := by
    simp [plant,plantAll,textRun,textElement,Element.node,Element.leaf]
  rw [planted]
  exact Prod.ext (size_add f _) rfl

/-- A run with a text at the end of a paragraph is all that was added, and it stands for what was
planted. -/
private theorem sorted_append_textRun (small : p < f.nodes.size) (text : String)
    (g : Forest) (result : g = (f.plant (textRun text)).2.append p (f.nodes.size + 1)) :
    (∃ (owner' : NodeId → α) (level' : NodeId → Nat), g.Sorted owner' level') ∧
      g.element (f.nodes.size + 1) = textRun text ∧
      g.node p = { f.node p with children := f.children p ++ [f.nodes.size + 1] } ∧
      g.node (f.nodes.size + 1) = ⟨runName,[],none,[f.nodes.size],none⟩ ∧
      g.node f.nodes.size = ⟨textName,textAttributes text,some text,[],none⟩ ∧
      ∀ n : Nat, n < f.nodes.size → n ≠ p → g.node n = f.node n := by
  obtain ⟨grown,large,last⟩ := grown_plant f (textRun text)
  have root : (f.plant (textRun text)).1 = f.nodes.size + 1 := by rw [plant_textRun]
  rw [root] at large last
  let planted := (f.plant (textRun text)).2
  have owned : ownedFrom f.nodes.size owner (owner p) (f.nodes.size + 1) =
      ownedFrom f.nodes.size owner (owner p) p := by
    rw [ownedFrom_of_le large,ownedFrom_of_lt small]
  have deeper : levelFrom f.nodes.size planted.nodes.size level p <
      levelFrom f.nodes.size planted.nodes.size level (f.nodes.size + 1) := by
    have bound := sorted.bounded p small
    rw [levelFrom_of_lt small,levelFrom,if_neg (Nat.not_lt.mpr large)]
    omega
  have sorted' := (sorted.grow grown (owner p)).append (Nat.lt_of_succ_le (Nat.le_of_eq last)) owned
    deeper
  rw [← result] at sorted'
  have node_eq (n : NodeId) : g.node n = if n = p then
      { f.node p with children := f.children p ++ [f.nodes.size + 1] }
        else (f.plant (textRun text)).2.node n := by
    rw [result,append,updateChildren,node_update]
    by_cases same : n = p
    · subst same
      rw [if_pos ⟨rfl,Nat.lt_of_lt_of_le small grown.size_le⟩,if_pos rfl,grown.node_eq n small]
      rfl
    · rw [if_neg fun both => same both.1,if_neg same]
  have new {n : Nat} (new : f.nodes.size ≤ n) : g.node n = (f.plant (textRun text)).2.node n := by
    rw [node_eq,if_neg (Nat.ne_of_gt (Nat.lt_of_lt_of_le small new))]
  refine ⟨⟨_,_,sorted'⟩,?_,by rw [node_eq,if_pos rfl],?_,?_,?_⟩
  · rw [← root]
    exact element_plant sorted' f (textRun text) fun n large _ => new large
  · rw [new large,plant_textRun]
    simp [node_add]
  · rw [new (Nat.le_refl _),plant_textRun]
    simp [node_add]
  · intro n inside other
    rw [node_eq,if_neg other,grown.node_eq n inside]

private theorem written_nil (paragraph : f.name p = paragraphName) (empty : f.textElements p = [])
    (text : String) : f.Written p text (f.setParagraphText p text) := by
  have small : p < f.nodes.size := f.lt_size_of_name paragraph (by decide)
  have result : f.setParagraphText p text =
      (f.plant (textRun text)).2.append p (f.nodes.size + 1) := by
    simp only [setParagraphText,empty,writeText,plant_textRun]
  generalize f.setParagraphText p text = g at result
  obtain ⟨⟨owner',level',sorted'⟩,run_element,paragraph_node,run_node,text_node,old⟩ :=
    sorted_append_textRun sorted small text g result
  have other : f.name p ≠ runName := by
    rw [paragraph]
    decide
  have run_tree : g.tree (f.nodes.size + 1) = [f.nodes.size + 1,f.nodes.size] := by
    rw [tree_eq sorted',children,run_node]
    simp [tree_eq sorted' f.nodes.size,children,text_node]
  have different : textName ≠ runName := by decide
  have runs : g.named p runName = f.named p runName ++ [f.nodes.size + 1] := by
    rw [named_of_other sorted' (by rwa [Forest.name,paragraph_node]),children,paragraph_node,
      List.flatMap_append,named_of_other sorted other]
    congr 1
    · refine List.flatMap_congr fun c here => ?_
      obtain ⟨bound,_,deeper⟩ := sorted.below p c here
      exact named_congr_of_deeper sorted sorted' old bound deeper runName
    · simp [named,run_tree,Forest.name,run_node,text_node,different]
  have elements : g.textElements p = [f.nodes.size] := by
    rw [textElements,runs,List.flatMap_append]
    refine (congrArg₂ _ (List.flatMap_eq_nil_iff.mpr fun r member => ?_) ?_).trans (List.nil_append _)
    · have none := List.flatMap_eq_nil_iff.mp empty r member
      obtain ⟨listed,kind⟩ := mem_named.mp member
      have apart : r ≠ p := fun same => other (same ▸ kind)
      have deeper := sorted.lt_of_transGen ((Relation.reflTransGen_iff_eq_or_transGen.mp
        ((mem_tree_iff sorted).mp listed)).resolve_left apart)
      have bound := (mem_tree sorted listed).2.resolve_left apart
      rw [named_congr_of_deeper sorted sorted' old bound deeper,none]
    · simp [named,run_tree,Forest.name,run_node,text_node,different.symm]
  have own : g.ownText f.nodes.size = text := by
    simp [ownText,Forest.text,text_node]
  have plain : ¬ f.Wrapped p := by
    rintro ⟨first,others,split,_⟩
    exact absurd (empty.symm.trans split) (List.cons_ne_nil _ _).symm
  refine ⟨fun _ => ?_,fun twice => absurd twice plain,fun _ => ?_,fun some => absurd empty some,?_⟩
  · simp [paragraphText,elements,joinedText,own]
  · rw [elements]
    refine ⟨f.nodes.size,List.mem_singleton_self _,own,fun blank => ?_,fun m member other => ?_⟩
    · simp [attribute?,text_node,textAttributes,blank,Attributes.get?]
    · exact absurd (List.mem_singleton.mp member) other
  · exact fun _ => ⟨f.nodes.size + 1,Nat.le_succ _,run_element,paragraph_node,old⟩

/-- What writing a text into a paragraph does. -/
theorem written_setParagraphText (branching : f.Branching) (paragraph : f.name p = paragraphName)
    (text : String) : f.Written p text (f.setParagraphText p text) := by
  cases split : f.textElements p with
  | nil => exact written_nil sorted paragraph split text
  | cons first others => exact written_cons sorted branching split text

end

/-- A paragraph with a drawing in its run, and in the drawing a paragraph whose run has a text. -/
private def boxed : Forest :=
  ⟨#[⟨paragraphName,[],none,[1],none⟩,⟨runName,[],none,[2],none⟩,⟨main "drawing",[],none,[3],none⟩,
    ⟨paragraphName,[],none,[4],none⟩,⟨runName,[],none,[5],none⟩,⟨textName,[],some "a",[],none⟩]⟩

/-- A text that is written into a paragraph with a text box is lost, but it stays in the inner one. -/
theorem written_boxed : boxed.Written 0 "x" (boxed.setParagraphText 0 "x") ∧
    (boxed.setParagraphText 0 "x").paragraphText 0 = [] ∧
      (boxed.setParagraphText 3 "x").paragraphText 0 = ['x','x'] := by
  have below : ∀ parent < 6, ∀ child ∈ boxed.children parent, child = parent + 1 ∧ child < 6 := by decide
  have next {parent child : NodeId} (here : child ∈ boxed.children parent) :
      child = parent + 1 ∧ child < 6 := below parent (boxed.lt_size_of_child here) child here
  have sorted : boxed.Sorted (fun _ => ()) id :=
    ⟨fun parent child here => ⟨(next here).2,rfl,(next here).1 ▸ Nat.lt_succ_self parent⟩,
      fun _ small => small⟩
  have branching : boxed.Branching := by
    refine ⟨fun _ _ here => (next here).2,fun id => ?_,fun a b child here here' => ?_⟩
    · by_cases inside : id < 6
      · exact (by decide : ∀ id < 6, (boxed.children id).Nodup) id inside
      · rw [boxed.children_of_size_le (Nat.le_of_not_lt inside)]
        exact List.nodup_nil
    · exact Nat.succ.inj ((next here).1.symm.trans (next here').1)
  exact ⟨written_setParagraphText sorted branching (by decide) "x",by decide,by decide⟩

end MailMerge.Forest
