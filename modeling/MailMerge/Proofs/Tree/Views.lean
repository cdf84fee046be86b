import MailMerge.Proofs.Tree.Current
import MailMerge.Proofs.Tree.Twins
import MailMerge.Proofs.Tree.Written

/-! Changes of a tree in either order. What was planted later has other numbers in another order, so the
children of an element are seen from before the changes: an element that was there then is itself, and a later
one is what it stands for. So seen, a paragraph gives its place to a list of items, and where it left a cell
without any paragraph, an empty one comes last. Two such changes of one list lead to the same list in either order.
-/
namespace MailMerge
open Xml Docx Relation

/-- A child as it is seen from an earlier forest. -/
inductive Item where
  | old (id : NodeId)
  | new (e : Element)

namespace Item

/-- The item is the former element with a number. -/
def isOld (p : NodeId) : Item → Bool
  | old n => n == p
  | new _ => false

/-- The name of an item, with the names that the former elements had. -/
def name (f₀ : Forest) : Item → Name
  | old n => f₀.name n
  | new e => e.name

variable {p q : NodeId} {i : Item} {now now' items : List Item}

theorem isOld_iff : i.isOld p = true ↔ i = old p := by
  cases i <;> simp [isOld]

/-- Other items come in the place of a former element. -/
def exchange (p : NodeId) (now items : List Item) : List Item :=
  items.flatMap fun i => if i.isOld p then now else [i]

theorem mem_exchange : i ∈ exchange p now items ↔
    (i ∈ items ∧ i ≠ old p) ∨ (i ∈ now ∧ old p ∈ items) := by
  simp only [exchange,List.mem_flatMap]
  constructor
  · rintro ⟨j,member,here⟩
    split at here
    · next same => exact Or.inr ⟨here,isOld_iff.mp same ▸ member⟩
    · next other =>
      obtain rfl := List.mem_singleton.mp here
      exact Or.inl ⟨member,fun same => other (isOld_iff.mpr same)⟩
  · rintro (⟨member,other⟩ | ⟨here,member⟩)
    · exact ⟨i,member,by simp [isOld_iff,other]⟩
    · exact ⟨old p,member,by simp [isOld,here]⟩

theorem exchange_of_notMem (absent : old p ∉ items) : exchange p now items = items := by
  have passed : ∀ i ∈ items, (if i.isOld p then now else [i]) = [i] := by
    intro i member
    refine if_neg fun same => absent ?_
    rwa [← isOld_iff.mp same]
  rw [exchange,List.flatMap_congr passed,List.flatMap_singleton']

theorem exchange_split {before after : List Item} (first : old p ∉ before) (last : old p ∉ after) :
    exchange p now (before ++ old p :: after) = before ++ (now ++ after) := by
  have keep : exchange p now before = before := exchange_of_notMem first
  have keep' : exchange p now after = after := exchange_of_notMem last
  rw [exchange] at keep keep' ⊢
  rw [List.flatMap_append,List.flatMap_cons,keep,keep',isOld,BEq.rfl,if_pos rfl]

/-- Two exchanges that do not bring one another's elements commute. -/
theorem exchange_comm (different : p ≠ q) (apart : old q ∉ now) (apart' : old p ∉ now') :
    exchange p now (exchange q now' items) = exchange q now' (exchange p now items) := by
  have keep : exchange q now' now = now := exchange_of_notMem apart
  have keep' : exchange p now now' = now' := exchange_of_notMem apart'
  induction items with
  | nil => rfl
  | cons i items ih =>
    simp only [exchange,List.flatMap_cons,List.flatMap_append] at ih keep keep' ⊢
    rw [ih]
    refine congrArg (· ++ _) ?_
    by_cases here : i.isOld p = true
    · have passed : ¬ i.isOld q = true := by
        rw [isOld_iff] at here ⊢
        rintro rfl
        exact different (Item.old.inj here).symm
      simp [here,passed,keep]
    · by_cases there : i.isOld q = true
      · simp [here,there,keep']
      · simp [here,there]

end Item

/-- What a paragraph does with its place in the end. -/
inductive Finish where
  | stay
  | leave
  | become (e : Element)

namespace Finish
open Item

/-- What comes in the place of a paragraph. A table in a cell is followed by an empty paragraph. -/
def seats (inCell : Bool) (p : NodeId) : Finish → List Item
  | stay => [old p]
  | leave => []
  | become e => new e :: if inCell then [new (paragraph [])] else []

/-- What comes last when a paragraph has left its place: a cell has a paragraph. -/
def filler (f₀ : Forest) (inCell : Bool) (left : List Item) : Finish → List Item
  | leave => if inCell && !left.any (·.name f₀ == paragraphName) then [new (paragraph [])] else []
  | _ => []

/-- The children of an element when a paragraph among them is finished. -/
def act (f₀ : Forest) (inCell : Bool) (p : NodeId) (x : Finish) (items : List Item) : List Item :=
  exchange p (x.seats inCell p) items ++ x.filler f₀ inCell (exchange p (x.seats inCell p) items)

variable {f₀ : Forest} {inCell : Bool} {p q : NodeId} {left items : List Item}

theorem act_leave : leave.act f₀ inCell p items = exchange p [] items ++
    if inCell && !(exchange p [] items).any (·.name f₀ == paragraphName) then [new (paragraph [])] else [] :=
  rfl

theorem act_become (e : Element) : (become e).act f₀ inCell p items =
    exchange p (new e :: if inCell then [new (paragraph [])] else []) items :=
  List.append_nil _

theorem filler_of_mem (x : Finish) {i : Item} (member : i ∈ left) (kind : i.name f₀ = paragraphName) :
    x.filler f₀ inCell left = [] := by
  have found : left.any (·.name f₀ == paragraphName) = true :=
    List.any_eq_true.mpr ⟨i,member,beq_iff_eq.mpr kind⟩
  cases x <;> simp [filler,found]

theorem notMem_seats (x : Finish) (inCell : Bool) (different : p ≠ q) : old q ∉ x.seats inCell p := by
  cases x <;> cases inCell <;> simp [seats,Ne.symm different]

/-- Another former element has as many places as before. -/
theorem countP_act (x : Finish) (different : p ≠ q) :
    (x.act f₀ inCell p items).countP (·.isOld q) = items.countP (·.isOld q) := by
  have last : (x.filler f₀ inCell (exchange p (x.seats inCell p) items)).countP (·.isOld q) = 0 := by
    cases x <;> simp only [filler,List.countP_nil]
    split <;> rfl
  have none : (x.seats inCell p).countP (·.isOld q) = 0 := by
    refine List.countP_eq_zero.mpr fun i member here => x.notMem_seats inCell different ?_
    rwa [← isOld_iff.mp here]
  rw [act,List.countP_append,last,Nat.add_zero]
  clear last
  induction items with
  | nil => rfl
  | cons i items ih =>
    rw [exchange,List.flatMap_cons,List.countP_append,List.countP_cons,Nat.add_comm]
    refine congrArg₂ _ ih ?_
    split
    · next here =>
      rw [none,if_neg]
      rw [isOld_iff.mp here,isOld_iff]
      exact fun same => different (Item.old.inj same)
    · rw [List.countP_singleton]

/-- When no paragraph is left in a cell, nothing stayed and nothing became a table. -/
private theorem filler_eq (x y : Finish) (kind : f₀.name p = paragraphName) (kind' : f₀.name q = paragraphName)
    (seated : x.seats inCell p ⊆ left) (seated' : y.seats inCell q ⊆ left) :
    x.filler f₀ inCell left = y.filler f₀ inCell left := by
  have of_seat {p : NodeId} {x : Finish} (kind : f₀.name p = paragraphName) (seated : x.seats true p ⊆ left)
      (other : x ≠ leave) : ∃ i ∈ left, i.name f₀ = paragraphName := by
    cases x with
    | stay => exact ⟨old p,seated List.mem_cons_self,kind⟩
    | leave => exact absurd rfl other
    | become e => exact ⟨new (paragraph []),seated (List.mem_cons_of_mem _ List.mem_cons_self),rfl⟩
  cases inCell with
  | false => cases x <;> cases y <;> rfl
  | true =>
    by_cases both : x = leave ∧ y = leave
    · rw [both.1,both.2]
    · have found : ∃ i ∈ left, i.name f₀ = paragraphName := by
        by_cases first : x = leave
        · exact of_seat kind' seated' fun second => both ⟨first,second⟩
        · exact of_seat kind seated first
      obtain ⟨i,member,named⟩ := found
      rw [x.filler_of_mem member named,y.filler_of_mem member named]

/-- Two paragraphs of one list are finished in either order. -/
theorem act_comm (x y : Finish) (different : p ≠ q) (kind : f₀.name p = paragraphName)
    (kind' : f₀.name q = paragraphName) (here : old p ∈ items) (here' : old q ∈ items) :
    x.act f₀ inCell p (y.act f₀ inCell q items) = y.act f₀ inCell q (x.act f₀ inCell p items) := by
  -- the first of them leaves the other paragraph in the list, so that nothing comes last
  have alone {p q : NodeId} (x : Finish) (different : p ≠ q) (kind' : f₀.name q = paragraphName)
      (here' : old q ∈ items) : x.act f₀ inCell p items = exchange p (x.seats inCell p) items := by
    have kept : old q ∈ exchange p (x.seats inCell p) items :=
      mem_exchange.mpr (Or.inl ⟨here',fun same => different (Item.old.inj same).symm⟩)
    rw [act,x.filler_of_mem kept kind',List.append_nil]
  rw [alone x different kind' here',alone y different.symm kind here,act,act]
  have apart : old q ∉ x.seats inCell p := x.notMem_seats inCell different
  have apart' : old p ∉ y.seats inCell q := y.notMem_seats inCell different.symm
  rw [exchange_comm different apart apart']
  refine congrArg _ (filler_eq x y kind kind' (fun i seat => ?_) fun i seat => ?_)
  · refine mem_exchange.mpr (Or.inl ⟨mem_exchange.mpr (Or.inr ⟨seat,here⟩),?_⟩)
    rintro rfl
    exact apart seat
  · refine mem_exchange.mpr (Or.inr ⟨seat,mem_exchange.mpr (Or.inl ⟨here',?_⟩)⟩)
    exact fun same => different (Item.old.inj same).symm

end Finish

namespace Forest

/-- A child as it is seen from an earlier forest. -/
def item (f₀ f : Forest) (id : NodeId) : Item :=
  if id < f₀.nodes.size then .old id else .new (f.element id)

/-- The children of an element as they are seen from an earlier forest. -/
def view (f₀ f : Forest) (id : NodeId) : List Item :=
  (f.children id).map (f₀.item f)

/-- An element without its children. -/
def face (f : Forest) (id : NodeId) : Node :=
  { f.node id with children := [] }

/-- An element came later than an earlier forest. -/
def Later (f₀ f : Forest) (id : NodeId) : Prop :=
  f₀.nodes.size ≤ id ∧ id < f.nodes.size

/-- A forest that came from an earlier one. Former elements have their names, and what came later has only
what came later below it. -/
structure Since (f₀ f : Forest) : Prop where
  acyclic : f.Acyclic
  size_le : f₀.nodes.size ≤ f.nodes.size
  name_eq : ∀ n : Nat, n < f₀.nodes.size → f.name n = f₀.name n
  closed : ∀ n c : Nat, f₀.nodes.size ≤ n → f.Child n c → f₀.nodes.size ≤ c

/-- A forest was changed below one former element and in the faces of former elements. -/
structure Advances (f₀ : Forest) (m : NodeId) (change : NodeId → Node → Node) (f g : Forest) : Prop where
  since : f₀.Since g
  size_le : f.nodes.size ≤ g.nodes.size
  face_eq : ∀ n : Nat, n < f₀.nodes.size → g.face n = change n (f.face n)
  children_eq : ∀ n : Nat, n < f₀.nodes.size → n ≠ m → g.children n = f.children n
  element_eq : ∀ n : Nat, f₀.nodes.size ≤ n → n < f.nodes.size → g.element n = f.element n

variable {f₀ f g h : Forest} {m p : NodeId} {change change' : NodeId → Node → Node}

theorem Since.refl (acyclic : f.Acyclic) : f.Since f where
  acyclic := acyclic
  size_le := Nat.le_refl _
  name_eq _ _ := rfl
  closed n c large here := by simp [Child,f.children_of_size_le large] at here

theorem node_eq_of_face {n : NodeId} (face_eq : g.face n = f.face n) (children_eq : g.children n = f.children n) :
    g.node n = f.node n := by
  unfold face at face_eq
  unfold children at children_eq
  cases here : g.node n
  cases there : f.node n
  simp_all

namespace Advances

theorem refl (since : f₀.Since f) : Advances f₀ m (fun _ n => n) f f :=
  ⟨since,Nat.le_refl _,fun _ _ => rfl,fun _ _ _ => rfl,fun _ _ _ => rfl⟩

theorem trans (first : Advances f₀ m change f g) (second : Advances f₀ m change' g h) :
    Advances f₀ m (fun n node => change' n (change n node)) f h where
  since := second.since
  size_le := Nat.le_trans first.size_le second.size_le
  face_eq n former := by rw [second.face_eq n former,first.face_eq n former]
  children_eq n former other := (second.children_eq n former other).trans (first.children_eq n former other)
  element_eq n large inside := (second.element_eq n large (Nat.lt_of_lt_of_le inside first.size_le)).trans
    (first.element_eq n large inside)

/-- A child that was there already is seen as before. -/
theorem item_eq (advances : Advances f₀ m change f g) {c : NodeId} (inside : c < f.nodes.size) :
    f₀.item g c = f₀.item f c := by
  unfold item
  split
  · rfl
  · next large => rw [advances.element_eq c (Nat.le_of_not_lt large) inside]

theorem map_item (advances : Advances f₀ m change f g) {ids : List NodeId} (inside : ∀ c ∈ ids, c < f.nodes.size) :
    ids.map (f₀.item g) = ids.map (f₀.item f) :=
  List.map_congr_left fun c member => advances.item_eq (inside c member)

theorem view_eq (advances : Advances f₀ m change f g) (since : f₀.Since f) {n : NodeId}
    (same : g.children n = f.children n) : f₀.view g n = f₀.view f n := by
  rw [view,same,advances.map_item fun c here => since.acyclic.inside n c here,view]

end Advances

/-- What came later is the same in two forests that have the same later elements. -/
private theorem element_eq_of_later (since : f₀.Since f) (since' : f₀.Since g)
    (same : ∀ n : Nat, f₀.nodes.size ≤ n → n < f.nodes.size → g.node n = f.node n) {n : NodeId}
    (large : f₀.nodes.size ≤ n) (inside : n < f.nodes.size) : g.element n = f.element n := by
  obtain ⟨_,sorted⟩ := since.acyclic.sorted
  obtain ⟨_,sorted'⟩ := since'.acyclic.sorted
  have closed : ∀ n, f₀.Later f n → ∀ child, f.Child n child → f₀.Later f child := fun n kept child here =>
    ⟨since.closed n child kept.1 here,since.acyclic.inside n child here⟩
  exact element_congr sorted sorted' closed (fun n kept => same n kept.1 kept.2) n ⟨large,inside⟩

/-- What is planted stands apart, and everything else is as it was. -/
theorem advances_plant (since : f₀.Since f) (m : NodeId) (e : Element) :
    Advances f₀ m (fun _ n => n) f (f.plant e).2 := by
  obtain ⟨grown,-,-⟩ := grown_plant f e
  obtain ⟨_,sorted⟩ := since.acyclic.sorted
  have old {n : Nat} (former : n < f₀.nodes.size) : n < f.nodes.size := Nat.lt_of_lt_of_le former since.size_le
  have since' : f₀.Since (f.plant e).2 := by
    refine ⟨(sorted.grow grown ()).acyclic,Nat.le_trans since.size_le grown.size_le,fun n former => ?_,
      fun n c large here => ?_⟩
    · rw [Forest.name,grown.node_eq n (old former)]
      exact since.name_eq n former
    · by_cases inside : n < f.nodes.size
      · rw [Child,grown.children_eq inside] at here
        exact since.closed n c large here
      · exact Nat.le_trans since.size_le (grown.children_new n c (Nat.le_of_not_lt inside) here).1
  refine ⟨since',grown.size_le,fun n former => ?_,fun n former _ => grown.children_eq (old former),
    fun n large inside => ?_⟩
  · rw [face,face,grown.node_eq n (old former)]
  · exact element_eq_of_later since since' (fun n _ inside => grown.node_eq n inside) large inside

/-- The children of a former element are others. -/
theorem advances_children (since : f₀.Since f) (former : m < f₀.nodes.size) {ids : List NodeId}
    (allowed : ∀ c ∈ ids, c ∈ f.children m ∨ f₀.Later f c) :
    Advances f₀ m (fun _ n => n) f (f.updateChildren m fun _ => ids) := by
  have size_eq : (f.updateChildren m fun _ => ids).nodes.size = f.nodes.size := f.size_update m _
  have node_eq {n : Nat} (other : n ≠ m) : (f.updateChildren m fun _ => ids).node n = f.node n :=
    f.node_update_of_ne _ other
  have later {n : Nat} (large : f₀.nodes.size ≤ n) : n ≠ m := fun same =>
    Nat.not_lt.mpr large (same ▸ former)
  have edges {a b : Nat} (here : (f.updateChildren m fun _ => ids).Child a b) :
      f.Child a b ∨ f₀.Later f b := by
    by_cases same : a = m
    · subst same
      rw [Child,children_updateChildren,if_pos ⟨rfl,Nat.lt_of_lt_of_le former since.size_le⟩] at here
      exact allowed b here
    · rw [Child,children,node_eq same] at here
      exact Or.inl here
  have since' : f₀.Since (f.updateChildren m fun _ => ids) := by
    have down {a b : Nat} (large : f₀.nodes.size ≤ a)
        (here : (f.updateChildren m fun _ => ids).Child a b) : f.Child a b ∧ f₀.nodes.size ≤ b := by
      rw [Child,children,node_eq (later large)] at here
      exact ⟨here,since.closed a b large here⟩
    refine ⟨⟨fun a b here => ?_,fun id path => ?_⟩,size_eq.symm ▸ since.size_le,fun n former => ?_,
      fun a b large here => (down large here).2⟩
    · rw [size_eq]
      exact (edges here).elim (since.acyclic.inside a b) And.right
    · -- a path is an old one, or it leads to what came later and stays there
      have cases_of {a b : Nat} (path : TransGen (f.updateChildren m fun _ => ids).Child a b) :
          TransGen f.Child a b ∨ f₀.nodes.size ≤ b := by
        induction path with
        | single here => exact (edges here).imp TransGen.single And.left
        | tail _ here ih =>
          rcases ih with path | large
          · exact (edges here).imp path.tail And.left
          · exact Or.inr (down large here).2
      have below {a b : Nat} (large : f₀.nodes.size ≤ a)
          (path : TransGen (f.updateChildren m fun _ => ids).Child a b) :
          TransGen f.Child a b ∧ f₀.nodes.size ≤ b := by
        induction path with
        | single here => exact ⟨.single (down large here).1,(down large here).2⟩
        | tail _ here ih => exact ⟨ih.1.tail (down ih.2 here).1,(down ih.2 here).2⟩
      rcases cases_of path with old | large
      · exact since.acyclic.irrefl id old
      · exact since.acyclic.irrefl id (below large path).1
    · rw [f.name_updateChildren,since.name_eq n former]
  refine ⟨since',Nat.le_of_eq size_eq.symm,fun n _ => ?_,fun n _ other => ?_,fun n large inside => ?_⟩
  · rw [face,face,updateChildren,node_update]
    split <;> rfl
  · rw [children,node_eq other,children]
  · exact element_eq_of_later since since' (fun n large _ => node_eq (later large)) large inside

/-- The names of items are those of the children. -/
theorem name_item (since : f₀.Since f) (c : NodeId) : (f₀.item f c).name f₀ = f.name c := by
  unfold item
  split
  · next small => exact (since.name_eq c small).symm
  · exact f.name_element c

/-- What is planted is seen as what it was made from. -/
theorem item_plant (since : f₀.Since f) (e : Element) : f₀.item (f.plant e).2 (f.plant e).1 = .new e := by
  obtain ⟨_,sorted⟩ := (advances_plant since 0 e).since.acyclic.sorted
  have large := Nat.le_trans since.size_le (grown_plant f e).2.1
  rw [item,if_neg (Nat.not_lt.mpr large),element_plant sorted f e fun _ _ _ => rfl]

/-- A former element is seen where it stands. -/
private theorem isOld_item (former : p < f₀.nodes.size) (c : NodeId) : (f₀.item f c).isOld p = (c == p) := by
  unfold item
  split
  · rfl
  · next large =>
    refine (beq_eq_false_iff_ne.mpr ?_).symm
    rintro rfl
    exact large former

theorem countP_view (former : p < f₀.nodes.size) :
    (f₀.view f m).countP (·.isOld p) = (f.children m).count p := by
  rw [view,List.countP_map,List.count]
  exact List.countP_congr fun c _ => by simp [isOld_item former]

/-- An element with one place is seen at that place. -/
theorem exists_split (former : p < f₀.nodes.size)
    (once : (f₀.view f m).countP (·.isOld p) = 1) : ∃ before after, f.children m = before ++ p :: after ∧
      p ∉ before ∧ ∀ now, Item.exchange p now (f₀.view f m) =
        before.map (f₀.item f) ++ (now ++ after.map (f₀.item f)) := by
  have count := (countP_view former).symm.trans once
  have member : p ∈ f.children m := List.count_pos_iff.mp (by rw [count]; exact Nat.one_pos)
  obtain ⟨before,after,split,first⟩ := List.eq_append_cons_of_mem member
  have last : p ∉ after := by
    rw [split,List.count_append,List.count_cons_self] at count
    exact List.count_eq_zero.mp (by omega)
  have seen (ids : List NodeId) (absent : p ∉ ids) : Item.old p ∉ ids.map (f₀.item f) := by
    intro member
    obtain ⟨c,here,same⟩ := List.mem_map.mp member
    have same' : c = p := eq_of_beq ((isOld_item former c).symm.trans (Item.isOld_iff.mpr same))
    exact absent (same' ▸ here)
  refine ⟨before,after,split,first,fun now => ?_⟩
  have here : f₀.item f p = .old p := if_pos former
  rw [view,split,List.map_append,List.map_cons,here,Item.exchange_split (seen _ first) (seen _ last)]

/-- What is below a later element came later. -/
theorem large_of_mem_tree (since : f₀.Since f) {a n : NodeId} (large : f₀.nodes.size ≤ a)
    (member : n ∈ f.tree a) : f₀.nodes.size ≤ n := by
  have path := since.acyclic.mem_tree_iff.mp member
  induction path with
  | refl => exact large
  | tail path here ih => exact since.closed _ _ (ih (since.acyclic.mem_tree_iff.mpr path)) here

/-- An index that enters a later element knows the same of former ones. -/
theorem Since.apart_enter (since : f₀.Since f) (ix : Index) (parent : NodeId) {new : NodeId}
    (large : f₀.nodes.size ≤ new) (q : NodeId) : (ix.enter f parent new).Apart ix f₀.nodes.size q :=
  Index.apart_enter large fun n member child here =>
    since.closed n child (large_of_mem_tree since large member) here

/-- An element that gets a text. -/
def retext (text : String) (n : Node) : Node :=
  { n with
    text := some text
    attributes :=
      if text == "" then n.attributes.erase keepBlanksName
      else if hasOuterBlank text then n.attributes.set keepBlanksName "preserve"
      else n.attributes }

/-- What writing a text into some elements makes of an element. -/
def wording (elements : List NodeId) (text : String) (id : NodeId) (n : Node) : Node :=
  match elements with
  | [] => n
  | first :: others =>
    others.foldl (fun n x => if id = x then retext "" n else n) (if id = first then retext text n else n)

theorem wording_of_notMem {elements : List NodeId} {text : String} {id : NodeId} (absent : id ∉ elements)
    (n : Node) : wording elements text id n = n := by
  cases elements with
  | nil => rfl
  | cons first others =>
    rw [List.mem_cons,not_or] at absent
    rw [wording,if_neg absent.1]
    obtain ⟨-,absent⟩ := absent
    induction others with
    | nil => rfl
    | cons x others ih =>
      rw [List.mem_cons,not_or] at absent
      rw [List.foldl_cons,if_neg absent.1]
      exact ih absent.2

/-- A former element gets a text. -/
private theorem advances_setText (since : f₀.Since f) (m : NodeId) {x : NodeId} (former : x < f₀.nodes.size)
    (text : String) :
    Advances f₀ m (fun n node => if n = x then retext text node else node) f (f.setText x text) := by
  have retexted := retexted_setText f x text
  have since' : f₀.Since (f.setText x text) := by
    refine ⟨since.acyclic.fewer retexted.size_eq fun a b here => ?_,retexted.size_eq.symm ▸ since.size_le,
      fun n old => (retexted.name_eq n).trans (since.name_eq n old),fun n c large here => ?_⟩
    · rwa [Child,retexted.children_eq] at here
    · rw [Child,retexted.children_eq] at here
      exact since.closed n c large here
  refine ⟨since',Nat.le_of_eq retexted.size_eq.symm,fun n old => ?_,fun n _ _ => retexted.children_eq n,
    fun n large inside => element_eq_of_later since since' (fun n large _ => retexted.node_eq n ?_) large inside⟩
  · rw [face,face,setText,node_update]
    by_cases same : n = x
    · rw [if_pos ⟨same,Nat.lt_of_lt_of_le old since.size_le⟩,if_pos same]
      rfl
    · rw [if_neg fun here => same here.1,if_neg same]
  · rintro rfl
    exact Nat.not_lt.mpr large former

/-- A text is written into some former elements. -/
theorem advances_writeText (since : f₀.Since f) (m p : NodeId) {elements : List NodeId} (some : elements ≠ [])
    (former : ∀ x ∈ elements, x < f₀.nodes.size) (text : String) :
    Advances f₀ m (wording elements text) f (f.writeText p elements text) := by
  obtain ⟨first,others,rfl⟩ := List.exists_cons_of_ne_nil some
  have clear (others : List NodeId) (former : ∀ x ∈ others, x < f₀.nodes.size) {f : Forest} (since : f₀.Since f) :
      Advances f₀ m (fun id n => others.foldl (fun n x => if id = x then retext "" n else n) n) f
        (others.foldl (fun f id => f.setText id "") f) := by
    induction others generalizing f with
    | nil => exact .refl since
    | cons x others ih =>
      obtain ⟨here,rest⟩ := List.forall_mem_cons.mp former
      have step := advances_setText since m here ""
      exact step.trans (ih rest step.since)
  obtain ⟨here,rest⟩ := List.forall_mem_cons.mp former
  have step := advances_setText since m here text
  exact step.trans (clear others rest step.since)

/-- The elements of two forests are the same below an element, in their content and, unless they came later than
an earlier forest, in their numbers. -/
structure SameTree (base : Nat) (f g : Forest) (root : NodeId) : Prop where
  element_eq : g.element root = f.element root
  places : List.Forall₂ (fun a b => a = b ∨ (base ≤ a ∧ base ≤ b)) (f.tree root) (g.tree root)

/-- Forests are the same below a former element if all former elements are the same in them, with children that
are seen as the same. -/
theorem sameTree_of_views (since : f₀.Since f) (since' : f₀.Since g)
    (face_eq : ∀ n : Nat, n < f₀.nodes.size → g.face n = f.face n)
    (view_eq : ∀ n : Nat, n < f₀.nodes.size → f₀.view g n = f₀.view f n) {root : NodeId}
    (former : root < f₀.nodes.size) : SameTree f₀.nodes.size f g root := by
  obtain ⟨_,sorted⟩ := since.acyclic.sorted
  obtain ⟨_,sorted'⟩ := since'.acyclic.sorted
  have children {n : NodeId} (former : n < f₀.nodes.size) :
      List.Forall₂ (fun a b => f₀.item f a = f₀.item g b) (f.children n) (g.children n) := by
    have same := view_eq n former
    rw [view,view,← List.forall₂_eq_eq_eq,List.forall₂_map_left_iff,List.forall₂_map_right_iff] at same
    exact same.flip.imp fun _ _ => Eq.symm
  have cases_of {a b : NodeId} (same : f₀.item f a = f₀.item g b) : (a = b ∧ a < f₀.nodes.size) ∨
      (f₀.nodes.size ≤ a ∧ f₀.nodes.size ≤ b ∧ f.element a = g.element b) := by
    unfold item at same
    split at same <;> split at same
    · next small _ => exact Or.inl ⟨Item.old.inj same,small⟩
    · exact nomatch same
    · exact nomatch same
    · next large large' =>
      exact Or.inr ⟨Nat.le_of_not_lt large,Nat.le_of_not_lt large',Item.new.inj same⟩
  have elements (n : NodeId) : n < f₀.nodes.size → g.element n = f.element n := by
    refine sorted.induction (motive := fun n : Nat => n < f₀.nodes.size → g.element n = f.element n) ?_ n
    intro n ih former
    have same : (g.children n).map g.element = (f.children n).map f.element := by
      rw [← List.forall₂_eq_eq_eq,List.forall₂_map_left_iff,List.forall₂_map_right_iff]
      refine (forall₂_mem (children former)).flip.imp fun b a here => ?_
      rcases cases_of here.2 with ⟨rfl,small⟩ | ⟨-,-,same⟩
      · exact ih a here.1 small
      · exact same.symm
    have face := face_eq n former
    rw [element_eq sorted,element_eq sorted',same]
    simp only [Forest.face,Node.mk.injEq] at face
    rw [face.1,face.2.1,face.2.2.1,face.2.2.2.2]
  refine ⟨elements root former,?_⟩
  refine sorted.induction (motive := fun n : Nat => n < f₀.nodes.size →
    List.Forall₂ (fun a b => a = b ∨ (f₀.nodes.size ≤ a ∧ f₀.nodes.size ≤ b)) (f.tree n) (g.tree n)) ?_ root former
  intro n ih former
  rw [tree_eq sorted,tree_eq sorted']
  refine .cons (Or.inl rfl) (rel_flatMap_mem (children former) fun a b member here => ?_)
  rcases cases_of here with ⟨rfl,small⟩ | ⟨large,large',same⟩
  · exact ih a member small
  · have length_eq : (f.tree a).length = (g.tree b).length := by
      have descendants_eq : (f.tree a).map f.element = (g.tree b).map g.element := by
        rw [map_element_tree sorted,map_element_tree sorted',same]
      simpa only [List.length_map] using congrArg List.length descendants_eq
    refine List.forall₂_iff_get.mpr ⟨length_eq,fun i inside inside' => Or.inr ⟨?_,?_⟩⟩
    · exact large_of_mem_tree since large (List.get_mem _ _)
    · exact large_of_mem_tree since' large' (List.get_mem _ _)

end Forest

namespace Index

/-- What an index knows of elements that were not taken out is so, in a tree where no element has two places. -/
structure Truthful (ix : Index) (f : Forest) : Prop where
  acyclic : f.Acyclic
  single : f.Single ix.root
  inside : ix.root < f.nodes.size
  actual : ∀ n c, ix.parent? c = some n → c ∉ ix.detached → f.Child n c

variable {ix ix' : Index} {f : Forest} {p q m : NodeId}

theorem Current.truthful (current : ix.Current f) : ix.Truthful f :=
  ⟨current.acyclic,current.single,current.inside,current.actual⟩

/-- The index knows the place of an element in the tree. -/
structure Seats (ix : Index) (f : Forest) (p m : NodeId) : Prop where
  known : ix.parent? p = some m
  child : f.Child m p
  home : f.Below ix.root m

namespace Seats

theorem path (seats : ix.Seats f p m) : f.Below ix.root p :=
  seats.home.tail seats.child

theorem parent_lt (seats : ix.Seats f p m) : m < f.nodes.size :=
  f.lt_size_of_child seats.child

theorem lt (seats : ix.Seats f p m) (truthful : ix.Truthful f) : p < f.nodes.size :=
  truthful.acyclic.inside m p seats.child

theorem mem_view (seats : ix.Seats f p m) (truthful : ix.Truthful f) : .old p ∈ f.view f m :=
  List.mem_map.mpr ⟨p,seats.child,if_pos (seats.lt truthful)⟩

theorem countP_view (seats : ix.Seats f p m) (truthful : ix.Truthful f) :
    (f.view f m).countP (·.isOld p) = 1 := by
  rw [Forest.countP_view (seats.lt truthful)]
  exact List.count_eq_one_of_mem (truthful.single.nodup m seats.home) seats.child

end Seats

namespace Truthful

/-- The way up leads to the root of the tree. -/
private theorem below_of_reachesRoot (truthful : ix.Truthful f) {steps : Nat}
    (reaches : ix.reachesRoot steps p = true) : f.Below ix.root p := by
  induction steps generalizing p with
  | zero => exact absurd reaches Bool.false_ne_true
  | succ steps ih =>
    rw [reachesRoot] at reaches
    split at reaches
    · next top => exact (beq_iff_eq.mp top) ▸ ReflTransGen.refl
    · split at reaches
      · exact absurd reaches Bool.false_ne_true
      · next out =>
        split at reaches
        · next m known => exact (ih reaches).tail (truthful.actual m p known (by simpa using out))
        · exact absurd reaches Bool.false_ne_true

theorem below_of_isAttached (truthful : ix.Truthful f) (attached : ix.isAttached p = true) : f.Below ix.root p :=
  truthful.below_of_reachesRoot attached

theorem exists_seats (truthful : ix.Truthful f) (attached : ix.isAttached p = true) (other : p ≠ ix.root) :
    ∃ m, ix.Seats f p m := by
  have reaches : ix.reachesRoot (ix.parents.length + 1) p = true := attached
  rw [reachesRoot,if_neg (by simpa using other)] at reaches
  split at reaches
  · exact absurd reaches Bool.false_ne_true
  · next out =>
    split at reaches
    · next m known =>
      exact ⟨m,known,truthful.actual m p known (by simpa using out),truthful.below_of_reachesRoot reaches⟩
    · exact absurd reaches Bool.false_ne_true

/-- The way up from an element avoids one that it is not below, and is still known when that one is not. -/
theorem isAttached_of_apart (truthful : ix.Truthful f) (apart : ix'.Apart ix f.nodes.size p)
    (attached : ix.isAttached q = true) (inside : q < f.nodes.size) (aside : ¬ f.Below p q) :
    ix'.isAttached q = true := by
  suffices reaches : ∀ (steps : Nat) (q : Nat), q < f.nodes.size → ¬ f.Below p q →
      ix.reachesRoot steps q = true → ix'.reachesRoot steps q = true from
    ix'.reachesRoot_enough (reaches _ q inside aside attached)
  intro steps
  induction steps with
  | zero => exact fun _ _ _ reaches => absurd reaches Bool.false_ne_true
  | succ steps ih =>
    intro q inside aside reaches
    have other : q ≠ p := fun same => aside (same ▸ ReflTransGen.refl)
    rw [reachesRoot] at reaches ⊢
    rw [apart.root_eq,apart.parent?_eq q inside other]
    split at reaches
    · next top => rw [if_pos top]
    · next top =>
      rw [if_neg top]
      split at reaches
      · exact absurd reaches Bool.false_ne_true
      · next out =>
        have stays : q ∉ ix.detached := by simpa using out
        have stays' : ¬ ix'.detached.contains q = true := by
          simpa [apart.mem_detached q inside other] using stays
        rw [if_neg stays']
        split at reaches
        · next m known =>
          have here := truthful.actual m q known stays
          exact ih m (f.lt_size_of_child here) (fun path => aside (path.tail here)) reaches
        · exact absurd reaches Bool.false_ne_true

end Truthful
end Index
end MailMerge
