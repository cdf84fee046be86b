import MailMerge.Proofs.Generation.Noted
import MailMerge.Proofs.Tree.Views

/-! Texts are written into a paragraph, and then it is finished: it stays, it leaves its place, or a table comes
there. Wherever the place of the paragraph is known this can be done, and it changes the children of one element, in
the way that is told of lists of items, and the faces of text elements. It depends on the tree and its index only.
-/
namespace MailMerge
open Xml Docx Forest Relation Generation

/-- The state with another index and another forest. -/
def Session.withTree (s : Session) (ix : Index) (f : Forest) : Session :=
  { s with
    index := ix
    package := { s.package with forest := f } }

namespace Fill

/-- A paragraph is finished. -/
def finish (p : NodeId) : Finish → Generation Unit
  | .stay => return ()
  | .leave => removeParagraph p
  | .become e => do putTable p (← plant e)

/-- Texts are written into a paragraph, and then it is finished. -/
def perform (t : Target) (x : Finish) : List (List Char) → Generation Unit
  | [] => finish t.paragraph x
  | text :: texts => do
    t.write text
    perform t x texts

/-- What writing texts one after the other makes of an element. -/
def wordings (t : Target) (texts : List (List Char)) (id : NodeId) (n : Node) : Node :=
  texts.foldl (fun n text => wording t.elements (String.ofList text) id n) n

/-- The children of one element are others. Besides, the tree has grown only, and the index knows the same of
all former elements but one. -/
structure Relists (f₀ : Forest) (p m : NodeId) (ids : List NodeId) (s s' : Session) : Prop where
  tree_eq : s' = s.withTree s'.index s'.package.forest
  advances : Advances f₀ m (fun _ n => n) s.package.forest s'.package.forest
  children_eq : s'.package.forest.children m = ids
  apart : s'.index.Apart s.index f₀.nodes.size p

variable {f₀ : Forest} {setup : Setup} {s s' s'' : Session} {p q m new : NodeId} {ids ids' before after : List NodeId}

namespace Relists

theorem trans (first : Relists f₀ p m ids s s') (second : Relists f₀ p m ids' s' s'') :
    Relists f₀ p m ids' s s'' where
  tree_eq := by
    have same := second.tree_eq
    rw [first.tree_eq] at same
    exact same
  advances := first.advances.trans second.advances
  children_eq := second.children_eq
  apart := second.apart.trans first.apart

theorem later (relists : Relists f₀ p m ids s s') (later : Later f₀ s.package.forest new) :
    Later f₀ s'.package.forest new :=
  ⟨later.1,Nat.lt_of_lt_of_le later.2 relists.advances.size_le⟩

/-- The children are seen as they were seen before they were put there. -/
theorem view_eq (relists : Relists f₀ p m ids s s') (inside : ∀ c ∈ ids, c < s.package.forest.nodes.size) :
    f₀.view s'.package.forest m = ids.map (f₀.item s.package.forest) := by
  rw [view,relists.children_eq,relists.advances.map_item inside]

end Relists

section
variable (since : f₀.Since s.package.forest) (former : m < f₀.nodes.size)
include since former

theorem exists_plant (p : NodeId) (setup : Setup) (e : Element) : ∃ id s', plant e setup s = .ok id s' ∧
    Relists f₀ p m (s.package.forest.children m) s s' ∧ s'.index = s.index ∧
      Later f₀ s'.package.forest id ∧ id ∉ s.package.forest.children m ∧
        f₀.item s'.package.forest id = .new e := by
  obtain ⟨grown,large,last⟩ := grown_plant s.package.forest e
  refine ⟨_,_,plant_apply e setup s,⟨rfl,advances_plant since m e,?_,.refl _ _ _⟩,rfl,?_,fun here =>
    Nat.not_lt.mpr large (since.acyclic.inside m _ here),item_plant since e⟩
  · exact grown.children_eq (Nat.lt_of_lt_of_le former since.size_le)
  · exact ⟨Nat.le_trans since.size_le large,Nat.lt_of_succ_le (Nat.le_of_eq last)⟩

/-- The children of a former element are former children of it or came later. -/
private theorem relists_children {ix : Index} (apart : ix.Apart s.index f₀.nodes.size p)
    (allowed : ∀ c ∈ ids, c ∈ s.package.forest.children m ∨ Later f₀ s.package.forest c) :
    Relists f₀ p m ids s (s.withTree ix (s.package.forest.updateChildren m fun _ => ids)) := by
  refine ⟨rfl,advances_children since former allowed,?_,apart⟩
  exact (s.package.forest.children_updateChildren m m _).trans
    (if_pos ⟨rfl,Nat.lt_of_lt_of_le former since.size_le⟩)

section
variable (known : s.index.parent? q = some m) (split : s.package.forest.children m = before ++ q :: after)
  (first : q ∉ before)
include known split first

theorem exists_remove (setup : Setup) :
    ∃ s', remove q setup s = .ok true s' ∧ Relists f₀ q m (before ++ after) s s' := by
  refine ⟨_,change_ok (Index.remove_eq known split first (Index.position_of_split split first)),
    relists_children since former ?_ fun c member => Or.inl ?_⟩
  · exact (Index.apart_leave _ _ q).trans (Index.apart_forget s.index _ q)
  · rw [split]
    exact ((List.sublist_cons_self q after).append_left before).subset member

variable (later : Later f₀ s.package.forest new)
include later

theorem exists_replace (setup : Setup) : ∃ s', replace q new setup s = .ok true s' ∧
    Relists f₀ q m (before ++ new :: after) s s' ∧ s'.index.parent? new = some m := by
  have allowed : ∀ c ∈ before ++ new :: after, c ∈ s.package.forest.children m ∨ Later f₀ s.package.forest c := by
    intro c member
    rw [split]
    rcases mem_of_split rfl rfl member with here | rfl
    · exact Or.inl (((List.sublist_cons_self q after).append_left before).subset here)
    · exact Or.inr later
  have put := (advances_children since former allowed).since
  refine ⟨_,change_ok (Index.replace_eq known split first (Index.position_of_split split first) new),
    relists_children since former ?_ allowed,Index.parent?_enter _ fun n member here => ?_⟩
  · exact (put.apart_enter _ m later.1 q).trans (Index.apart_leave s.index _ q)
  · exact put.acyclic.not_below here (put.acyclic.mem_tree_iff.mp member)

theorem exists_insertAfter (p : NodeId) (setup : Setup) : ∃ s', insertAfter q new setup s = .ok true s' ∧
    Relists f₀ p m (before ++ [q] ++ new :: after) s s' := by
  have split' : s.package.forest.children m = (before ++ [q]) ++ after := by
    rw [split,List.append_assoc,List.singleton_append]
  have allowed : ∀ c ∈ before ++ [q] ++ new :: after, c ∈ s.package.forest.children m ∨
      Later f₀ s.package.forest c := by
    intro c member
    rcases mem_of_split split' rfl member with here | rfl
    · exact Or.inl here
    · exact Or.inr later
  have put := (advances_children since former allowed).since
  exact ⟨_,change_ok (Index.insertAfter_eq known split (Index.position_of_split split first) new),
    relists_children since former (put.apart_enter _ m later.1 p) allowed⟩

end

theorem relists_append (p : NodeId) (later : Later f₀ s.package.forest new) :
    Relists f₀ p m (s.package.forest.children m ++ [new]) s
      (s.withTree s.index (s.package.forest.append m new)) := by
  have same : s.package.forest.append m new =
      s.package.forest.updateChildren m fun _ => s.package.forest.children m ++ [new] :=
    s.package.forest.updateChildren_eq m rfl
  rw [same]
  refine relists_children since former (.refl _ _ _) fun c member => ?_
  rcases List.mem_append.mp member with here | here
  · exact Or.inl here
  · exact Or.inr (List.mem_singleton.mp here ▸ later)

end

/-- The tree was changed by finishing a paragraph and in the faces of elements. -/
structure Does (f₀ : Forest) (p m : NodeId) (x : Finish) (change : NodeId → Node → Node) (s s' : Session) :
    Prop where
  tree_eq : s' = s.withTree s'.index s'.package.forest
  advances : Advances f₀ m change s.package.forest s'.package.forest
  view_eq : f₀.view s'.package.forest m =
    x.act f₀ (f₀.name m == cellName) p (f₀.view s.package.forest m)
  apart : s'.index.Apart s.index f₀.nodes.size p

namespace Does

variable {x : Finish} {change : NodeId → Node → Node}

theorem outcomes_eq (does : Does f₀ p m x change s s') : s'.outcomes = s.outcomes := by
  rw [does.tree_eq]
  rfl

/-- How the children of all former elements are seen. -/
theorem view_at (does : Does f₀ p m x change s s') (since : f₀.Since s.package.forest) {n : NodeId}
    (former : n < f₀.nodes.size) : f₀.view s'.package.forest n =
      if n = m then x.act f₀ (f₀.name m == cellName) p (f₀.view s.package.forest n)
      else f₀.view s.package.forest n := by
  split
  · next same => rw [same,does.view_eq]
  · next other => exact does.advances.view_eq since (does.advances.children_eq n former other)

end Does

section
variable (since : f₀.Since s.package.forest) (former : p < f₀.nodes.size) (former' : m < f₀.nodes.size)
  (known : s.index.parent? p = some m) (once : (f₀.view s.package.forest m).countP (·.isOld p) = 1)
include since former former' known once

private theorem exists_leave (setup : Setup) : ∃ s', removeParagraph p setup s = .ok () s' ∧
    Does f₀ p m .leave (fun _ n => n) s s' := by
  obtain ⟨before,after,split,first,exchanged⟩ := exists_split former once
  obtain ⟨s₁,removed,takes⟩ := exists_remove since former' known split first setup
  have since₁ := takes.advances.since
  have left : f₀.view s₁.package.forest m = Item.exchange p [] (f₀.view s.package.forest m) := by
    rw [takes.view_eq fun c member => since.acyclic.inside m c ?_,exchanged,List.map_append,List.nil_append]
    rw [Child,split]
    exact ((List.sublist_cons_self p after).append_left before).subset member
  have bare : (s₁.package.forest.name m == cellName &&
      (s₁.package.forest.childNamed? m paragraphName).isNone) = (f₀.name m == cellName &&
        !(Item.exchange p [] (f₀.view s.package.forest m)).any (·.name f₀ == paragraphName)) := by
    rw [since₁.name_eq m former',← left,view,List.any_map,childNamed?,Bool.eq_iff_iff]
    simp [name_item since₁]
  simp only [removeParagraph,bind_apply,parent?_apply,removed,known,forest_apply]
  by_cases test : (s₁.package.forest.name m == cellName &&
      (s₁.package.forest.childNamed? m paragraphName).isNone) = true
  · obtain ⟨id,s₂,planted,plants,-,later,-,shown⟩ := exists_plant since₁ former' p setup (Docx.paragraph [])
    have appends := relists_append plants.advances.since former' p later
    have all := (takes.trans plants).trans appends
    refine ⟨_,(congrFun (congrFun (if_pos test) setup) _).trans ((bind_ok planted).trans rfl),all.tree_eq,
      all.advances,?_,all.apart⟩
    rw [bare] at test
    rw [appends.view_eq,Finish.act_leave,test,if_pos rfl,List.map_append,List.map_singleton,shown,← left,
      ← plants.advances.view_eq since₁ plants.children_eq,view]
    intro c member
    rcases List.mem_append.mp member with here | here
    · exact plants.advances.since.acyclic.inside m c here
    · exact List.mem_singleton.mp here ▸ later.2
  · refine ⟨s₁,congrFun (congrFun (if_neg test) setup) _,takes.tree_eq,takes.advances,?_,takes.apart⟩
    rw [bare,Bool.not_eq_true] at test
    rw [Finish.act_leave,test,left]
    exact (List.append_nil _).symm

private theorem exists_become (setup : Setup) (e : Element) : ∃ s', finish p (.become e) setup s = .ok () s' ∧
    Does f₀ p m (.become e) (fun _ n => n) s s' := by
  obtain ⟨before,after,split,first,exchanged⟩ := exists_split former once
  obtain ⟨table,s₁,planted,plants,index_eq,later,fresh,shown⟩ := exists_plant since former' p setup e
  have known₁ : s₁.index.parent? p = some m := by rw [index_eq,known]
  obtain ⟨s₂,replaced,puts,entered⟩ := exists_replace plants.advances.since former' known₁
    (plants.children_eq.trans split) first later setup
  have start : finish p (.become e) setup s = putTable p table setup s₁ := bind_ok planted
  have old : ∀ c ∈ before ++ after, c < s.package.forest.nodes.size := by
    refine fun c member => since.acyclic.inside m c ?_
    rw [Child,split]
    exact ((List.sublist_cons_self p after).append_left before).subset member
  -- what stood beside the paragraph is seen as before
  have kept {s' : Session} {ids' : List NodeId} (relists : Relists f₀ p m ids' s s') :
      before.map (f₀.item s'.package.forest) = before.map (f₀.item s.package.forest) ∧
        after.map (f₀.item s'.package.forest) = after.map (f₀.item s.package.forest) :=
    ⟨relists.advances.map_item fun c member => old c (List.mem_append_left _ member),
      relists.advances.map_item fun c member => old c (List.mem_append_right _ member)⟩
  rw [start]
  simp only [putTable,bind_apply,parent?_apply,replaced,known₁,forest_apply]
  by_cases test : (s₂.package.forest.name m == cellName) = true
  · obtain ⟨empty,s₃,planted',plants',index_eq',later',fresh',shown'⟩ :=
      exists_plant puts.advances.since former' p setup (Docx.paragraph [])
    have known₃ : s₃.index.parent? table = some m := by rw [index_eq',entered]
    have unmet : table ∉ before := fun member => fresh (split ▸ List.mem_append_left _ member)
    obtain ⟨s₄,followed,follows⟩ := exists_insertAfter plants'.advances.since former' known₃
      (plants'.children_eq.trans puts.children_eq) unmet later' p setup
    have all := ((plants.trans puts).trans plants').trans follows
    refine ⟨s₄,?_,all.tree_eq,all.advances,?_,all.apart⟩
    · refine (congrFun (congrFun (if_pos test) setup) _).trans ?_
      exact (bind_ok planted').trans ((bind_ok followed).trans rfl)
    · rw [puts.advances.since.name_eq m former'] at test
      have last : f₀.item s₄.package.forest empty = .new (Docx.paragraph []) := by
        rw [follows.advances.item_eq later'.2,shown']
      have first : f₀.item s₄.package.forest table = .new e := by
        rw [(plants'.trans follows).advances.item_eq (puts.later later).2,puts.advances.item_eq later.2,shown]
      rw [view,all.children_eq,Finish.act_become,test,exchanged]
      simp [(kept all).1,(kept all).2,first,last]
  · have all := plants.trans puts
    refine ⟨s₂,congrFun (congrFun (if_neg test) setup) _,all.tree_eq,all.advances,?_,all.apart⟩
    rw [puts.advances.since.name_eq m former',Bool.not_eq_true] at test
    rw [view,all.children_eq,Finish.act_become,test,exchanged,List.map_append,List.map_cons,(kept all).1,
      (kept all).2,puts.advances.item_eq later.2,shown]
    rfl

/-- A paragraph with one place can be finished. -/
private theorem exists_finish (setup : Setup) (x : Finish) : ∃ s', finish p x setup s = .ok () s' ∧
    Does f₀ p m x (fun _ n => n) s s' := by
  cases x with
  | stay =>
    refine ⟨s,rfl,rfl,.refl since,?_,.refl _ _ _⟩
    obtain ⟨before,after,split,-,exchanged⟩ := exists_split former once
    have here : f₀.item s.package.forest p = .old p := if_pos former
    have same : f₀.view s.package.forest m = Item.exchange p [.old p] (f₀.view s.package.forest m) := by
      rw [exchanged,view,split,List.map_append,List.map_cons,here]
      rfl
    exact same.trans (List.append_nil _).symm
  | leave => exact exists_leave since former former' known once setup
  | become e => exact exists_become since former former' known once setup e

end

/-- Texts can be written into a paragraph with one place, and then it can be finished. -/
theorem exists_perform {t : Target} (since : f₀.Since s.package.forest) (former : t.paragraph < f₀.nodes.size)
    (former' : m < f₀.nodes.size) (known : s.index.parent? t.paragraph = some m)
    (once : (f₀.view s.package.forest m).countP (·.isOld t.paragraph) = 1)
    (inside : ∀ n ∈ t.elements, n < f₀.nodes.size) {texts : List (List Char)}
    (filled : texts ≠ [] → t.elements ≠ []) (setup : Setup) (x : Finish) :
    ∃ s', perform t x texts setup s = .ok () s' ∧ Does f₀ t.paragraph m x (wordings t texts) s s' := by
  induction texts generalizing s with
  | nil => exact exists_finish since former former' known once setup x
  | cons text texts ih =>
    have some := filled (List.cons_ne_nil _ _)
    let s₁ := s.withTree s.index (s.package.forest.writeText t.paragraph t.elements (String.ofList text))
    have written : t.write text setup s = .ok () s₁ := rfl
    have advances : Advances f₀ m (wording t.elements (String.ofList text)) s.package.forest s₁.package.forest :=
      advances_writeText since m t.paragraph some inside (String.ofList text)
    have same : f₀.view s₁.package.forest m = f₀.view s.package.forest m :=
      advances.view_eq since ((retexted_writeText _ t.paragraph some _).children_eq m)
    obtain ⟨s',ran,does⟩ := ih advances.since known (same ▸ once) fun _ => some
    refine ⟨s',(bind_ok written).trans ran,does.tree_eq,advances.trans does.advances,?_,does.apart⟩
    rw [does.view_eq,same]

end Fill

namespace Generation

variable {α β : Type} {setup : Setup} {s s' : Session}

/-- A step looks at the tree and its index only and changes nothing else. -/
def Local (step : Generation α) : Prop :=
  ∀ setup s a s', step setup s = .ok a s' → ∃ ix f, ∀ r : Session, r.index = s.index →
    r.package.forest = s.package.forest → step setup r = .ok a (r.withTree ix f)

namespace Local

/-- A step that leaves everything as it is. -/
private theorem of_look {step : Generation α} (look : Index → Forest → α)
    (all : ∀ setup (r : Session), step setup r = .ok (look r.index r.package.forest) r) : Local step := by
  intro setup s a s' ran
  obtain ⟨rfl,rfl⟩ := EStateM.Result.ok.inj ((all setup s).symm.trans ran)
  refine ⟨s.index,s.package.forest,fun r index_eq forest_eq => ?_⟩
  rw [all,← index_eq,← forest_eq]
  rfl

theorem of_pure (a : α) : Local (pure a) :=
  of_look (fun _ _ => a) fun _ _ => rfl

theorem of_forest : Local Generation.forest :=
  of_look (fun _ f => f) fun _ _ => rfl

theorem of_parent? (id : NodeId) : Local (parent? id) :=
  of_look (fun ix _ => ix.parent? id) fun _ _ => rfl

theorem of_bind {step : Generation α} {next : α → Generation β} (first : Local step)
    (second : ∀ a, Local (next a)) : Local (step >>= next) := by
  intro setup s b s'' ran
  obtain ⟨a,s',ran,later⟩ := exists_of_bind_ok ran
  obtain ⟨ix,f,again⟩ := first setup s a s' ran
  obtain ⟨-,rfl⟩ := EStateM.Result.ok.inj (ran.symm.trans (again s rfl rfl))
  obtain ⟨ix',f',again'⟩ := second a setup _ b s'' later
  exact ⟨ix',f',fun r index_eq forest_eq => (bind_ok (again r index_eq forest_eq)).trans (again' _ rfl rfl)⟩

theorem of_edit (change : Forest → Forest) : Local (edit change) := by
  intro setup s a s' ran
  refine ⟨s.index,change s.package.forest,fun r index_eq forest_eq => ?_⟩
  rw [← index_eq,← forest_eq]
  rfl

theorem of_plant (e : Element) : Local (plant e) := by
  intro setup s a s' ran
  obtain ⟨rfl,-⟩ := EStateM.Result.ok.inj ran
  refine ⟨s.index,(s.package.forest.plant e).2,fun r index_eq forest_eq => ?_⟩
  rw [← index_eq,← forest_eq]
  rfl

theorem of_change (step : Index → Forest → Except Fault (Bool × Index × Forest)) : Local (change step) := by
  intro setup s a s' ran
  rw [change_apply] at ran
  split at ran
  · next known ix f made =>
    obtain ⟨rfl,-⟩ := EStateM.Result.ok.inj ran
    exact ⟨ix,f,fun r index_eq forest_eq => change_ok (by rw [index_eq,forest_eq,made])⟩
  · exact nomatch ran

/-- Where the step was done, it is done alike with the same tree and index, and nothing else changes. -/
theorem eq_withTree {step : Generation α} (here : Local step) {a : α} (ran : step setup s = .ok a s') {r : Session}
    (index_eq : r.index = s.index) (forest_eq : r.package.forest = s.package.forest) :
    step setup r = .ok a (r.withTree s'.index s'.package.forest) := by
  obtain ⟨ix,f,again⟩ := here setup s a s' ran
  obtain ⟨-,rfl⟩ := EStateM.Result.ok.inj (ran.symm.trans (again s rfl rfl))
  exact again r index_eq forest_eq

theorem state_eq {step : Generation α} (here : Local step) {a : α} (ran : step setup s = .ok a s') :
    s' = s.withTree s'.index s'.package.forest :=
  (EStateM.Result.ok.inj (ran.symm.trans (here.eq_withTree ran rfl rfl))).2

theorem aligned {step : Generation α} (here : Local step) {a : α} (ran : step setup s = .ok a s') :
    s.Aligned s' := by
  rw [here.state_eq ran]
  exact ⟨rfl,rfl⟩

/-- Notes that were taken before stay. -/
theorem noted {step : Generation α} (here : Local step) {a : α} (ran : step setup s = .ok a s')
    (news : List Outcome) (notes : Journal) : step setup (s.noted news notes) = .ok a (s'.noted news notes) := by
  have again := here.eq_withTree ran (r := s.noted news notes) rfl rfl
  rw [again]
  conv => rhs; rw [here.state_eq ran]
  rfl

end Local
end Generation

namespace Fill
open Directive

theorem local_removeParagraph (p : NodeId) : Local (removeParagraph p) := by
  refine .of_bind (.of_parent? p) fun parent => .of_bind (.of_change _) fun _ => ?_
  cases parent with
  | none => exact .of_pure ()
  | some m =>
    refine .of_bind .of_forest fun f => ?_
    split
    · exact .of_bind (.of_plant _) fun _ => .of_edit _
    · exact .of_pure ()

theorem local_putTable (p table : NodeId) : Local (putTable p table) := by
  refine .of_bind (.of_parent? p) fun parent => .of_bind (.of_change _) fun _ => ?_
  cases parent with
  | none => exact .of_pure ()
  | some m =>
    refine .of_bind .of_forest fun f => ?_
    split
    · exact .of_bind (.of_plant _) fun _ => .of_bind (.of_change _) fun _ => .of_pure ()
    · exact .of_pure ()

theorem local_perform (t : Target) (x : Finish) (texts : List (List Char)) : Local (perform t x texts) := by
  induction texts with
  | nil =>
    cases x with
    | stay => exact .of_pure ()
    | leave => exact local_removeParagraph _
    | become e => exact .of_bind (.of_plant e) fun table => local_putTable _ table
  | cons text texts ih => exact .of_bind (.of_edit _) fun _ => ih

theorem perform_append (t : Target) (x : Finish) (texts texts' : List (List Char)) :
    perform t x (texts ++ texts') = (do
      perform t .stay texts
      perform t x texts') := by
  induction texts with
  | nil => rfl
  | cons text texts ih =>
    rw [List.cons_append,perform,ih,perform,bind_assoc]

end Fill
end MailMerge
