import MailMerge.Proofs.Package.Numbers
import MailMerge.Proofs.Package.Sketched

/-! The contents of the parts of a package. Reading a part changes the contents of none, and what is put
in front of all else in the tree of one part is seen in that part only.
-/
namespace MailMerge
open Xml Docx Package Forest

/-- An element with a new one in front of its children. -/
def Xml.Element.putFirst (e new : Element) : Element :=
  .mk e.name e.attributes e.text (new :: e.children) e.tail

namespace Forest

/-- A forest in which an element was planted and put in front of all children of another. -/
def putFirst (f : Forest) (parent : NodeId) (new : Element) : Forest :=
  (f.plant new).2.insertAt parent 0 (f.plant new).1

variable {α : Type} {f : Forest} {owner : NodeId → α} {level : NodeId → Nat}

theorem reshaped_putFirst (sorted : f.Sorted owner level) {root : NodeId}
    (inside : root < f.nodes.size) (nodup : (f.tree root).Nodup) (new : Element) :
    ∃ owner' level', Reshaped f owner root ((f.element root).putFirst new) (f.putFirst root new)
      owner' level' := by
  obtain ⟨grown,large,last⟩ := grown_plant f new
  have size_le := grown.size_le
  have inside' : root < (f.plant new).2.nodes.size := Nat.lt_of_lt_of_le inside size_le
  let owner' := ownedFrom f.nodes.size owner (owner root)
  let level' := levelFrom f.nodes.size (f.plant new).2.nodes.size level
  have sorted' : (f.putFirst root new).Sorted owner' level' := by
    refine (sorted.grow grown (owner root)).updateChildren root _ fun child member => ?_
    rcases List.mem_cons.mp member with rfl | former
    · have bound := sorted.bounded root inside
      refine Or.inr ⟨Nat.lt_of_succ_le (Nat.le_of_eq last),?_,?_⟩
      · rw [ownedFrom_of_le large,ownedFrom_of_lt inside]
      · rw [levelFrom_of_lt inside,levelFrom,if_neg (Nat.not_lt.mpr large)]
        omega
    · exact Or.inl former
  have kept (n : NodeId) (other : n ≠ root) :
      (f.putFirst root new).node n = (f.plant new).2.node n :=
    node_update_of_ne _ _ other
  have here : (f.putFirst root new).node root =
      { f.node root with children := (f.plant new).1 :: f.children root } := by
    rw [putFirst,insertAt,Forest.updateChildren,node_update,if_pos ⟨rfl,inside'⟩,
      grown.node_eq root inside]
    rfl
  have added : ∀ id, f.nodes.size ≤ id → id < (f.plant new).2.nodes.size →
      (f.putFirst root new).node id = (f.plant new).2.node id := by
    intro id large _
    refine kept id ?_
    rintro rfl
    exact Nat.lt_irrefl _ (Nat.lt_of_lt_of_le inside large)
  -- what stood below the root does so still
  let below (n : NodeId) : Prop := n < f.nodes.size ∧ level root < level n
  have closed : ∀ n, below n → ∀ child ∈ f.children n, below child := by
    intro n deep child member
    have further := sorted.below n child member
    exact ⟨further.1,Nat.lt_trans deep.2 further.2.2⟩
  have same : ∀ n, below n → (f.putFirst root new).node n = f.node n := by
    intro n deep
    rw [kept n (by rintro rfl; exact Nat.lt_irrefl _ deep.2),grown.node_eq n deep.1]
  have deep : ∀ child ∈ f.children root, below child := fun child member =>
    ⟨(sorted.below root child member).1,(sorted.below root child member).2.2⟩
  have trees : (f.children root).flatMap (f.putFirst root new).tree =
      (f.children root).flatMap f.tree :=
    List.flatMap_congr fun child member =>
      tree_congr sorted sorted' closed same child (deep child member)
  have elements : (f.children root).map (f.putFirst root new).element =
      (f.children root).map f.element :=
    List.map_congr_left fun child member =>
      element_congr sorted sorted' closed same child (deep child member)
  refine ⟨owner',level',sorted',by simpa [putFirst,insertAt,Forest.updateChildren] using size_le,
    fun n old => ownedFrom_of_lt old,?_,?_,?_⟩
  · intro n old apart
    rw [kept n (by rintro rfl; exact apart rfl),grown.node_eq n old]
  · obtain ⟨nodup_new,bounds⟩ := nodup_plant sorted' f new added
    have nodup_old := nodup
    rw [tree_eq sorted,List.nodup_cons] at nodup_old
    rw [tree_eq sorted',children,here,List.nodup_cons,List.flatMap_cons,trees]
    refine ⟨?_,List.nodup_append.mpr ⟨nodup_new,nodup_old.2,?_⟩⟩
    · intro member
      rcases List.mem_append.mp member with member | member
      · exact Nat.lt_irrefl _ (Nat.lt_of_lt_of_le inside (bounds root member).1)
      · exact nodup_old.1 member
    · rintro n member m member' rfl
      have old : n ∈ f.tree root := by
        rw [tree_eq sorted]
        exact List.mem_cons_of_mem _ member'
      exact Nat.lt_irrefl _ (Nat.lt_of_lt_of_le (lt_size_of_mem_tree sorted inside old)
        (bounds n member).1)
  · rw [element_eq sorted',children,here,List.map_cons,elements,element_plant sorted' f new added,
      element_eq sorted root]
    rfl

end Forest

namespace Outline

/-- What a part contains. -/
def content? (o : Outline) (name : String) : Option Element :=
  match o.drafts name with
  | some d => some d.element
  | none => (o.parts.lookup name).bind fun data => (readBytes data).root.toOption

/-- A part that can be read is read, and contains what it did. -/
theorem root?_of_content {o : Outline} {name : String} {e : Element}
    (held : o.content? name = some e) : ∃ o', Outlining.root? name o = .ok true o' ∧
      o'.parts = o.parts ∧ ∀ other, o'.content? other = o.content? other := by
  rw [Outlining.root?_run]
  rw [content?] at held
  cases drawn : o.drafts name with
  | some d => exact ⟨o.touch name,rfl,rfl,fun _ => rfl⟩
  | none =>
    simp only [drawn] at held
    obtain ⟨data,found,reading⟩ := Option.bind_eq_some_iff.mp held
    have read := eq_ok_of_toOption reading
    simp only [found,read]
    refine ⟨_,rfl,rfl,fun other => ?_⟩
    by_cases same : other = name
    · subst same
      simp [content?,touch,draw,drawn,found,read,Draft.of,Except.toOption]
    · simp [content?,touch,draw,same]

/-- A change is seen in the part that it is made in. -/
theorem content?_amend {o : Outline} {name : String} {d : Draft} (drawn : o.drafts name = some d)
    (change : Element → Element) (other : String) : (o.amend name change).content? other =
      if other = name then some (change d.element) else o.content? other := by
  by_cases same : other = name
  · subst same
    simp [content?,amend,drawn]
  · simp [content?,amend,same]

end Outline

namespace Package

variable {p q r : Package} {name : String} {e : Element}

theorem content?_outline (p : Package) (name : String) :
    p.outline.content? name = p.content? name := by
  cases known : p.trees.lookup name <;> simp only [Outline.content?,content?,outline,known] <;> rfl

/-- A later package has the same parts with the same contents. -/
structure Reads (p q : Package) : Prop where
  coherent : q.Coherent
  names_eq : q.names = p.names
  content_eq : ∀ name, q.content? name = p.content? name

theorem Coherent.reads (coherent : p.Coherent) : p.Reads p :=
  ⟨coherent,rfl,fun _ => rfl⟩

theorem Reads.trans (first : p.Reads q) (second : q.Reads r) : p.Reads r :=
  ⟨second.coherent,second.names_eq.trans first.names_eq,
    fun name => (second.content_eq name).trans (first.content_eq name)⟩

/-- A part that can be read is read: its tree is what it contains. -/
theorem Coherent.root?_of_content (coherent : p.Coherent) (held : p.content? name = some e) :
    ∃ root q, Packaging.root? name p = .ok (some root) q ∧ p.Reads q ∧ Rooting name root q ∧
      q.forest.element root = e := by
  rw [← content?_outline] at held
  obtain ⟨o,ran',parts_eq,contents⟩ := Outline.root?_of_content held
  have sketched := sketched_root? coherent name
  unfold Sketched at sketched
  rw [ran'] at sketched
  cases ran : Packaging.root? name p with
  | error fault q => simp [ran] at sketched
  | ok found q =>
    simp only [ran] at sketched
    obtain ⟨rfl,coherent',rooted⟩ := sketched
    have reads : p.Reads q := by
      refine ⟨coherent',congrArg (List.map Prod.fst) parts_eq,fun other => ?_⟩
      rw [← content?_outline,← content?_outline,contents other]
    cases found with
    | none => exact nomatch (rooted : true = false)
    | some root =>
      obtain ⟨t,known,rfl⟩ : Rooting name root q := rooted.2
      refine ⟨t.root,q,rfl,reads,⟨t,known,rfl⟩,?_⟩
      have now := (reads.content_eq name).trans ((content?_outline p name).symm.trans held)
      simpa [content?,known] using now

/-- There is nothing to read where there is no part. -/
theorem root?_of_missing (missing : p.hasPart name = false) (empty : p.content? name = none) :
    Packaging.root? name p = .ok none p := by
  have unread : p.trees.lookup name = none := by
    cases known : p.trees.lookup name with
    | none => rfl
    | some t => simp [content?,known] at empty
  simp only [Packaging.root?_run,unread,hasPart_eq_false_iff.mp missing]

/-- What is put in front of all else in the tree of a part is put in front of its contents. -/
theorem Coherent.putFirst (coherent : p.Coherent) {root : NodeId} (rooting : Rooting name root p)
    (new : Element) (forest : q = { p with forest := p.forest.putFirst root new }) : q.Coherent ∧
      ∀ other, q.content? other =
        if other = name then some ((p.forest.element root).putFirst new) else p.content? other := by
  obtain ⟨owner,level,arranged⟩ := coherent
  have seat := arranged.seat rooting.seated
  obtain ⟨_,_,reshaped⟩ := reshaped_putFirst arranged.sorted seat.inside seat.nodup new
  have amended : Amended p name root (·.putFirst new) q :=
    forest ▸ arranged.amended rooting.seated reshaped
  obtain ⟨outline_eq,-⟩ := amended.following rooting
  refine ⟨amended.coherent,fun other => ?_⟩
  obtain ⟨t,known,rfl⟩ := rooting
  have drawn : p.outline.drafts name = some ⟨p.forest.element t.root,t.tag,t.defaultSpace⟩ := by
    simp [outline,known]
  rw [← content?_outline,outline_eq,Outline.content?_amend drawn,content?_outline]

end Package
end MailMerge
