import MailMerge.Proofs.Tree.Index
import MailMerge.Proofs.Tree.Restyled

/-! Indices of forests that look the same. They know the same of paired elements: which are taken out, which have
parents and which these are. So they answer alike, and what is replaced, put in or taken out through them leaves
forests that look the same.
-/
namespace MailMerge
open Xml Docx Forest Relation

namespace Index

/-- Indices that know the same of paired elements, and nothing of elements that are still to come. -/
structure Twins (scene : Scene) (pair : Pairing) (f g : Forest) (ix ix' : Index) : Prop where
  root : pair .known ix.root ix'.root
  left : ∀ n, f.nodes.size ≤ n → n ∉ ix.detached ∧ ix.parent? n = none
  right : ∀ n, g.nodes.size ≤ n → n ∉ ix'.detached ∧ ix'.parent? n = none
  detached : ∀ a b, pair .known a b → a ≠ ix.root → (a ∈ ix.detached ↔ b ∈ ix'.detached)
  parents : ∀ a b, pair .known a b → a ≠ ix.root →
    Option.Rel (fun p q => pair .known p q ∧ p ∉ scene.tables) (ix.parent? a) (ix'.parent? b)
  low : ∀ a b, pair .inner a b → a ≠ ix.root

namespace Twins

variable {scene : Scene} {pair : Pairing} {f g : Forest} {ix ix' : Index} {a b c d : NodeId}

/-- Paired elements are in the tree both or not. -/
theorem isAttached_eq (index : Twins scene pair f g ix ix') (twins : Forest.Twins scene pair f g)
    (met : pair .known a b) : ix'.isAttached b = ix.isAttached a := by
  have same (steps : Nat) {a b : NodeId} (met : pair .known a b) :
      ix'.reachesRoot steps b = ix.reachesRoot steps a := by
    induction steps generalizing a b with
    | zero => rfl
    | succ steps ih =>
      have top : (b == ix'.root) = (a == ix.root) := by
        rw [Bool.eq_iff_iff,beq_iff_eq,beq_iff_eq,twins.eq_iff met index.root]
      rw [reachesRoot,reachesRoot,top]
      split
      · rfl
      · next other =>
        have other : a ≠ ix.root := by simpa using other
        have out : ix'.detached.contains b = ix.detached.contains a := by
          rw [Bool.eq_iff_iff,List.contains_iff_mem,List.contains_iff_mem,index.detached a b met other]
        have up := index.parents a b met other
        rw [out]
        split
        · rfl
        · rcases rel_cases up with ⟨known,known'⟩ | ⟨parent,parent',known,known',met,-⟩
          · rw [known,known']
          · rw [known,known']
            exact ih met
  rw [Bool.eq_iff_iff]
  exact ⟨fun reaches => ix.reachesRoot_enough ((same _ met).symm.trans reaches),
    fun reaches => ix'.reachesRoot_enough ((same _ met).trans reaches)⟩

/-- Elements that are new are not known. -/
theorem followed (index : Twins scene pair f g ix ix') (twins : Forest.Twins scene pair f g) {pair' : Pairing}
    {f' g' : Forest} (followed : Followed scene pair f g pair' f' g') : Twins scene pair' f' g' ix ix' where
  root := followed.more _ _ _ index.root
  left n large := index.left n (Nat.le_trans followed.left large)
  right n large := index.right n (Nat.le_trans followed.right large)
  detached a b met other := by
    rcases followed.new .known a b met with met | ⟨new,new'⟩
    · exact index.detached a b met other
    · exact iff_of_false (index.left a new).1 (index.right b new').1
  parents a b met other := by
    rcases followed.new .known a b met with met | ⟨new,new'⟩
    · rcases rel_cases (index.parents a b met other) with ⟨known,known'⟩ | ⟨parent,parent',known,known',met,passed⟩
      · rw [known,known']
        exact .none
      · rw [known,known']
        exact .some ⟨followed.more _ _ _ met,passed⟩
    · rw [(index.left a new).2,(index.right b new').2]
      exact .none
  low a b met := by
    rcases followed.new .inner a b met with met | ⟨new,-⟩
    · exact index.low a b met
    · exact fun same => Nat.not_lt.mpr new (same ▸ twins.lt_left index.root)

section
variable (index : Twins scene pair f g ix ix') (twins : Forest.Twins scene pair f g)
include index twins

/-- Paired elements are recorded below paired ones. -/
theorem record (met : pair .known a b) (unpassed : a ∉ scene.tables) (here : pair .known c d) :
    Twins scene pair f g (ix.record a c) (ix'.record b d) := by
  have unknown {ix : Index} {parent c n : NodeId} (other : c ≠ n) (new : n ∉ ix.detached ∧ ix.parent? n = none) :
      n ∉ (ix.record parent c).detached ∧ (ix.record parent c).parent? n = none := by
    rw [mem_detached_record,parent?_record,if_neg other]
    exact new.imp_left fun known gone => known gone.1
  refine ⟨index.root,fun n large => unknown ?_ (index.left n large),fun n large => unknown ?_ (index.right n large),
    fun n m met' other => ?_,fun n m met' other => ?_,index.low⟩
  · exact fun same => Nat.not_lt.mpr large (same ▸ twins.lt_left here)
  · exact fun same => Nat.not_lt.mpr large (same ▸ twins.lt_right here)
  · rw [mem_detached_record,mem_detached_record,index.detached n m met' other,Ne,Ne,twins.eq_iff met' here]
  · have same := twins.eq_iff here met'
    rw [parent?_record,parent?_record]
    by_cases place : c = n
    · rw [if_pos place,if_pos (same.mp place)]
      exact .some ⟨met,unpassed⟩
    · rw [if_neg place,if_neg fun there => place (same.mpr there)]
      exact index.parents n m met' other

/-- Paired elements are recorded with everything below them. -/
theorem enter (met : pair .known a b) (unpassed : a ∉ scene.tables) (new : ∀ k, pair k c d) :
    Twins scene pair f g (ix.enter f a c) (ix'.enter g b d) := by
  have edges : List.Forall₂ (fun e e' : NodeId × NodeId => pair .known e.1 e'.1 ∧ pair .known e.2 e'.2 ∧
      e.2 ∉ scene.tables) (f.edges c) (g.edges d) := by
    refine List.rel_flatMap (twins.tree_and (new .whole) (new .known)) fun p q here => ?_
    have passed := twins.whole p q here.1
    exact List.rel_map (fun n m child => ⟨child,here.2,passed⟩) (twins.children .known p q here.2 passed)
  have first := index.record twins met unpassed (new .known)
  rw [Index.enter,Index.enter,recordBelow_eq,recordBelow_eq]
  generalize ix.record a c = ix,ix'.record b d = ix' at first
  generalize f.edges c = es,g.edges d = es' at edges
  induction edges generalizing ix ix' with
  | nil => exact first
  | cons here _ ih => exact ih _ _ (first.record twins here.2.1 here.2.2 here.1)

/-- Paired elements are marked as taken out. -/
theorem leave (met : pair .known a b) : Twins scene pair f g (ix.leave a) (ix'.leave b) where
  root := index.root
  left n large := by
    have other : n ≠ a := fun same => Nat.not_lt.mpr large (same ▸ twins.lt_left met)
    simpa [Index.leave,other,parent?] using index.left n large
  right n large := by
    have other : n ≠ b := fun same => Nat.not_lt.mpr large (same ▸ twins.lt_right met)
    simpa [Index.leave,other,parent?] using index.right n large
  detached n m met' other := by
    have same := twins.eq_iff met' met
    simp [Index.leave,index.detached n m met' other,same]
  parents := index.parents
  low := index.low

/-- The parents of paired elements are forgotten. -/
theorem forget (met : pair .known a b) : Twins scene pair f g
    { ix with parents := ix.parents.filter (·.1 != a) } { ix' with parents := ix'.parents.filter (·.1 != b) } := by
  have found (ix : Index) (a n : NodeId) : ({ ix with parents := ix.parents.filter (·.1 != a) } : Index).parent? n =
      if n = a then none else ix.parent? n := by
    split
    · next same =>
      obtain rfl := same
      simp [parent?,List.find?_eq_none]
    · next other => exact (apart_forget ix (n + 1) a).parent?_eq n (Nat.lt_succ_self n) other
  have unknown {ix : Index} {a n : NodeId} (new : n ∉ ix.detached ∧ ix.parent? n = none) :
      n ∉ ix.detached ∧ ({ ix with parents := ix.parents.filter (·.1 != a) } : Index).parent? n = none := by
    rw [found]
    split
    · exact ⟨new.1,rfl⟩
    · exact new
  refine ⟨index.root,fun n large => unknown (index.left n large),fun n large => unknown (index.right n large),
    index.detached,fun n m met' other => ?_,index.low⟩
  · rw [found,found]
    have same := twins.eq_iff met' met
    by_cases place : n = a
    · rw [if_pos place,if_pos (same.mp place)]
      exact .none
    · rw [if_neg place,if_neg fun there => place (same.mpr there)]
      exact index.parents n m met' other

end

/-- What comes of two changes made through indices: the same fault, or forests and indices that look the same. -/
inductive Changes (scene : Scene) (pair : Pairing) (f g : Forest) :
    Except Fault (Bool × Index × Forest) → Except Fault (Bool × Index × Forest) → Prop
  | fault (fault : Fault) : Changes scene pair f g (.error fault) (.error fault)
  | done {known : Bool} {ix ix' : Index} {f' g' : Forest} (followed : Followed scene pair f g pair f' g')
    (index : Twins scene pair f' g' ix ix') : Changes scene pair f g (.ok (known,ix,f')) (.ok (known,ix',g'))

section
variable (index : Twins scene pair f g ix ix') (twins : Forest.Twins scene pair f g) (met : pair .known a b)
  (other : a ≠ ix.root) (free : ∀ n, ix.parent? a = some n → ¬ scene.fixed n)
  (free' : ∀ n, ix'.parent? b = some n → ¬ scene.fixed n)
include index twins met other free free'

omit free free' in
/-- All changes are made at the place of an element, if its parent is known. -/
private theorem placed {act act' : NodeId → Nat → Index × Forest}
    (each : ∀ parent parent' i, ix.parent? a = some parent → ix'.parent? b = some parent' →
      pair .known parent parent' → parent ∉ scene.tables →
        Followed scene pair f g pair (act parent i).2 (act' parent' i).2 ∧
          Twins scene pair (act parent i).2 (act' parent' i).2 (act parent i).1 (act' parent' i).1) :
    Changes scene pair f g
      (match ix.parent? a with
      | none => .ok (false,ix,f)
      | some parent => do
        let i ← position f parent a
        return (true,act parent i))
      (match ix'.parent? b with
      | none => .ok (false,ix',g)
      | some parent' => do
        let i ← position g parent' b
        return (true,act' parent' i)) := by
  rcases rel_cases (index.parents a b met other) with
    ⟨known,known'⟩ | ⟨parent,parent',known,known',above,unpassed⟩
  · rw [known,known']
    exact .done (.refl twins) index
  · rw [known,known']
    dsimp only
    rw [twins.position_eq above unpassed (twins.alike _ _ _ met)]
    cases position f parent a with
    | error fault => exact .fault fault
    | ok i =>
      obtain ⟨followed,index⟩ := each parent parent' i known known' above unpassed
      exact .done followed index

theorem remove : Changes scene pair f g (ix.remove f a) (ix'.remove g b) := by
  refine index.placed twins met other fun parent parent' i known known' above unpassed => ?_
  have out := twins.detach above unpassed (free parent known) (free' parent' known') (twins.alike _ _ _ met)
  exact ⟨out,((index.followed twins out).forget out.twins met).leave out.twins met⟩

section
variable (new : ∀ k, pair k c d) (outside : ∀ n, ix.parent? a = some n → ¬ f.Below c n)
  (outside' : ∀ n, ix'.parent? b = some n → ¬ g.Below d n)
include new outside outside'

theorem replace : Changes scene pair f g (ix.replace f a c) (ix'.replace g b d) := by
  refine index.placed twins met other fun parent parent' i known known' above unpassed => ?_
  have fewer (f : Forest) {n m : NodeId} (x y : NodeId) (path : (f.detach x y).Below n m) : f.Below n m :=
    ReflTransGen.mono (fun u _ here => f.children_detach_subset x y u here) _ _ path
  have out := twins.detach above unpassed (free parent known) (free' parent' known') (twins.alike _ _ _ met)
  have put := out.twins.insertAt above unpassed (free parent known) (free' parent' known') new
    (fun path => outside parent known (fewer f _ _ path))
      (fun path => outside' parent' known' (fewer g _ _ path)) i
  have both := out.trans put
  exact ⟨both,((index.followed twins both).leave both.twins met).enter both.twins above unpassed new⟩

theorem insertAfter : Changes scene pair f g (ix.insertAfter f a c) (ix'.insertAfter g b d) := by
  refine index.placed twins met other fun parent parent' i known known' above unpassed => ?_
  have put := twins.insertAt above unpassed (free parent known) (free' parent' known') new
    (outside parent known) (outside' parent' known') (i + 1)
  exact ⟨put,(index.followed twins put).enter put.twins above unpassed new⟩

end
end
end Twins
end Index
end MailMerge
