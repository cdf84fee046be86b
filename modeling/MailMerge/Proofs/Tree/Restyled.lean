import MailMerge.Proofs.Tree.Twins
import MailMerge.Table.Style

/-! Styling rows of forests that look the same. Shading reaches the cells of a row only, and bold marks reach all
runs below them, those of tables that are passed over as well: these tables hold different runs in the two forests,
and become bold each for itself. What is paired looks the same afterwards.
-/
namespace MailMerge
open Xml Docx Relation

namespace Forest

/-- Elements of two forests in order, where those between the paired ones are not paired at all. -/
inductive Mingled (pair : Pairing) (k : Grade) : List NodeId → List NodeId → Prop
  | nil : Mingled pair k [] []
  | both {a b : NodeId} {as bs : List NodeId} (met : pair k a b) (rest : Mingled pair k as bs) :
    Mingled pair k (a :: as) (b :: bs)
  | left {a : NodeId} {as bs : List NodeId} (aside : ¬ ∃ b, pair .alike a b) (rest : Mingled pair k as bs) :
    Mingled pair k (a :: as) bs
  | right {b : NodeId} {as bs : List NodeId} (aside : ¬ ∃ a, pair .alike a b) (rest : Mingled pair k as bs) :
    Mingled pair k as (b :: bs)

namespace Mingled

variable {pair : Pairing} {k : Grade} {as as' bs bs' : List NodeId}

theorem append (first : Mingled pair k as bs) (second : Mingled pair k as' bs') :
    Mingled pair k (as ++ as') (bs ++ bs') := by
  induction first with
  | nil => exact second
  | both met _ ih => exact .both met ih
  | left aside _ ih => exact .left aside ih
  | right aside _ ih => exact .right aside ih

/-- Elements that are not paired, in the first forest and then in the second. -/
theorem of_aside (left : ∀ a ∈ as, ¬ ∃ b, pair .alike a b) (right : ∀ b ∈ bs, ¬ ∃ a, pair .alike a b) :
    Mingled pair k as bs := by
  induction as with
  | nil =>
    induction bs with
    | nil => exact .nil
    | cons b bs ih =>
      exact .right (right b List.mem_cons_self) (ih fun c member => right c (List.mem_cons_of_mem b member))
  | cons a as ih =>
    exact .left (left a List.mem_cons_self) (ih fun c member => left c (List.mem_cons_of_mem a member))

theorem filter {p q : NodeId → Bool} (mingled : Mingled pair k as bs) (same : ∀ a b, pair k a b → p a = q b) :
    Mingled pair k (as.filter p) (bs.filter q) := by
  induction mingled with
  | nil => exact .nil
  | @both a b _ _ met _ ih =>
    rw [List.filter_cons,List.filter_cons,← same a b met]
    cases p a with
    | true => exact .both met ih
    | false => exact ih
  | @left a _ _ aside _ ih =>
    rw [List.filter_cons]
    cases p a with
    | true => exact .left aside ih
    | false => exact ih
  | @right b _ _ aside _ ih =>
    rw [List.filter_cons]
    cases q b with
    | true => exact .right aside ih
    | false => exact ih

theorem flatMap {each each' : NodeId → List NodeId} (met : List.Forall₂ (pair k) as bs)
    (step : ∀ a b, a ∈ as → pair k a b → Mingled pair k (each a) (each' b)) :
    Mingled pair k (as.flatMap each) (bs.flatMap each') := by
  induction met with
  | nil => exact .nil
  | @cons a b as _ here _ ih =>
    exact (step a b List.mem_cons_self here).append
      (ih fun c d member => step c d (List.mem_cons_of_mem a member))

end Mingled

private theorem findIdx?_eq {r : NodeId → NodeId → Prop} {as bs : List NodeId} {p q : NodeId → Bool}
    (met : List.Forall₂ r as bs) (same : ∀ a b, r a b → q b = p a) : bs.findIdx? q = as.findIdx? p := by
  induction met with
  | nil => rfl
  | cons here _ ih => rw [List.findIdx?_cons,List.findIdx?_cons,same _ _ here,ih]

namespace Side

variable {tables : List NodeId} {fixed paired : NodeId → Prop} {start f : Forest} {a n : NodeId}

/-- What is below an element that is not paired is not paired. -/
theorem aside_below (side : Side tables fixed paired start f) (aside : ¬ paired a) (path : f.Below a n) :
    ¬ paired n := by
  induction path with
  | refl => exact aside
  | tail _ here ih => exact fun met => ih (side.up _ _ here met).1

/-- Something changed beside the paired elements. -/
structure Besides (tables : List NodeId) (fixed paired : NodeId → Prop) (start f g : Forest) : Prop where
  side : Side tables fixed paired start g
  size_le : f.nodes.size ≤ g.nodes.size
  node_eq : ∀ n, paired n → g.node n = f.node n

theorem Besides.refl (side : Side tables fixed paired start f) : Besides tables fixed paired start f f :=
  ⟨side,Nat.le_refl _,fun _ _ => rfl⟩

theorem Besides.trans {g h : Forest} (first : Besides tables fixed paired start f g)
    (second : Besides tables fixed paired start g h) : Besides tables fixed paired start f h where
  side := second.side
  size_le := Nat.le_trans first.size_le second.size_le
  node_eq n met := (second.node_eq n met).trans (first.node_eq n met)

section
variable (side : Side tables fixed paired start f) (aside : ¬ paired a) (inside : a < f.nodes.size)
  (free : ¬ fixed a)
include side aside inside free

/-- A leaf is put among the children of an element that is not paired. -/
private theorem besides_graft (name : Name) (attributes : Attributes) {change : List NodeId → List NodeId}
    {before after : List NodeId} (split : f.children a = before ++ after)
    (changed : change (f.children a) = before ++ f.nodes.size :: after) : Besides tables fixed paired start f
      ((f.add { name := name, attributes := attributes }).2.updateChildren a change) := by
  have added := side.addAside { name := name, attributes := attributes } rfl
  have old {n : NodeId} (inside : n < f.nodes.size) :
      (f.add { name := name, attributes := attributes }).2.node n = f.node n := by
    rw [node_add,if_neg (Nat.ne_of_lt inside)]
  have outside := Twins.outside_plant f (.node name attributes []) inside
  have size_eq := size_add f { name := name, attributes := attributes }
  change ¬ (f.add { name := name, attributes := attributes }).2.Below f.nodes.size a at outside
  generalize (f.add { name := name, attributes := attributes }).2 = g at added old outside size_eq
  have children_eq : g.children a = f.children a := congrArg Node.children (old inside)
  rw [← children_eq] at split changed
  have new : ¬ paired f.nodes.size := fun met => Nat.lt_irrefl _ (side.inside _ met)
  have members : ∀ c ∈ change (g.children a), c ∈ g.children a ∨ c = f.nodes.size :=
    fun c => mem_of_split split changed
  refine ⟨added.relinkAside aside free (added.acyclic.graft (size_eq ▸ Nat.lt_succ_self _) outside members)
    (fun c member => (members c member).imp_right fun (same : c = f.nodes.size) => same ▸ new) ?_,
      Nat.le_trans (Nat.le_succ _) (Nat.le_of_eq (size_eq.symm.trans (g.size_update a _).symm)),
        fun n met => ?_⟩
  · rw [changed,split,List.filter_append,List.filter_append,List.filter_cons,if_neg]
    simpa using side.size_le
  · have other : n ≠ a := fun same => aside (same ▸ met)
    rw [updateChildren,node_update_of_ne _ _ other,old (side.inside n met)]

private theorem besides_insertInOrder (name : Name) (attributes : Attributes) (later : List String) :
    Besides tables fixed paired start f ((f.add { name := name, attributes := attributes }).2.insertInOrder a
      (f.add { name := name, attributes := attributes }).1 later) := by
  unfold insertInOrder
  split
  · next i _ => exact side.besides_graft aside inside free name attributes (List.take_append_drop i _).symm rfl
  · exact side.besides_graft aside inside free name attributes (List.append_nil _).symm rfl

private theorem besides_firstOrNew {stem : String} (other : main stem ≠ rowName) :
    Besides tables fixed paired start f (f.firstOrNew a stem).2 ∧ ¬ paired (f.firstOrNew a stem).1 ∧
      (f.firstOrNew a stem).1 < (f.firstOrNew a stem).2.nodes.size ∧
        ¬ fixed (f.firstOrNew a stem).1 := by
  unfold firstOrNew
  cases found : f.childNamed? a (main stem) with
  | some look =>
    have child : f.Child a look := List.mem_of_find?_eq_some found
    exact ⟨.refl side,fun met => aside (side.up a look child met).1,side.acyclic.inside a look child,
      fun stays => other (Eq.trans (eq_of_beq (List.find?_some (p := fun id => f.name id == main stem) found)).symm
        (side.fixed_name stays))⟩
  | none =>
    have grafted : Besides tables fixed paired start f
        ((f.add { name := main stem }).2.insertAt a 0 f.nodes.size) :=
      side.besides_graft aside inside free (main stem) [] (List.nil_append _).symm rfl
    refine ⟨grafted,fun met => Nat.lt_irrefl _ (side.inside _ met),?_,?_⟩
    · simp [insertAt,updateChildren]
    · exact fun stays => Nat.lt_irrefl _ (Nat.lt_of_lt_of_le (side.fixed_lt _ stays) side.size_le)

theorem besides_embolden : Besides tables fixed paired start f (Table.embolden f a) := by
  obtain ⟨found,aside',inside',free'⟩ := side.besides_firstOrNew aside inside free (by decide : main "rPr" ≠ rowName)
  unfold Table.embolden
  generalize f.firstOrNew a "rPr" = pair at found aside' inside' free'
  obtain ⟨look,g⟩ := pair
  dsimp only
  split
  · exact found
  · exact found.trans (found.side.besides_insertInOrder aside' inside' free' _ _ _)

end
end Side

namespace Twins

variable {scene : Scene} {pair : Pairing} {f g : Forest} {k : Grade} {a b : NodeId}

section
variable (twins : Twins scene pair f g)
include twins

/-- All elements of a tree, those in tables that are passed over among them. -/
theorem mingled (met : pair k a b) : Mingled pair k (f.tree a) (g.tree b) := by
  obtain ⟨level,sorted⟩ := twins.left.acyclic.sorted
  obtain ⟨level',sorted'⟩ := twins.right.acyclic.sorted
  revert b
  refine sorted.induction (motive := fun a => ∀ {b}, pair k a b → Mingled pair k (f.tree a) (g.tree b)) ?_ a
  intro a ih b met
  rw [tree_eq sorted,tree_eq sorted']
  refine .both met ?_
  by_cases closed : a ∈ scene.tables
  · have closed' := (twins.passed_iff a b (twins.alike k a b met)).mp closed
    refine .of_aside (fun n member => ?_) fun n member => ?_
    · obtain ⟨c,here,member⟩ := List.mem_flatMap.mp member
      have aside : ¬ ∃ d, pair .alike c d := fun met => (twins.left.up a c here met).2 closed
      exact twins.left.aside_below aside ((mem_tree_iff sorted).mp member)
    · obtain ⟨d,here,member⟩ := List.mem_flatMap.mp member
      have aside : ¬ ∃ c, pair .alike c d := fun met => (twins.right.up b d here met).2 closed'
      exact twins.right.aside_below aside ((mem_tree_iff sorted').mp member)
  · exact .flatMap (twins.children k a b met closed) fun c d here met => ih c here met

theorem mingled_named (met : pair k a b) (name : Name) :
    Mingled pair k (f.named a name) (g.named b name) :=
  (twins.mingled met).filter fun c d met => by rw [twins.name_eq met]

section
variable (met : pair k a b) (unpassed : a ∉ scene.tables) (free : ¬ scene.fixed a) (free' : ¬ scene.fixed b)
include met unpassed free free'

/-- A leaf is put among the children of paired elements where it belongs. -/
private theorem insertInOrder (name : Name) (attributes : Attributes) (later : List String) :
    ∃ pair', Followed scene pair f g pair'
      ((f.add { name := name, attributes := attributes }).2.insertInOrder a
        (f.add { name := name, attributes := attributes }).1 later)
      ((g.add { name := name, attributes := attributes }).2.insertInOrder b
        (g.add { name := name, attributes := attributes }).1 later) := by
  obtain ⟨pair',planted,new⟩ := twins.plant (.node name attributes [])
  have outside := outside_plant f (.node name attributes []) (twins.lt_left met)
  have outside' := outside_plant g (.node name attributes []) (twins.lt_right met)
  refine ⟨pair',planted.trans ?_⟩
  have met' := planted.more k a b met
  have twins' := planted.twins
  change Followed scene pair' (f.add { name := name, attributes := attributes }).2
    (g.add { name := name, attributes := attributes }).2 _ _ _
  change Twins scene pair' (f.add { name := name, attributes := attributes }).2
    (g.add { name := name, attributes := attributes }).2 at twins'
  change ∀ k, pair' k (f.add { name := name, attributes := attributes }).1
    (g.add { name := name, attributes := attributes }).1 at new
  change ¬ (f.add { name := name, attributes := attributes }).2.Below
    (f.add { name := name, attributes := attributes }).1 a at outside
  change ¬ (g.add { name := name, attributes := attributes }).2.Below
    (g.add { name := name, attributes := attributes }).1 b at outside'
  generalize f.add { name := name, attributes := attributes } = added at twins' new outside
  generalize g.add { name := name, attributes := attributes } = added' at twins' new outside'
  have place : (added'.2.children b).findIdx? (fun id => later.contains (added'.2.name id).stem) =
      (added.2.children a).findIdx? fun id => later.contains (added.2.name id).stem :=
    findIdx?_eq (twins'.children k a b met' unpassed) fun c d met => by rw [twins'.name_eq met]
  unfold Forest.insertInOrder
  rw [place]
  split
  · next i _ => exact twins'.insertAt met' unpassed free free' new outside outside' i
  · exact twins'.append met' unpassed free free' new outside outside'

private theorem firstOrNew (stem : String) : ∃ pair',
    Followed scene pair f g pair' (f.firstOrNew a stem).2 (g.firstOrNew b stem).2 ∧
      pair' k (f.firstOrNew a stem).1 (g.firstOrNew b stem).1 ∧
        (f.firstOrNew a stem).2.name (f.firstOrNew a stem).1 = main stem := by
  have found := twins.childNamed? met unpassed (main stem)
  unfold Forest.firstOrNew
  rcases rel_cases found with ⟨first,second⟩ | ⟨look,look',first,second,same⟩
  · rw [first,second]
    obtain ⟨pair',planted,new⟩ := twins.plant (.node (main stem) [] [])
    have outside := outside_plant f (.node (main stem) [] []) (twins.lt_left met)
    have outside' := outside_plant g (.node (main stem) [] []) (twins.lt_right met)
    refine ⟨pair',planted.trans (planted.twins.insertAt (planted.more k a b met) unpassed free free' new
      outside outside' 0),new k,?_⟩
    dsimp only [Forest.insertAt]
    rw [name_updateChildren,Forest.name,fst_add,node_add,if_pos rfl]
  · rw [first,second]
    exact ⟨pair,.refl twins,same,
      eq_of_beq (List.find?_some (p := fun id => f.name id == main stem) first)⟩

theorem shade (fill : String) :
    ∃ pair', Followed scene pair f g pair' (Table.shade f a fill) (Table.shade g b fill) := by
  obtain ⟨pair₁,found,here,kind⟩ := twins.firstOrNew met unpassed free free' "tcPr"
  unfold Table.shade
  generalize f.firstOrNew a "tcPr" = first at found here kind
  generalize g.firstOrNew b "tcPr" = second at found here kind
  obtain ⟨look,f₁⟩ := first
  obtain ⟨look',g₁⟩ := second
  dsimp only at found here kind ⊢
  obtain ⟨bare,bare'⟩ := found.twins.free here (by rw [kind]; decide)
  have shown := found.twins.unpassed here (by rw [kind]; decide)
  -- the old shadings are taken out
  have cleared {olds olds' : List NodeId} (related : List.Forall₂ (pair₁ k) olds olds') {f₁ g₁ : Forest}
      (twins : Twins scene pair₁ f₁ g₁) : Followed scene pair₁ f₁ g₁ pair₁
        (olds.foldl (fun f old => f.detach look old) f₁) (olds'.foldl (fun f old => f.detach look' old) g₁) := by
    induction related generalizing f₁ g₁ with
    | nil => exact .refl twins
    | cons old _ ih =>
      have out := twins.detach here shown bare bare' (twins.alike _ _ _ old)
      exact out.trans (ih out.twins)
  have clear := cleared (found.twins.childrenNamed here shown (main "shd")) found.twins
  obtain ⟨pair₂,shaded⟩ := clear.twins.insertInOrder here shown bare bare' (main "shd")
    [(main "val","clear"),(main "color","auto"),(main "fill",fill)] Table.afterShading
  exact ⟨pair₂,found.trans (clear.trans shaded)⟩

theorem embolden : ∃ pair', Followed scene pair f g pair' (Table.embolden f a) (Table.embolden g b) := by
  obtain ⟨pair₁,found,here,kind⟩ := twins.firstOrNew met unpassed free free' "rPr"
  unfold Table.embolden
  generalize f.firstOrNew a "rPr" = first at found here kind
  generalize g.firstOrNew b "rPr" = second at found here kind
  obtain ⟨look,f₁⟩ := first
  obtain ⟨look',g₁⟩ := second
  dsimp only at found here kind ⊢
  obtain ⟨bare,bare'⟩ := found.twins.free here (by rw [kind]; decide)
  have shown := found.twins.unpassed here (by rw [kind]; decide)
  have mark := found.twins.childNamed? here shown (main "b")
  rcases rel_cases mark with ⟨first,second⟩ | ⟨old,old',first,second,-⟩
  · rw [first,second]
    obtain ⟨pair₂,marked⟩ := found.twins.insertInOrder here shown bare bare' (main "b") [] Table.afterBold
    exact ⟨pair₂,found.trans marked⟩
  · rw [first,second]
    exact ⟨pair₁,found⟩

end

/-- The runs below paired elements become bold, those that are not paired as well. -/
private theorem emboldenAll {as bs : List NodeId} (mingled : Mingled pair k as bs)
    (runs : ∀ a ∈ as, a < f.nodes.size ∧ ¬ scene.fixed a ∧ ∀ b, pair k a b → a ∉ scene.tables)
    (runs' : ∀ b ∈ bs, b < g.nodes.size ∧ ¬ scene.fixed b) :
    ∃ pair', Followed scene pair f g pair' (as.foldl Table.embolden f) (bs.foldl Table.embolden g) := by
  suffices later : ∀ {pair' f' g'}, Followed scene pair f g pair' f' g' → ∃ pair'',
      Followed scene pair' f' g' pair'' (as.foldl Table.embolden f') (bs.foldl Table.embolden g') from
    later (.refl twins)
  have old {pair' : Pairing} {f' g' : Forest} (followed : Followed scene pair f g pair' f' g') {n : NodeId} :
      (n < f.nodes.size → (¬ ∃ b, pair .alike n b) → ¬ ∃ b, pair' .alike n b) ∧
        (n < g.nodes.size → (¬ ∃ a, pair .alike a n) → ¬ ∃ a, pair' .alike a n) :=
    ⟨fun inside aside ⟨b,met⟩ => (followed.new .alike n b met).elim (fun met => aside ⟨b,met⟩)
        fun new => Nat.not_lt.mpr new.1 inside,
      fun inside aside ⟨a,met⟩ => (followed.new .alike a n met).elim (fun met => aside ⟨a,met⟩)
        fun new => Nat.not_lt.mpr new.2 inside⟩
  clear twins
  induction mingled with
  | nil => exact fun {_ _ _} followed => ⟨_,.refl followed.twins⟩
  | both met _ ih =>
    intro pair' f' g' followed
    obtain ⟨⟨-,free,unpassed⟩,runs⟩ := List.forall_mem_cons.mp runs
    obtain ⟨⟨-,free'⟩,runs'⟩ := List.forall_mem_cons.mp runs'
    obtain ⟨pair₁,bold⟩ := followed.twins.embolden (followed.more k _ _ met) (unpassed _ met) free free'
    obtain ⟨pair₂,rest⟩ := ih runs runs' (followed.trans bold)
    exact ⟨pair₂,bold.trans rest⟩
  | left aside _ ih =>
    intro pair' f' g' followed
    obtain ⟨⟨inside,free,-⟩,runs⟩ := List.forall_mem_cons.mp runs
    have besides := followed.twins.left.besides_embolden ((old followed).1 inside aside)
      (Nat.lt_of_lt_of_le inside followed.left) free
    have bold : Followed scene pair' f' g' pair' _ g' :=
      ⟨followed.twins.changeLeft besides.side fun a b met => besides.node_eq a ⟨b,met⟩,le_refl pair',
        fun _ _ _ => Or.inl,besides.size_le,Nat.le_refl _⟩
    obtain ⟨pair₂,rest⟩ := ih runs runs' (followed.trans bold)
    exact ⟨pair₂,bold.trans rest⟩
  | right aside _ ih =>
    intro pair' f' g' followed
    obtain ⟨⟨inside,free⟩,runs'⟩ := List.forall_mem_cons.mp runs'
    have besides := followed.twins.right.besides_embolden ((old followed).2 inside aside)
      (Nat.lt_of_lt_of_le inside followed.right) free
    have bold : Followed scene pair' f' g' pair' f' _ :=
      ⟨followed.twins.changeRight besides.side fun a b met => besides.node_eq b ⟨a,met⟩,le_refl pair',
        fun _ _ _ => Or.inl,Nat.le_refl _,besides.size_le⟩
    obtain ⟨pair₂,rest⟩ := ih runs runs' (followed.trans bold)
    exact ⟨pair₂,bold.trans rest⟩

/-- A step repeated for elements that are paired. -/
private theorem foldl {start : Pairing} {step : Forest → NodeId → Forest} {as bs : List NodeId}
    (each : ∀ {pair : Pairing} {f g : Forest} {a b : NodeId}, Twins scene pair f g → pair k a b →
      a ∉ scene.tables → ¬ scene.fixed a → ¬ scene.fixed b →
        ∃ pair', Followed scene pair f g pair' (step f a) (step g b))
    (related : List.Forall₂ (fun a b => start k a b ∧ a ∉ scene.tables ∧ ¬ scene.fixed a ∧ ¬ scene.fixed b) as bs)
    (more : start ≤ pair) : ∃ pair', Followed scene pair f g pair' (as.foldl step f) (bs.foldl step g) := by
  induction related generalizing pair f g with
  | nil => exact ⟨pair,.refl twins⟩
  | cons here _ ih =>
    obtain ⟨met,unpassed,free,free'⟩ := here
    obtain ⟨pair₁,first⟩ := each twins (more k _ _ met) unpassed free free'
    obtain ⟨pair₂,rest⟩ := ih first.twins (more.trans first.more)
    exact ⟨pair₂,first.trans rest⟩

theorem styleRow (s : Settings) (met : pair k a b) (unpassed : a ∉ scene.tables) (style : String) :
    ∃ pair', Followed scene pair f g pair' (Table.styleRow s f a style) (Table.styleRow s g b style) := by
  have cells : List.Forall₂ (fun a b => pair k a b ∧ a ∉ scene.tables ∧ ¬ scene.fixed a ∧ ¬ scene.fixed b)
      (f.childrenNamed a cellName) (g.childrenNamed b cellName) := by
    refine (forall₂_mem (twins.childrenNamed met unpassed cellName)).imp fun c d here => ?_
    have kind : f.name c = cellName := eq_of_beq (List.mem_filter.mp here.1).2
    exact ⟨here.2,twins.unpassed here.2 (by rw [kind]; decide),twins.free here.2 (by rw [kind]; decide)⟩
  unfold Table.styleRow
  dsimp only
  split
  · next fill _ =>
    exact twins.foldl (fun twins met unpassed free free' => twins.shade met unpassed free free' fill) cells
      (le_refl pair)
  · split
    · refine twins.foldl (fun {_ f g a b} twins met _ _ _ => ?_) cells (le_refl pair)
      refine twins.emboldenAll (twins.mingled_named met runName) (fun n member => ?_) fun n member => ?_
      · have kind := (mem_named.mp member).2
        exact ⟨f.lt_size_of_name kind (by decide),
          fun stays => absurd ((twins.left.fixed_name stays).symm.trans kind) (by decide),
          fun _ met => twins.unpassed met (by rw [kind]; decide)⟩
      · have kind := (mem_named.mp member).2
        exact ⟨Forest.lt_size_of_name _ kind (by decide),
          fun stays => absurd ((twins.right.fixed_name stays).symm.trans kind) (by decide)⟩
    · exact ⟨pair,.refl twins⟩

/-- A directive is taken out of paired cells that hold no table which is passed over. -/
theorem strip (met : pair .whole a b) (raw : List Char) :
    ∃ pair', Followed scene pair f g pair' (Table.strip f a raw) (Table.strip g b raw) := by
  have found : Option.Rel (pair .whole)
      ((f.named a paragraphName).find? fun p => Text.occursIn raw (f.paragraphText p))
      ((g.named b paragraphName).find? fun p => Text.occursIn raw (g.paragraphText p)) :=
    rel_find? (fun c d met => by rw [twins.paragraphText_eq met]) (twins.named met paragraphName)
  unfold Table.strip
  rcases rel_cases found with ⟨first,second⟩ | ⟨p,q,first,second,here⟩
  · rw [first,second]
    exact ⟨pair,.refl twins⟩
  · rw [first,second]
    have kind := (mem_named.mp (List.mem_of_find?_eq_some first)).2
    dsimp only
    rw [twins.paragraphText_eq here]
    exact twins.setParagraphText here kind _

end
end Twins
end Forest
end MailMerge
