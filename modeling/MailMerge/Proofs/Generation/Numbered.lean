import MailMerge.Proofs.Generation.Spared

/-! Where the numbers of drawings come from. A number is one of the template, or was given to an image,
a chart or a watermark; and no two drawings of the document and the headers have the same one, if the
template leaves room for the numbers of images and charts.
-/
namespace MailMerge
open Xml Docx Package Relation

/-- Where the number of a drawing in a part comes from. -/
inductive World.Source (w : World) (s : Settings) (template : Package) (part : String) (k : Nat) :
    Prop
  | template (read : ∃ root, w.Knows part root) (listed : k ∈ template.numbersIn part)
  | given (gives : s.Gives w.session.images w.session.charts k)
  | watermark (beyond : s.watermarkBase < k)
    (read : ∀ other ∈ template.numberedParts s, ∃ root, w.Knows other root)

/-- The drawings in the document and the headers have numbers of their own with known sources, and so
has the one that shows what was embedded last. -/
structure World.Numbered (w : World) (s : Settings) (template : Package) : Prop where
  distinct : ∀ part ∈ template.numberedParts s, ∀ part' ∈ template.numberedParts s, ∀ a b k,
    w.Live part a k → w.Live part' b k → a = b
  source : ∀ part ∈ template.numberedParts s, ∀ id k, w.Live part id k →
    w.Source s template part k
  waiting : ∀ e, w.pending = some e → s.Gives w.session.images w.session.charts w.number ∧
    ∀ part ∈ template.numberedParts s, ∀ id k, w.Live part id k → (k : Int) ≠ w.number

variable {setup : Setup} {s : Settings} {template : Package} {images charts : Nat} {w w' : World}

theorem Settings.Gives.mono {k : Int} {images' charts' : Nat} (gives : s.Gives images charts k)
    (images_le : images ≤ images') (charts_le : charts ≤ charts') : s.Gives images' charts' k := by
  unfold Settings.Gives at *
  omega

/-- What goes on in a step apart from the drawings. -/
structure World.Onward (w w' : World) : Prop where
  images_le : w.session.images ≤ w'.session.images
  charts_le : w.session.charts ≤ w'.session.charts
  knows : ∀ name root, w.Knows name root → w'.Knows name root

theorem Leg.onward (sound : w.Sound) (step : Leg setup w w') : w.Onward w' := by
  have counted : w.session.images ≤ w'.session.images ∧ w.session.charts ≤ w'.session.charts := by
    cases step with
    | edit | mark | goTo | index | flush => exact ⟨Nat.le_refl _,Nat.le_refl _⟩
    | move step =>
      cases step with
      | work | «show» => exact ⟨Nat.le_refl _,Nat.le_refl _⟩
      | serve step => cases step <;> exact ⟨Nat.le_refl _,Nat.le_refl _⟩
      | store e counts =>
        cases counts with
        | image more => exact ⟨Nat.le_of_lt more,Nat.le_refl _⟩
        | chart more => exact ⟨Nat.le_refl _,Nat.le_of_lt more⟩
  exact ⟨counted.1,counted.2,fun name root ⟨t,known,same⟩ => ⟨t,sound.tree_leg step known,same⟩⟩

theorem World.Source.onward {part : String} {k : Nat} (source : w.Source s template part k)
    (onward : w.Onward w') : w'.Source s template part k := by
  cases source with
  | template read listed => exact .template (read.imp (onward.knows part)) listed
  | given gives => exact .given (gives.mono onward.images_le onward.charts_le)
  | watermark beyond read =>
    exact .watermark beyond fun other member => (read other member).imp (onward.knows other)

theorem Counts.gives {before : Session} {n : Int} (counts : Counts s before images charts n) :
    s.Gives images charts n := by
  cases counts with
  | image more => exact Or.inl (by omega)
  | chart more => exact Or.inr (by omega)

section
variable (room : template.LeavesRoom s images charts) {part : String} {k : Nat} {n : Int}
include room

/-- What an image or a chart is given was given to no other. -/
theorem Counts.new {before : Session} {images' charts' : Nat}
    (counts : Counts s before images' charts' n) (images_le : images' ≤ images)
    (charts_le : charts' ≤ charts) : ¬ s.Gives before.images before.charts n := by
  obtain ⟨_,_,images_below,charts_below⟩ := room
  unfold Settings.Gives
  cases counts <;> omega

theorem Settings.Gives.le (gives : s.Gives images charts n) : n ≤ s.watermarkBase := by
  obtain ⟨_,_,images_below,charts_below⟩ := room
  unfold Settings.Gives at gives
  omega

/-- A number that was not given yet is that of no drawing. -/
theorem World.Source.ne (source : w.Source s template part k) (member : part ∈ template.numberedParts s)
    (gives : s.Gives images charts n) (new : ¬ s.Gives w.session.images w.session.charts n) :
    (k : Int) ≠ n := by
  rintro rfl
  cases source with
  | template read listed => exact room.not_gives member listed gives
  | given gives => exact new gives
  | watermark beyond read => exact Int.not_lt.mpr (gives.le room) beyond

end

namespace World.Numbered

/-- What waits to be shown goes on waiting. -/
private theorem still (numbered : w.Numbered s template) (onward : w.Onward w')
    (pending_eq : w'.pending = w.pending) (number_eq : w'.number = w.number) (e : Embedding)
    (pending : w'.pending = some e) : s.Gives w'.session.images w'.session.charts w'.number ∧
      ∀ part ∈ template.numberedParts s, ∀ id k, w.Live part id k → (k : Int) ≠ w'.number := by
  obtain ⟨gives,new⟩ := numbered.waiting e (pending_eq ▸ pending)
  rw [number_eq]
  exact ⟨gives.mono onward.images_le onward.charts_le,new⟩

/-- Steps that bring in no drawing. -/
private theorem quiet (numbered : w.Numbered s template) (onward : w.Onward w')
    (live : ∀ part ∈ template.numberedParts s, ∀ id k, w'.Live part id k → w.Live part id k)
    (waiting : ∀ e, w'.pending = some e → s.Gives w'.session.images w'.session.charts w'.number ∧
      ∀ part ∈ template.numberedParts s, ∀ id k, w.Live part id k → (k : Int) ≠ w'.number) :
    w'.Numbered s template where
  distinct part member part' member' a b k first second :=
    numbered.distinct part member part' member' a b k (live part member a k first)
      (live part' member' b k second)
  source part member id k here :=
    (numbered.source part member id k (live part member id k here)).onward onward
  waiting e pending := (waiting e pending).imp_right fun new part member id k here =>
    new part member id k (live part member id k here)

/-- A drawing is planted with a number that none has. -/
private theorem planted (numbered : w.Numbered s template) (onward : w.Onward w')
    (sorted : w.grove.Sorted) {e : Element} {n : Int}
    (one : numbersBy e = (numeral? (toString n)).toList)
    (forest_eq : w'.grove.forest = (w.package.forest.plant e).2)
    (live : ∀ part id k, w'.Live part id k →
      (w.grove.plant w.session.part e).Live (w.Knows part) part id k)
    (new : ∀ part ∈ template.numberedParts s, ∀ id k, w.grove.Bears (w.Knows part) part id k →
      (k : Int) ≠ n)
    (source : ∀ (part : String) (k : Nat), (k : Int) = n → w'.Source s template part k)
    (waiting : ∀ e, w'.pending = some e → w'.pending = w.pending ∧ w'.number = w.number ∧
      w.number ≠ n) : w'.Numbered s template := by
  have cases_of (part : String) (id : NodeId) (k : Nat) (here : w'.Live part id k) :
      w.grove.Bears (w.Knows part) part id k ∨ w.package.forest.nodes.size ≤ id ∧ (k : Int) = n := by
    refine (Grove.Bears.of_plant sorted (live part id k here) fun r => Or.inl).imp_right ?_
    rintro ⟨large,_,counts⟩
    rw [one,Option.mem_toList] at counts
    exact ⟨large,eq_of_numeral?_toString counts⟩
  refine ⟨?_,?_,?_⟩
  · intro part member part' member' a b k first second
    rcases cases_of part a k first with former | ⟨large,same⟩ <;>
      rcases cases_of part' b k second with former' | ⟨large',same'⟩
    · exact numbered.distinct part member part' member' a b k former.live former'.live
    · exact absurd same' (new part member a k former)
    · exact absurd same (new part' member' b k former')
    · have distinct : (numbersBy e).Nodup := one ▸ (by cases numeral? (toString n) <;> simp)
      have sees := first.numbered
      have sees' := second.numbered
      exact Forest.seen_unique number?_nil distinct large large'
        (forest_eq ▸ sees) (forest_eq ▸ sees')
  · intro part member id k here
    rcases cases_of part id k here with former | ⟨_,same⟩
    · exact (numbered.source part member id k former.live).onward onward
    · exact source part k same
  · intro e pending
    obtain ⟨pending_eq,number_eq,different⟩ := waiting e pending
    refine (numbered.still onward pending_eq number_eq e pending).imp_right ?_
    intro other part member id k here
    rcases cases_of part id k here with former | ⟨_,same⟩
    · exact other part member id k former.live
    · rw [number_eq,same]
      exact different.symm

/-- The numbers of a part that was not read are those of no drawing elsewhere. -/
theorem notMem_unread (numbered : w.Numbered s template) (room : template.LeavesRoom s images charts)
    (bounds : w.session.images ≤ images ∧ w.session.charts ≤ charts) {part part' : String}
    (member : part ∈ template.numberedParts s) {id : NodeId} {k : Nat} (live : w.Live part id k)
    (member' : part' ∈ template.numberedParts s) (unread : w.package.trees.lookup part' = none) :
    k ∉ template.numbersIn part' := by
  intro listed
  cases numbered.source part member id k live with
  | template read listed' =>
    obtain ⟨_,t,known,_⟩ := read
    rw [room.part_eq member member' listed' listed,unread] at known
    simp at known
  | given gives => exact room.not_gives member' listed (gives.mono bounds.1 bounds.2)
  | watermark beyond read =>
    obtain ⟨_,t,known,_⟩ := read part' member'
    simp [unread] at known

/-- A part is read, with numbers that the template has and no other part. -/
private theorem serve (numbered : w.Numbered s template) (onward : w.Onward w') (sound : w.Sound)
    (room : template.LeavesRoom s images charts)
    (usual : s.headerPattern = ({} : Settings).headerPattern)
    (bounds : w'.session.images ≤ images ∧ w'.session.charts ≤ charts)
    (content : ∀ part ∈ template.numberedParts s, w.package.trees.lookup part = none →
      w.package.content? part = template.content? part) (step : Serve w w') :
    w'.Numbered s template := by
  have cases_of (part : String) (member : part ∈ template.numberedParts s) (id : NodeId) (k : Nat)
      (here : w'.Live part id k) : w.Live part id k ∨ (w.package.forest.nodes.size ≤ id ∧
        k ∈ template.numbersIn part ∧ ∃ e, Reads w w' part e ∧ template.numbersIn part = numbersBy e) := by
    refine (step.live sound (isDirect_of_mem_numberedParts usual member) here).imp_right ?_
    rintro ⟨large,e,reads⟩
    have numbers_eq : template.numbersIn part = numbersBy e := by
      rw [Package.numbersIn,← content part member reads.unread,reads.content]
      rfl
    have sees := here.numbered
    rw [show w'.grove.forest = _ from reads.forest_eq] at sees
    exact ⟨large,numbers_eq ▸ Forest.mem_seenBy number?_nil large sees,e,reads,numbers_eq⟩
  have bounds' : w.session.images ≤ images ∧ w.session.charts ≤ charts :=
    ⟨Nat.le_trans onward.images_le bounds.1,Nat.le_trans onward.charts_le bounds.2⟩
  refine ⟨?_,?_,?_⟩
  · intro part member part' member' a b k first second
    rcases cases_of part member a k first with former | ⟨large,listed,e,reads,numbers_eq⟩ <;>
      rcases cases_of part' member' b k second with former' | ⟨large',listed',e',reads',_⟩
    · exact numbered.distinct part member part' member' a b k former former'
    · exact (numbered.notMem_unread room bounds' member former member' reads'.unread listed').elim
    · exact (numbered.notMem_unread room bounds' member' former' member reads.unread listed).elim
    · have distinct : (numbersBy e).Nodup := numbers_eq ▸ room.nodup_numbersIn member
      have sees := first.numbered
      have sees' := second.numbered
      rw [show w'.grove.forest = _ from reads.forest_eq] at sees sees'
      exact Forest.seen_unique number?_nil distinct large large' sees sees'
  · intro part member id k here
    rcases cases_of part member id k here with former | ⟨_,listed,e,reads,_⟩
    · exact (numbered.source part member id k former).onward onward
    · exact .template reads.known listed
  · intro e pending
    have single : Serves w w' := ReflTransGen.single step
    obtain ⟨gives,new⟩ := numbered.still onward single.pending_eq single.number_eq e pending
    refine ⟨gives,fun part member id k here => ?_⟩
    rcases cases_of part member id k here with former | ⟨_,listed,_⟩
    · exact new part member id k former
    · rintro given
      exact room.not_gives member listed (given ▸ gives.mono bounds.1 bounds.2)

theorem leg (numbered : w.Numbered setup.settings template) (sound : w.Sound)
    (room : template.LeavesRoom setup.settings images charts)
    (usual : setup.settings.headerPattern = ({} : Settings).headerPattern)
    (parts_eq : w.package.numberedParts setup.settings = template.numberedParts setup.settings)
    (content : ∀ part ∈ template.numberedParts setup.settings,
      w.package.trees.lookup part = none → w.package.content? part = template.content? part)
    (step : Leg setup w w') (bounds : w'.session.images ≤ images ∧ w'.session.charts ≤ charts) :
    w'.Numbered setup.settings template := by
  have onward := step.onward sound
  cases step with
  | goTo | index | flush =>
    exact numbered.quiet onward (fun _ _ _ _ => id) (numbered.still onward rfl rfl)
  | edit direct step =>
    exact numbered.quiet onward (fun _ _ _ _ => step.live sound.sorted)
      (numbered.still onward rfl rfl)
  | mark direct drawn free =>
    refine numbered.planted onward sound.sorted (numbersBy_watermark drawn) rfl
      (fun _ _ _ => id) ?_ ?_ ?_
    · exact fun part member => free.new part (parts_eq ▸ member)
    · rintro part k rfl
      exact .watermark free.beyond fun other member => free.read other (parts_eq ▸ member)
    · intro e pending
      obtain ⟨gives,_⟩ := numbered.waiting e pending
      have below := (gives.mono bounds.1 bounds.2).le room
      exact ⟨rfl,rfl,Int.ne_of_lt (Int.lt_of_le_of_lt below free.beyond)⟩
  | move step =>
    cases step with
    | serve step => exact numbered.serve onward sound room usual bounds content step
    | work direct step =>
      exact numbered.quiet onward (fun _ _ _ _ => step.edits.live sound.sorted)
        (numbered.still onward rfl rfl)
    | store e counts embedded new genuine =>
      refine numbered.quiet onward ?_ ?_
      · intro part _ id k live
        refine live.mono ?_
        rintro r (⟨t,known,same⟩ | last)
        · have known' := (lookup_trees_write w.package e.file part e.data).symm.trans known
          split at known'
          · simp at known'
          · exact Or.inl ⟨t,known',same⟩
        · exact Or.inr last
      · intro _ _
        refine ⟨counts.gives,fun part member id k live => ?_⟩
        exact (numbered.source part member id k live).ne room member
          (counts.gives.mono bounds.1 bounds.2) (counts.new room bounds.1 bounds.2)
    | «show» direct pending here linked typed new inside shows one =>
      obtain ⟨gives,other⟩ := numbered.waiting _ pending
      refine numbered.planted onward sound.sorted one rfl (fun _ _ _ => id) ?_ ?_ (by simp)
      · exact fun part member id k bears => other part member id k bears.live
      · rintro part k same
        exact .given (same ▸ gives)

end World.Numbered

end MailMerge
