import Mathlib
import MailMerge.Proofs.Generation.Delivered
import MailMerge.Proofs.Generation.Document
import MailMerge.Proofs.Generation.Drawings
import MailMerge.Proofs.Generation.Numbered

/-! The numbers of the drawings in the document and in the headers stay different from each other when
the template uses none of those that images and charts are given. Watermarks get free numbers.
-/
namespace MailMerge
open Xml Docx Package Relation

variable {setup : Setup} {s : Settings} {template : Package} {images charts : Nat} {w : World}

/-- Parts that were never read contain what they contained at the beginning. -/
private theorem content?_of_unread (fresh : template.Fresh)
    (steps : Legs setup (World.initial template) w) {part : String}
    (present : template.hasPart part = true) (unread : w.package.trees.lookup part = none) :
    w.package.content? part = template.content? part := by
  obtain ⟨data,held⟩ := hasPart_iff.mp present
  have held' : w.package.part? part = some data :=
    steps.part?_eq (World.sound_initial fresh) held unread
  simp [Package.content?,unread,held,held',fresh.trees]

namespace World.Numbered

theorem legs (fresh : template.Fresh)
    (present : ∀ part ∈ template.numberedParts setup.settings, template.hasPart part = true)
    (room : template.LeavesRoom setup.settings images charts)
    (usual : setup.settings.headerPattern = ({} : Settings).headerPattern)
    (steps : Legs setup (World.initial template) w)
    (bounds : w.session.images ≤ images ∧ w.session.charts ≤ charts) :
    w.Numbered setup.settings template := by
  have sound₀ := World.sound_initial fresh
  induction steps with
  | refl =>
    have none (part : String) (id : NodeId) (k : Nat)
        (live : (World.initial template).Live part id k) : False := by
      have inside := live.inside
      simp [World.grove,World.package,World.initial,fresh.forest] at inside
    exact ⟨fun part _ _ _ a _ k live _ => (none part a k live).elim,
      fun part _ id k live => (none part id k live).elim,by simp [World.initial]⟩
  | tail steps step ih =>
    have sound := Legs.sound steps sound₀
    have onward := step.onward sound
    exact (ih ⟨Nat.le_trans onward.images_le bounds.1,Nat.le_trans onward.charts_le bounds.2⟩).leg
      sound room usual (Legs.numberedParts_eq usual steps sound₀)
        (fun part member => content?_of_unread fresh steps (present part member)) step bounds

section
variable (sound : w.Sound) {part : String} {t : PartTree}
  (known : w.package.trees.lookup part = some t)
include sound known

/-- The numbers in a part that was read are those of its tree. -/
private theorem numbersIn_eq : w.package.numbersIn part =
    (w.package.forest.tree t.root).filterMap (w.package.forest.seen number?) := by
  have content : w.package.content? part = some (w.package.forest.element t.root) := by
    simp [Package.content?,known]
  rw [Package.numbersIn,content]
  exact Forest.seenBy_element sound.sorted number? t.root

private theorem live_of_tree {id : NodeId} (inside : id ∈ w.package.forest.tree t.root) {k : Nat}
    (sees : w.package.forest.seen number? id = some k) : w.Live part id k :=
  ⟨(sound.sorted.within_tree (sound.tree part t known).1 inside).2,sees,t.root,
    Or.inl ⟨t,known,rfl⟩,(Forest.mem_tree_iff sound.sorted).mp inside⟩

end

/-- At the end all numbers are different. -/
theorem nodup (numbered : w.Numbered s template) (sound : w.Sound)
    (room : template.LeavesRoom s images charts)
    (bounds : w.session.images ≤ images ∧ w.session.charts ≤ charts)
    (parts_eq : w.package.numberedParts s = template.numberedParts s)
    (distinct : (template.numberedParts s).Nodup)
    (content : ∀ part ∈ template.numberedParts s, w.package.trees.lookup part = none →
      w.package.content? part = template.content? part) : (w.package.numbers s).Nodup := by
  have unread_eq (part : String) (member : part ∈ template.numberedParts s)
      (unread : w.package.trees.lookup part = none) :
      w.package.numbersIn part = template.numbersIn part := by
    rw [Package.numbersIn,content part member unread,Package.numbersIn]
  -- a number is that of a drawing that counts, or stands in a part that was not read
  have cases_of (part : String) (member : part ∈ template.numberedParts s) (k : Nat)
      (inside : k ∈ w.package.numbersIn part) : (∃ id, w.Live part id k) ∨
        (w.package.trees.lookup part = none ∧ k ∈ template.numbersIn part) := by
    cases known : w.package.trees.lookup part with
    | none => exact Or.inr ⟨rfl,unread_eq part member known ▸ inside⟩
    | some t =>
      rw [numbersIn_eq sound known] at inside
      obtain ⟨id,here,sees⟩ := List.mem_filterMap.mp inside
      exact Or.inl ⟨id,live_of_tree sound known here sees⟩
  rw [Package.numbers,parts_eq,List.nodup_flatMap]
  refine ⟨fun part member => ?_,distinct.pairwise_of_forall_ne ?_⟩
  · cases known : w.package.trees.lookup part with
    | none => exact unread_eq part member known ▸ room.nodup_numbersIn member
    | some t =>
      rw [numbersIn_eq sound known]
      have apart := Forest.nodup_tree sound.sorted sound.branching t.root
      refine List.pairwise_filterMap.mpr (apart.imp_of_mem ?_)
      rintro a b here here' different k sees _ sees' rfl
      exact different (numbered.distinct part member part member a b k
        (live_of_tree sound known here sees) (live_of_tree sound known here' sees'))
  · intro part member part' member' different k inside inside'
    rcases cases_of part member k inside with ⟨a,live⟩ | ⟨unread,listed⟩ <;>
      rcases cases_of part' member' k inside' with ⟨b,live'⟩ | ⟨unread',listed'⟩
    · obtain rfl := numbered.distinct part member part' member' a b k live live'
      exact different (live.owned.symm.trans live'.owned)
    · exact numbered.notMem_unread room bounds member live member' unread' listed'
    · exact numbered.notMem_unread room bounds member' live' member unread listed
    · exact different (room.part_eq member member' listed listed')

end World.Numbered

theorem numbers_of_document {data : ByteArray} {limit : Int} {o : Options} {s : Session}
    (loaded : Package.load data limit = .ok template) (usual : setup.settings = {})
    (filled : Fill.document o setup { package := template } = .ok () s)
    (room : template.LeavesRoom setup.settings s.images s.charts) :
    (s.package.numbers setup.settings).Nodup := by
  have fresh := fresh_of_load loaded
  have sound₀ := World.sound_initial fresh
  have pattern : setup.settings.headerPattern = ({} : Settings).headerPattern := by rw [usual]
  have present : ∀ part ∈ template.numberedParts setup.settings, template.hasPart part = true := by
    intro part member
    by_cases document : part = documentPart
    · exact document ▸ hasPart_document_of_load loaded
    · exact hasPart_of_mem_numberedParts pattern member document
  obtain ⟨w,rfl,steps,sound⟩ := (Fill.ends_document sound₀ (.of_default usual) o).coarse.of_ok filled
  have numbered := World.Numbered.legs fresh present room pattern steps
    ⟨Nat.le_refl _,Nat.le_refl _⟩
  have parts_eq : w.package.numberedParts setup.settings = template.numberedParts setup.settings :=
    Legs.numberedParts_eq pattern steps sound₀
  exact numbered.nodup sound room ⟨Nat.le_refl _,Nat.le_refl _⟩ parts_eq
    (nodup_numberedParts pattern (parts_of_load loaded).2.1)
      fun part member => content?_of_unread fresh steps (present part member)

/-- The parts of a template that asks for an image and has a drawing. -/
def framedParts : Archive.Entries :=
  [(documentPart,Text.encode ("<document " ++
    "xmlns=\"http://schemas.openxmlformats.org/wordprocessingml/2006/main\"><body><p><r>" ++
    "<t>\x7b%p\x7d</t></r></p><docPr id=\"7\" " ++
    "xmlns=\"http://schemas.openxmlformats.org/drawingml/2006/wordprocessingDrawing\"/>" ++
    "</body></document>"))]

private def framedTemplate : Package :=
  Package.log { parts := framedParts, order := [documentPart] } .debug
    s!"Loaded {framedParts.length} parts from template"

theorem numbers_of_document_framed : ∃ template s,
    Package.load (Archive.write framedParts) 1000 = .ok template ∧ pictureSetup.settings = {} ∧
      Fill.document {} pictureSetup { package := template } = .ok () s ∧
        template.numbers {} = [7] ∧ template.LeavesRoom {} s.images s.charts ∧
          s.package.numbers {} = [1001,7] ∧ (s.package.numbers {}).Nodup := by
  have loaded : Package.load (Archive.write framedParts) 1000 = .ok framedTemplate :=
    load_document (by decide +kernel) (by decide)
  have before : framedTemplate.numbers {} = [7] := by decide +kernel
  have run : (final? (Fill.document {} pictureSetup { package := framedTemplate })).any (fun s =>
      decide (s.package.numbers {} = [1001,7] ∧ s.images = 1 ∧ s.charts = 0)) = true := by
    decide +kernel
  obtain ⟨s,filled,run⟩ := (Option.any_eq_true _ _).mp run
  obtain ⟨after,images,charts⟩ := of_decide_eq_true run
  obtain ⟨_,filled⟩ := exists_of_final? filled
  have room : framedTemplate.LeavesRoom {} s.images s.charts := by
    rw [images,charts]
    refine ⟨?_,?_,by decide,by decide⟩ <;> rw [before]
    · decide
    · simp [Settings.Gives]
  exact ⟨framedTemplate,s,loaded,rfl,filled,before,room,after,
    numbers_of_document loaded rfl filled room⟩

end MailMerge
