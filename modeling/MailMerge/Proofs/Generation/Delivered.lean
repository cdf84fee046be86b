import MailMerge.Proofs.Generation.Undisturbed

/-! What a generation delivers. The archive of the document holds the parts of the template and the parts
that were created, each once and in a known order, and the parts that no option selects are those of the
template byte by byte.
-/
namespace MailMerge
open Package Relation Generation

/-- How an archive is related to the template it was made from, to the parts that were created on the
way, in the order of their creation, and to the package at the end. -/
structure Delivered (s : Settings) (o : Options) (template : Package) (created : List String)
    (last : Package) (entries : Archive.Entries) : Prop where
  /-- every part of the package is an entry -/
  whole : entries.Perm (last.parts.map fun part => (Archive.shortName part.1,part.2))
  /-- its parts are those of the template and the created ones, each once -/
  once : (template.names ++ created).Nodup ∧ last.names = template.names ++ created
  /-- the manifest of content types comes first, then the others of the template in its order, then
  the created ones in the order of their creation -/
  order : entries.map (·.1) = (typesPart :: (template.names ++ created).filter (· != typesPart)).map
    Archive.shortName
  /-- names are stored as they are -/
  short : (∀ extension ∈ s.extensions, Archive.IsShort extension) →
    ∀ name ∈ template.names ++ created, Archive.shortName name = name
  /-- all that may not change has its bytes in the archive -/
  untouched : ∀ name contents, (name,contents) ∈ template.parts → ¬ Touchable s o name →
    (name,contents) ∈ entries

namespace Package

/-- What a package that was opened is made of. -/
theorem parts_of_load {data : ByteArray} {limit : Int} {p : Package}
    (loaded : load data limit = .ok p) : p.order = p.names ∧ p.names.Nodup ∧
      ∀ name ∈ p.names, Archive.IsShort name := by
  obtain ⟨_,parts,read,_,rfl⟩ := load_eq_ok_iff.mp loaded
  exact ⟨rfl,Archive.names_of_read read⟩

theorem part?_of_mem {p : Package} (distinct : p.names.Nodup) {name : String} {data : ByteArray}
    (member : (name,data) ∈ p.parts) : p.part? name = some data := by
  unfold names at distinct
  unfold part?
  generalize p.parts = parts at distinct member
  induction parts with
  | nil => simp at member
  | cons entry parts ih =>
    rw [List.map_cons,List.nodup_cons] at distinct
    rw [lookup_cons_eq]
    rcases List.mem_cons.mp member with rfl | later
    · simp
    · have other : name ≠ entry.1 := by
        rintro rfl
        exact distinct.1 (List.mem_map.mpr ⟨_,later,rfl⟩)
      rw [if_neg other,ih distinct.2 later]

end Package

/-- The archive of what became of a package without trees. -/
theorem delivered_of_grown {s : Settings} {o : Options} {template last : Package}
    {created : List String} {entries : Archive.Entries} (grown : Grown s o template created last)
    (opened : template.order = template.names)
    (plain : ∀ name ∈ template.names, Archive.IsShort name) (distinct : template.names.Nodup)
    (typed : last.hasPart typesPart = true) (saved : last.entries = .ok entries) :
    Delivered s o template created last entries := by
  have stored := entries_saved saved
  have order := savedNames_eq (grown.order.trans opened) grown.names grown.distinct typed
  have again : last.savedNames.Perm last.names := by
    have inside := hasPart_eq_true_iff.mp typed
    rw [order,← grown.names,← grown.distinct.erase_eq_filter]
    exact (List.perm_cons_erase inside).symm
  refine ⟨?_,⟨grown.names ▸ grown.distinct,grown.names⟩,?_,?_,?_⟩
  · rw [stored]
    refine (again.map _).trans (List.Perm.of_eq ?_)
    rw [names,List.map_map]
    apply List.map_congr_left
    intro part member
    simp [part?_of_mem grown.distinct member]
  · rw [stored,List.map_map,order]
    rfl
  · intro extensions name member
    rw [← grown.names] at member
    exact Archive.shortName_eq (grown.fits name member extensions)
  · intro name contents member untouchable
    have named : name ∈ template.names := List.mem_map_of_mem member
    have bytes := (grown.bytes name named untouchable).trans (part?_of_mem distinct member)
    rw [stored,List.mem_map]
    refine ⟨name,again.mem_iff.mpr ?_,?_⟩
    · rw [grown.names]
      exact List.mem_append_left _ named
    · rw [bytes,Archive.shortName_eq (plain name named)]
      rfl

/-- Saving flushes the package and gives its entries. -/
theorem ends_save {setup : Setup} {o : Options} {w : World} :
    Ends (Files setup.settings o) setup (onPackage Packaging.save) w fun entries w' =>
      w'.package.entries = .ok entries := by
  unfold Packaging.save
  have flushed : Files setup.settings o w (w.withPackage w.package.flush) := ⟨[],.flush⟩
  apply Ends.of_packaged_bind (Ends.of_packaged_modify (fun _ _ => True) flushed rfl trivial)
  intro _ w' _ _
  apply Ends.of_packaged_look
  split
  · next entries saved => exact Ends.of_packaged_pure saved
  · exact Ends.of_packaged_throw

/-- Filling a package that was just opened and saving it. -/
theorem ends_document_save (setup : Setup) {o : Options} {template : Package} {w : World}
    (came : w.From setup.settings o template) (unused : w.package.types = none) :
    Ends (Files setup.settings o) setup (do
      Fill.document o
      onPackage Packaging.save) w fun entries w' =>
        w'.package.hasPart typesPart = true ∧ w'.package.entries = .ok entries := by
  apply Ends.of_bind (Ends.of_bind (Fill.ends_opening_files came unused) fun root w' _ typed =>
    (Fill.filed_bodyPass root).mono fun _ w'' moves _ => hasPart_of_files moves typed)
  intro _ w' _ typed
  exact ends_save.mono fun entries w'' moves saved => ⟨hasPart_of_files moves typed,saved⟩

namespace Generate

/-- Filling an opened package and saving it. -/
theorem delivered_of_fill {setup : Setup} {o : Options} {template : Package}
    {data : ByteArray} {limit : Int} (loaded : load data limit = .ok template)
    {entries : Archive.Entries} {s : Session}
    (filled : fill setup o template = (.ok entries,s)) : ∃ created last,
      Filings setup.settings o template created last ∧
        Delivered setup.settings o template created last entries := by
  obtain ⟨opened,distinct,plain⟩ := parts_of_load loaded
  have fresh := fresh_of_load loaded
  have grown : Grown setup.settings o template [] template :=
    Filings.refl.grown fresh.trees distinct fun name member _ => plain name member
  have came : (World.initial template).From setup.settings o template := ⟨[],.refl,grown⟩
  have steps := ends_document_save { setup with data := dataOf setup.data } came fresh.types
  unfold fill at filled
  simp only at filled
  split at filled
  · next entries' s' ran =>
    obtain ⟨same,rfl⟩ := Prod.mk.inj filled
    obtain rfl := Except.ok.inj same
    obtain ⟨w,rfl,moves,typed,saved⟩ := steps.of_ok ran
    obtain ⟨created,steps,grown⟩ := came.moves moves
    exact ⟨created,w.package,steps,
      delivered_of_grown grown opened plain distinct typed saved⟩
  · simp at filled

end Generate

/-- The parts of a template that is a document without paragraphs and nothing else. -/
def bareParts : Archive.Entries :=
  [(documentPart,Text.encode ("<w:document " ++
    "xmlns:w=\"http://schemas.openxmlformats.org/wordprocessingml/2006/main\"><w:body/></w:document>"))]

end MailMerge
