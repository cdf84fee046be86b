import Mathlib
import MailMerge.Proofs.Generation.Document
import MailMerge.Proofs.Generation.Ledger

/-! The drawings that a generation puts into the parts of a document. Each leads, by the only
relationship with its key, to a part of its own that the template did not have, and the manifest of
content types knows that part; the relationships of the template stay as they were.
-/
namespace MailMerge
open Xml Docx Package Relation

/-- The drawings that came into the tree of a part after the part was read, with what they show:
reading numbers the elements of a part up to its root, and later elements have greater numbers. -/
def Package.drawings (p : Package) (part : String) : List (Nat × Shape × String) :=
  match p.trees.lookup part with
  | none => []
  | some t => ((p.forest.tree t.root).filter (t.root < ·)).filterMap fun id =>
    (p.forest.shown? id).map fun ref => (id,ref)

theorem Package.mem_drawings {p : Package} {part : String} {id : Nat} {ref : Shape × String} :
    (id,ref) ∈ p.drawings part ↔ ∃ t, p.trees.lookup part = some t ∧
      id ∈ p.forest.tree t.root ∧ t.root < id ∧ p.forest.shown? id = some ref := by
  unfold Package.drawings
  cases p.trees.lookup part with
  | none => simp
  | some t =>
    simp only [List.mem_filterMap,List.mem_filter,Option.map_eq_some_iff,Option.some.injEq,
      exists_eq_left',Prod.mk.injEq,decide_eq_true_eq]
    constructor
    · rintro ⟨id,⟨member,later⟩,ref,shows,rfl,rfl⟩
      exact ⟨member,later,shows⟩
    · rintro ⟨member,later,shows⟩
      exact ⟨id,⟨member,later⟩,ref,shows,rfl,rfl⟩

/-- The part that the only relationship with a key leads to, seen from the folder of the part that
has the relationship. With no or several such relationships there is none. -/
def Package.leadsTo? (p : Package) (part key : String) : Option String :=
  match (p.links? part).map (·.filter fun a => a.get? (.bare "Id") == some key) with
  | some [a] => (a.get? (.bare "Target")).map (Path.join (Path.folder part))
  | _ => none

theorem Embedding.Linked.leadsTo? {e : Embedding} {p : Package} (linked : e.Linked p) :
    p.leadsTo? e.part e.key = some e.file := by
  obtain ⟨t,target,known,one,leads⟩ := linked
  have links : p.links? e.part = some (p.forest.links t.root) := by
    simp only [Package.links?,known]
  have named : (Forest.link e.key e.kind target).get? (.bare "Target") = some target := by
    have id : Name.bare "Id" ≠ .bare "Target" := by decide
    have kind : Name.bare "Type" ≠ .bare "Target" := by decide
    simp [Forest.link,Attributes.get?_cons,id,kind]
  simp only [Package.leadsTo?,links,Option.map_some,one,named,leads]

variable {setup : Setup} {template : Package}

private theorem World.ledger_initial (bare : template.forest = {}) :
    (World.initial template).Ledger setup template where
  kept _ held := held
  stored e member := by simp [World.initial,World.embeddings] at member
  distinct := by simp [World.initial,World.embeddings]
  linked entry member := by simp [World.initial] at member
  typed entry member := by simp [World.initial] at member
  accounted id shape key shows := by
    rw [Forest.shown?_of_size_le _ (by simp [World.package,World.initial,bare])] at shows
    simp at shows

/-- A drawing in a part has been recorded with the part that it leads to. -/
private theorem World.Ledger.recorded {w : World} (ledger : w.Ledger setup template)
    (sound : w.Sound) {part : String} {id : Nat} {shape : Shape} {key : String}
    (drawn : (id,shape,key) ∈ w.package.drawings part) :
    ∃ e, (e,id) ∈ w.made ∧ e.part = part ∧ e.shape = shape ∧ e.key = key := by
  obtain ⟨t,known,member,later,shows⟩ := mem_drawings.mp drawn
  have owner_eq : w.owner id = part :=
    (sound.sorted.within_tree (sound.tree part t known).1 member).2
  rcases ledger.accounted id shape key shows with ⟨t',known',small⟩ | ⟨e,made,home,same⟩
  · rw [owner_eq,known] at known'
    obtain rfl := Option.some.inj known'
    exact absurd later (Nat.not_lt.mpr small)
  · exact ⟨e,made,home.trans owner_eq,same⟩

theorem drawings_of_document {data : ByteArray} {limit : Int} {o : Options} {s : Session}
    (loaded : Package.load data limit = .ok template) (usual : setup.settings = {})
    (filled : Fill.document o setup { package := template } = .ok () s) :
    (∀ part id shape key, (id,shape,key) ∈ s.package.drawings part → ∃ file contents,
      s.package.leadsTo? part key = some file ∧
        (Embedding.mk part shape key file contents).Stored setup template s.package ∧
          (Embedding.mk part shape key file contents).Typed setup.settings s.package) ∧
    (∀ part id shape key part' id' shape' key', (id,shape,key) ∈ s.package.drawings part →
      (id',shape',key') ∈ s.package.drawings part' → id ≠ id' →
        s.package.leadsTo? part key ≠ s.package.leadsTo? part' key') ∧
    ∀ part links, template.links? part = some links →
      ∃ new, s.package.links? part = some (links ++ new) := by
  have fresh := fresh_of_load loaded
  have sound₀ := World.sound_initial fresh
  obtain ⟨w,rfl,steps,sound⟩ := (Fill.ends_document sound₀ (.of_default usual) o).coarse.of_ok filled
  have ledger₀ : (World.initial template).Ledger setup template := World.ledger_initial fresh.1
  have ledger := ledger₀.legs sound₀ steps
  refine ⟨?_,?_,fun part links former => Legs.links? steps sound₀ former⟩
  · intro part id shape key drawn
    obtain ⟨e,made,rfl,rfl,rfl⟩ := ledger.recorded sound drawn
    have stored := ledger.stored e (List.mem_append_right _ (List.mem_map_of_mem made))
    exact ⟨e.file,e.data,(ledger.linked _ made).leadsTo?,stored,ledger.typed _ made⟩
  · intro part id shape key part' id' shape' key' drawn drawn' different same
    obtain ⟨e,made,rfl,rfl,rfl⟩ := ledger.recorded sound drawn
    obtain ⟨e',made',rfl,rfl,rfl⟩ := ledger.recorded sound drawn'
    have files := ((ledger.linked _ made).leadsTo?.symm.trans same).trans
      (ledger.linked _ made').leadsTo?
    have distinct := ledger.distinct
    rw [World.embeddings,List.map_append] at distinct
    have nodup := (List.nodup_append.mp distinct).2.1
    rw [List.map_map] at nodup
    have entries := List.inj_on_of_nodup_map nodup made made' (Option.some.inj files)
    exact different (Prod.mk.inj entries).2

/-- The parts of a template with one paragraph that asks for an image. -/
def pictureParts : Archive.Entries :=
  [(documentPart,Text.encode ("<w:document " ++
    "xmlns:w=\"http://schemas.openxmlformats.org/wordprocessingml/2006/main\"><w:body><w:p><w:r>" ++
    "<w:t>\x7b%p\x7d</w:t></w:r></w:p></w:body></w:document>"))]

/-- That template. -/
def pictureTemplate : Package :=
  Package.log { parts := pictureParts, order := [documentPart] } .debug
    s!"Loaded {pictureParts.length} parts from template"

/-- Data and a network that give the image. -/
def pictureSetup : Setup where
  data := .map [(.text "p",.text "http://x/a.png")]
  network _ := .response 200 none ⟨#[1]⟩

private def pictureRun : EStateM.Result Fault Session Unit :=
  Fill.document {} pictureSetup { package := pictureTemplate }

private def pictureDrawn : Bool :=
  match pictureRun with
  | .ok _ s => (s.package.drawings documentPart).head?.isSome
  | .error _ _ => false

private theorem load_picture :
    Package.load (Archive.write pictureParts) 1000 = .ok pictureTemplate :=
  load_document (by decide +kernel) (by decide)

theorem drawings_of_document_picture : ∃ s id shape key file contents,
    Package.load (Archive.write pictureParts) 1000 = .ok pictureTemplate ∧
      pictureSetup.settings = {} ∧
        Fill.document {} pictureSetup { package := pictureTemplate } = .ok () s ∧
          (id,shape,key) ∈ s.package.drawings documentPart ∧
            s.package.leadsTo? documentPart key = some file ∧
              (Embedding.mk documentPart shape key file contents).Stored pictureSetup
                pictureTemplate s.package := by
  have drawn : pictureDrawn = true := by decide +kernel
  unfold pictureDrawn at drawn
  split at drawn
  · next s filled =>
    obtain ⟨⟨id,shape,key⟩,first⟩ := Option.isSome_iff_exists.mp drawn
    have member := List.mem_of_head? first
    obtain ⟨file,contents,leads,stored,_⟩ :=
      (drawings_of_document load_picture rfl filled).1 documentPart id shape key member
    exact ⟨s,id,shape,key,file,contents,load_picture,rfl,filled,member,leads,stored⟩
  · simp at drawn

end MailMerge
