import MailMerge.Proofs.Archive.Roundtrip
import MailMerge.Proofs.Fault
import MailMerge.Proofs.Package.Names
import MailMerge.Proofs.Xml.Registry
import Mathlib.Data.List.Basic

/-! What operations on a package do to its parts and trees: each changes what is stored under one
name and keeps the rest.
-/
namespace MailMerge
open Xml

/-- The tree of a part that was read, with its opening tag. -/
def treeOf (data : ByteArray) (root : NodeId) : PartTree :=
  let tag := RootTag.find (Text.decodeReplacing data)
  ⟨root,tag,String.ofList (RootTag.defaultSpace tag)⟩

namespace Package

theorem lookup_cons_eq (entry : String × α) (rest : List (String × α)) (name : String) :
    (entry :: rest).lookup name = if name = entry.1 then some entry.2 else rest.lookup name := by
  rw [List.lookup_cons]
  by_cases same : name = entry.1
  · simp [same]
  · simp [same,beq_eq_false_iff_ne.mpr same]

private theorem lookup_replaced (entries : List (String × α)) {name : String} (value : α)
    (present : entries.any (·.1 == name) = true) (other : String) :
    (entries.map fun entry => if entry.1 == name then (name,value) else entry).lookup other =
      if other = name then some value else entries.lookup other := by
  have elsewhere (entries : List (String × α)) (different : other ≠ name) :
      (entries.map fun entry => if entry.1 == name then (name,value) else entry).lookup other =
        entries.lookup other := by
    induction entries with
    | nil => rfl
    | cons entry rest ih =>
      rw [List.map_cons,lookup_cons_eq,lookup_cons_eq,ih]
      by_cases here : entry.1 = name
      · simp [here,different]
      · simp [here]
  by_cases same : other = name
  · subst same
    rw [if_pos rfl]
    induction entries with
    | nil => simp at present
    | cons entry rest ih =>
      rw [List.map_cons,lookup_cons_eq]
      by_cases here : entry.1 = other
      · simp [here]
      · have later : rest.any (·.1 == other) = true := by simpa [here] using present
        have kept : (if (entry.1 == other) = true then (other,value) else entry) = entry := by
          simp [here]
        rw [kept,if_neg (Ne.symm here),ih later]
  · rw [if_neg same,elsewhere entries same]

theorem lookup_store (entries : List (String × α)) (name other : String) (value : α) :
    (store entries name value).lookup other =
      if other = name then some value else entries.lookup other := by
  unfold store
  split
  · next present => exact lookup_replaced entries value present other
  · next absent =>
    rw [List.lookup_append,lookup_cons_eq,List.lookup_nil]
    by_cases same : other = name
    · subst same
      have missing : entries.lookup other = none := by
        rw [List.lookup_eq_none_iff]
        intro entry member
        rw [Bool.not_eq_true,List.any_eq_false] at absent
        simpa [beq_eq_false_iff_ne,ne_comm] using absent entry member
      simp [missing]
    · simp [same]

theorem hasPart_iff {p : Package} {name : String} :
    p.hasPart name = true ↔ ∃ data, p.part? name = some data := by
  rw [← Option.isSome_iff_exists,part?,List.lookup_isSome_iff,hasPart,List.any_eq_true]
  constructor
  · rintro ⟨entry,member,same⟩
    exact ⟨entry,member,beq_iff_eq.mpr (eq_of_beq same).symm⟩
  · rintro ⟨entry,member,same⟩
    exact ⟨entry,member,beq_iff_eq.mpr (eq_of_beq same).symm⟩

theorem hasPart_eq_false_iff {p : Package} {name : String} :
    p.hasPart name = false ↔ p.part? name = none := by
  rw [← Bool.not_eq_true,hasPart_iff]
  simp [Option.eq_none_iff_forall_ne_some]

section
variable (p : Package) (name other : String)

theorem part?_write (data : ByteArray) : (p.write name data).part? other =
    if other = name then some data else p.part? other :=
  lookup_store p.parts name other data

theorem lookup_trees_write (data : ByteArray) : (p.write name data).trees.lookup other =
    if other = name then none else p.trees.lookup other := by
  simp only [write]
  induction p.trees with
  | nil => simp
  | cons entry rest ih =>
    by_cases here : entry.1 = name
    · rw [List.filter_cons_of_neg (by simpa using here),ih,lookup_cons_eq]
      by_cases same : other = name
      · simp [same]
      · simp [same,here]
    · rw [List.filter_cons_of_pos (by simpa using here),lookup_cons_eq,ih,lookup_cons_eq]
      by_cases same : other = name
      · simp [same,Ne.symm here]
      · simp [same]

@[simp] theorem part?_touch : (p.touch name).part? other = p.part? other := rfl

@[simp] theorem trees_touch : (p.touch name).trees = p.trees := rfl

@[simp] theorem forest_touch : (p.touch name).forest = p.forest := rfl

@[simp] theorem types_touch : (p.touch name).types = p.types := rfl

@[simp] theorem manifests_touch : (p.touch name).manifests = p.manifests := rfl

theorem part?_setTree (root : NodeId) (space : String) : (p.setTree name root space).part? other =
    if other = name then some .empty else p.part? other :=
  lookup_store p.parts name other .empty

theorem lookup_trees_setTree (root : NodeId) (space : String) :
    (p.setTree name root space).trees.lookup other =
      if other = name then some ⟨root,[],space⟩ else p.trees.lookup other :=
  lookup_store p.trees name other _

end

/-- Registering prefixes changes the registry and the journal and nothing else. -/
theorem registerAll_eq (p : Package) (declared : List (String × String)) :
    ∃ journal, p.registerAll declared =
      { p with prefixes := p.prefixes.enter declared, journal := journal } := by
  unfold registerAll Registry.enter
  induction declared generalizing p with
  | nil => exact ⟨p.journal,rfl⟩
  | cons d declared ih =>
    rw [List.foldl_cons,List.foldl_cons]
    by_cases empty : d.1 = ""
    · simpa [empty] using ih p
    · by_cases reserved : Registry.isReserved d.1 = true
      · simpa [empty,reserved,log] using
          ih (p.log .debug ("Cannot register reserved prefix " ++ d.1))
      · simpa [empty,reserved] using ih { p with prefixes := p.prefixes.register d.1 d.2 }

section
variable (p : Package)

/-- What is found after several parts were stored. -/
theorem lookup_foldl_store (texts : String → Option ByteArray) (names : List String)
    (parts : List (String × ByteArray)) (name : String) :
    (names.foldl (fun parts name => match texts name with
      | some data => store parts name data
      | none => parts) parts).lookup name =
        ((if name ∈ names then texts name else none).or (parts.lookup name)) := by
  induction names generalizing parts with
  | nil => simp
  | cons first names ih =>
    rw [List.foldl_cons,ih]
    cases text : texts first with
    | none =>
      by_cases same : name = first
      · subst same
        simp [text]
      · simp [same]
    | some data =>
      simp only [lookup_store]
      by_cases same : name = first
      · subst same
        by_cases again : name ∈ names <;> simp [text,again]
      · simp [same]

/-- Flushing writes the trees that are touched. -/
theorem part?_flush (name : String) : p.flush.part? name =
    if name ∈ p.touched then
      ((p.trees.lookup name).map fun t =>
        Text.encode (String.ofList (treeText p.prefixes p.forest t))).or (p.part? name)
    else p.part? name := by
  let texts (name : String) : Option ByteArray := (p.trees.lookup name).map fun t =>
    Text.encode (String.ofList (treeText p.prefixes p.forest t))
  have folded : p.flush.part? name =
      ((if name ∈ sorted p.touched then texts name else none).or (p.part? name)) := by
    rw [part?,part?,← lookup_foldl_store texts]
    simp only [flush]
    congr 2
    funext parts other
    simp only [texts]
    cases p.trees.lookup other <;> rfl
  rw [folded]
  by_cases touched : name ∈ p.touched
  · simp [mem_sorted,touched,texts]
  · simp [mem_sorted,touched]

theorem hasPart_flush (name : String) (held : p.hasPart name = true) :
    p.flush.hasPart name = true := by
  rw [hasPart_iff] at held ⊢
  obtain ⟨data,held⟩ := held
  rw [part?_flush]
  split
  · cases p.trees.lookup name <;> simp [held]
  · exact ⟨data,held⟩

/-- Parts whose trees were not read are not written. -/
theorem part?_flush_of_unread {name : String} (unread : p.trees.lookup name = none) :
    p.flush.part? name = p.part? name := by
  rw [part?_flush,unread]
  simp

end

/-- A package of which nothing was read. -/
structure Fresh (p : Package) : Prop where
  forest : p.forest = {}
  trees : p.trees = []
  touched : p.touched = []
  manifests : p.manifests = []
  types : p.types = none

/-- What is opened: an archive that is not too large and has a document. -/
theorem load_eq_ok_iff {p : Package} {data : ByteArray} {limit : Int} :
    load data limit = .ok p ↔ ¬ limit < data.size ∧ ∃ parts, Archive.read data = .ok parts ∧
      parts.any (·.1 == documentPart) = true ∧
        p = log { parts := parts, order := parts.map (·.1) } .debug
          s!"Loaded {parts.length} parts from template" := by
  unfold load
  constructor
  · intro loaded
    split at loaded
    · simp at loaded
    · next small =>
      obtain ⟨parts,read,loaded⟩ := exists_of_bind_eq_ok loaded
      simp only at loaded
      split at loaded
      · simp [bind,Except.bind,throw,throwThe,MonadExceptOf.throw] at loaded
      · next present =>
        exact ⟨small,parts,read,by simpa [hasPart] using present,(Except.ok.inj loaded).symm⟩
  · rintro ⟨small,parts,read,present,rfl⟩
    have held : ({ parts := parts, order := parts.map (·.1) } : Package).hasPart documentPart =
        true := present
    rw [if_neg small,read]
    simp only [bind,Except.bind,held]
    rfl

/-- An archive that was written with nothing but a document is a template. -/
theorem load_document {document : ByteArray} {limit : Int} (small : document.size + 132 ≤ limit)
    (limited : limit < 4294967296) : load (Archive.write [(documentPart,document)]) limit = .ok
      (log { parts := [(documentPart,document)], order := [documentPart] } .debug
        s!"Loaded {[(documentPart,document)].length} parts from template") := by
  have size : (Archive.write [(documentPart,document)]).size = document.size + 132 := by
    have length : documentPart.utf8ByteSize = 17 := by decide
    rw [Archive.size_write,List.map_singleton,List.sum_singleton,length]
    show 76 + 2 * 17 + document.size + 22 = document.size + 132
    omega
  have named : Archive.IsWritable documentPart := ⟨by decide,by decide,by decide⟩
  have writable : Archive.Writable [(documentPart,document)] :=
    ⟨by simpa using named,by simp,by omega⟩
  exact load_eq_ok_iff.mpr ⟨by omega,_,Archive.read_write writable,rfl,rfl⟩

theorem fresh_of_load {p : Package} {data : ByteArray} {limit : Int}
    (loaded : load data limit = .ok p) : p.Fresh := by
  obtain ⟨_,parts,_,_,rfl⟩ := load_eq_ok_iff.mp loaded
  exact ⟨rfl,rfl,rfl,rfl,rfl⟩

/-- There is no template without a document. -/
theorem hasPart_document_of_load {p : Package} {data : ByteArray} {limit : Int}
    (loaded : load data limit = .ok p) : p.hasPart documentPart = true := by
  obtain ⟨_,parts,_,present,rfl⟩ := load_eq_ok_iff.mp loaded
  exact present

end Package
open Package

/-- What reading the root of a part does to the package. -/
theorem Packaging.root?_run (name : String) (p : Package) : Packaging.root? name p =
    match p.trees.lookup name with
    | some t => .ok (some t.root) (p.touch name)
    | none => match p.part? name with
      | none => .ok none p
      | some data => match (readBytes data).root with
        | .error problem => .error (.breakdown (Packaging.misread problem))
          (p.registerAll (readBytes data).declared)
        | .ok e =>
          let q := p.registerAll (readBytes data).declared
          .ok (some (q.forest.plant e).1) ({ q with
            forest := (q.forest.plant e).2
            trees := Package.store q.trees name (treeOf data (q.forest.plant e).1) }.touch name) := by
  unfold Packaging.root? Packaging.readTree
  rw [run_get_bind]
  cases p.trees.lookup name with
  | some t => rfl
  | none =>
    dsimp only
    rw [run_get_bind]
    cases p.part? name with
    | none => rfl
    | some data =>
      dsimp only
      rw [bind_assoc,run_modify_bind]
      cases (readBytes data).root <;> rfl

end MailMerge
