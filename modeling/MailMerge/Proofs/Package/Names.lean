import MailMerge.Text.Order
import MailMerge.Package.Basic
import MailMerge.Settings
import MailMerge.Proofs.Text.Pattern
import MailMerge.Proofs.Text.Search
import Mathlib.Data.List.Perm.Basic
import Std.Data.String.ToInt

/-! The order in which names are listed. Sorting rearranges a list, so that no item comes before one that
should precede it, and does nothing else to it. -/
namespace MailMerge.Text

theorem insertSorted_perm (mayPrecede : α → α → Bool) (item : α) (items : List α) :
    (insertSorted mayPrecede item items).Perm (item :: items) := by
  induction items with
  | nil => exact List.Perm.refl _
  | cons next rest ih =>
    unfold insertSorted
    split
    · exact List.Perm.refl _
    · exact (ih.cons next).trans (List.Perm.swap item next rest)

theorem sortedBy_perm (mayPrecede : α → α → Bool) (items : List α) :
    (sortedBy mayPrecede items).Perm items := by
  induction items with
  | nil => exact List.Perm.refl _
  | cons item items ih => exact (insertSorted_perm mayPrecede item _).trans (ih.cons item)

/-- Where of any two items one may precede the other, and orders go on, sorted items are in order. -/
theorem pairwise_sortedBy (mayPrecede : α → α → Bool)
    (total : ∀ a b, mayPrecede a b = false → mayPrecede b a = true)
    (trans : ∀ a b c, mayPrecede a b = true → mayPrecede b c = true → mayPrecede a c = true)
    (items : List α) : (sortedBy mayPrecede items).Pairwise (mayPrecede · · = true) := by
  have inserted (item : α) {items : List α} (sorted : items.Pairwise (mayPrecede · · = true)) :
      (insertSorted mayPrecede item items).Pairwise (mayPrecede · · = true) := by
    induction items with
    | nil => exact List.pairwise_singleton _ item
    | cons next rest ih =>
      obtain ⟨before,sorted_rest⟩ := List.pairwise_cons.mp sorted
      unfold insertSorted
      split
      · next first =>
        refine List.pairwise_cons.mpr ⟨?_,sorted⟩
        exact List.forall_mem_cons.mpr ⟨first,fun a member => trans _ _ _ first (before a member)⟩
      · next later =>
        refine List.pairwise_cons.mpr ⟨fun a member => ?_,ih sorted_rest⟩
        rcases List.mem_cons.mp ((insertSorted_perm mayPrecede item rest).subset member) with
          rfl | member
        · exact total _ _ (Bool.eq_false_iff.mpr later)
        · exact before a member
  induction items with
  | nil => exact List.Pairwise.nil
  | cons item items ih => exact inserted item ih

end MailMerge.Text

/-! Names of parts. The parts that are filled stand directly in the folder of the document; what is
embedded goes into folders below it, and manifests of relationships have one of their own. So none
of these is mistaken for another.
-/
namespace MailMerge
open Text

theorem notMem_toDigits {c : Char} (n : Nat) (other : c.isDigit = false) :
    c ∉ Nat.toDigits 10 n := by
  intro member
  simp [Nat.isDigit_of_mem_toDigits (by decide) (by decide) member] at other

namespace Path

theorem join_eq {folder name : String} (relative : name.toList.head? ≠ some '/')
    (present : folder ≠ "") (bare : folder.toList.getLast? ≠ some '/') :
    join folder name = folder ++ "/" ++ name := by
  have open_name : startsWith ['/'] name.toList = false := by
    cases shape : name.toList with
    | nil => rfl
    | cons c rest =>
      have other : '/' ≠ c := by simpa [shape,eq_comm] using relative
      simp [startsWith,after?,other]
  have open_folder : endsWith ['/'] folder.toList = false := by
    rw [← List.head?_reverse] at bare
    cases shape : folder.toList.reverse with
    | nil => simp [endsWith,startsWith,after?,shape]
    | cons c rest =>
      have other : '/' ≠ c := by simpa [shape,eq_comm] using bare
      simp [endsWith,startsWith,after?,shape,other]
  simp [join,open_name,open_folder,present]

theorem notMem_base (part : String) : '/' ∉ (base part).toList := by
  unfold base
  split
  · next cut =>
    rw [String.toList_ofList]
    exact notMem_of_cutLast? cut
  · next uncut => exact notMem_of_cutLast?_eq_none uncut

/-- What a folder puts in front of the names inside it. -/
theorem exists_join (folder : String) : ∃ head : List Char, ∀ name : String, name.toList.head? ≠ some '/' →
    (join folder name).toList = head ++ name.toList := by
  have relative {name : String} (first : name.toList.head? ≠ some '/') :
      startsWith ['/'] name.toList = false := by
    cases shape : name.toList with
    | nil => rfl
    | cons c rest =>
      have other : '/' ≠ c := by simpa [shape,eq_comm] using first
      simp [startsWith,after?,other]
  by_cases empty : folder = ""
  · exact ⟨[],fun name _ => by simp [join,empty]⟩
  · by_cases closed : endsWith ['/'] folder.toList = true
    · exact ⟨folder.toList,fun name first => by simp [join,relative first,empty,closed]⟩
    · exact ⟨folder.toList ++ ['/'],fun name first => by simp [join,relative first,empty,closed]⟩

/-- A file in a folder inside another one. -/
theorem toList_join_join {folder inner file : String} {head : List Char}
    (inside : (join folder inner).toList = head ++ inner.toList) (present : inner ≠ "")
    (bare : inner.toList.getLast? ≠ some '/') (relative : file.toList.head? ≠ some '/') :
    (join (join folder inner) file).toList = head ++ inner.toList ++ '/' :: file.toList := by
  have some : inner.toList ≠ [] := fun empty => present (String.toList_eq_nil_iff.mp empty)
  rw [join_eq relative]
  · simp [inside]
  · intro empty
    rw [empty] at inside
    exact some (List.append_eq_nil_iff.mp inside.symm).2
  · rwa [inside,List.getLast?_append_of_ne_nil _ some]

/-- The manifest of a part's relationships is in a folder of its own. -/
theorem toList_relationships (part : String) : ∃ head : List Char,
    (relationships part).toList = head ++ "_rels/".toList ++ (base part ++ ".rels").toList := by
  obtain ⟨head,inside⟩ := exists_join (folder part)
  have slashless : '/' ∉ (base part ++ ".rels").toList := by
    have absent := notMem_base part
    simp [absent]
  refine ⟨head,?_⟩
  rw [relationships,toList_join_join (inside "_rels" (by decide)) (by decide) (by decide)
    fun first => slashless (List.mem_of_head? first)]
  simp

end Path

namespace Package

/-- A part that stands directly in the folder of the document. -/
def IsDirect (name : String) : Prop :=
  ∃ base : List Char, '/' ∉ base ∧ name.toList = "word/".toList ++ base

/-- A part in one of the folders for what is embedded. -/
def IsEmbedded (name : String) : Prop :=
  ∃ base : List Char,
    name.toList = "word/media/".toList ++ base ∨ name.toList = "word/charts/".toList ++ base

/-- A part that is made when it is missing: the manifest of content types, or the manifest of a part
that is filled. -/
def IsManifest (name : String) : Prop :=
  name = typesPart ∨ ∃ part, IsDirect part ∧ name = Path.relationships part

/-- A part that is read as markup: one that is filled, or a manifest. -/
def IsMarkup (name : String) : Prop :=
  IsDirect name ∨ IsManifest name

theorem isDirect_document : IsDirect documentPart :=
  ⟨"document.xml".toList,by decide,rfl⟩

theorem isDirect_of_numbered (stem : String) {name : String} (slashless : '/' ∉ stem.toList)
    (matched : (Pattern.numbered ("word/" ++ stem).toList ".xml".toList).startsText name = true) :
    IsDirect name := by
  obtain ⟨digits,decimal,shape⟩ := Pattern.startsText_numbered matched
  have countless : '/' ∉ digits := by
    intro member
    have digit := List.all_eq_true.mp decimal '/' member
    revert digit
    decide
  rcases shape with shape | shape
  · exact ⟨stem.toList ++ digits ++ ".xml".toList,by simp [slashless,countless],by simp [shape]⟩
  · exact ⟨stem.toList ++ digits ++ ".xml\n".toList,by simp [slashless,countless],by simp [shape]⟩

theorem mem_sorted {names : List String} {name : String} :
    name ∈ sorted names ↔ name ∈ names :=
  (sortedBy_perm _ names).mem_iff

theorem nodup_sorted {names : List String} (distinct : names.Nodup) : (sorted names).Nodup :=
  (sortedBy_perm _ names).nodup_iff.mpr distinct

theorem pairwise_sorted {names : List String} (distinct : names.Nodup) :
    (sorted names).Pairwise (· < ·) := by
  have ordered := pairwise_sortedBy (fun a b : String => !decide (b < a))
    (fun a b before => by simpa using String.lt_asymm (by simpa using before))
    (fun a b c first second => by
      simp only [Bool.not_eq_true',decide_eq_false_iff_not,String.not_lt] at first second ⊢
      exact String.le_trans first second) names
  refine (ordered.and (nodup_sorted distinct)).imp fun {a b} both => ?_
  obtain ⟨before,different⟩ := both
  by_contra other
  exact different (String.le_antisymm (String.not_lt.mp (by simpa using before))
    (String.not_lt.mp other))

/-- The headers that are found by the usual pattern, and so for footers, are direct. -/
theorem isDirect_of_mem_find {p : Package} {pattern : String} {names : List String}
    (usual : pattern = ({} : Settings).headerPattern ∨ pattern = ({} : Settings).footerPattern)
    (found : p.find pattern = .ok names) : ∀ name ∈ names, IsDirect name := by
  intro name member
  rcases usual with rfl | rfl
  · simp only [find,Pattern.ofText?_header,Except.ok.injEq] at found
    subst found
    have matched := (List.mem_filter.mp (mem_sorted.mp member)).2
    exact isDirect_of_numbered "header" (by decide) matched
  · simp only [find,Pattern.ofText?_footer,Except.ok.injEq] at found
    subst found
    have matched := (List.mem_filter.mp (mem_sorted.mp member)).2
    exact isDirect_of_numbered "footer" (by decide) matched

namespace IsDirect

variable {name : String}

theorem folder_eq (direct : IsDirect name) : Path.folder name = "word" := by
  obtain ⟨base,slashless,shape⟩ := direct
  have cut : cutLast? '/' name.toList = some ("word".toList,base) := by
    rw [shape]
    exact cutLast?_append '/' "word".toList slashless
  simp only [Path.folder,cut]
  decide

theorem not_isEmbedded (direct : IsDirect name) : ¬ IsEmbedded name := by
  rintro ⟨rest,embedded⟩
  obtain ⟨base,slashless,shape⟩ := direct
  rw [shape] at embedded
  apply slashless
  rcases embedded with inside | inside
  · rw [List.append_cancel_left (show "word/".toList ++ base =
      "word/".toList ++ ("media/".toList ++ rest) from inside)]
    simp
  · rw [List.append_cancel_left (show "word/".toList ++ base =
      "word/".toList ++ ("charts/".toList ++ rest) from inside)]
    simp

theorem ne_typesPart (direct : IsDirect name) : name ≠ typesPart := by
  rintro rfl
  obtain ⟨base,_,shape⟩ := direct
  simp [typesPart] at shape

theorem ne_relationships (direct : IsDirect name) (part : String) :
    name ≠ Path.relationships part := by
  rintro rfl
  obtain ⟨base,slashless,shape⟩ := direct
  obtain ⟨head,split⟩ := Path.toList_relationships part
  have cut : cutLast? '/' (Path.relationships part).toList = some ("word".toList,base) := by
    rw [shape]
    exact cutLast?_append '/' "word".toList slashless
  have cut' : cutLast? '/' (Path.relationships part).toList =
      some (head ++ "_rels".toList,(Path.base part ++ ".rels").toList) := by
    rw [split]
    have slashless : '/' ∉ (Path.base part ++ ".rels").toList := by
      simp [Path.notMem_base part]
    simpa using cutLast?_append '/' (head ++ "_rels".toList) slashless
  rw [cut] at cut'
  have last := congrArg List.getLast? (Prod.mk.inj (Option.some.inj cut')).1
  simp at last

theorem relationships_eq (direct : IsDirect name) :
    Path.relationships name = "word/_rels/" ++ (Path.base name ++ ".rels") := by
  have slashless : '/' ∉ (Path.base name ++ ".rels").toList := by
    simp [Path.notMem_base name]
  have inside : Path.join "word" "_rels" = "word/_rels" := by decide
  rw [Path.relationships,direct.folder_eq,inside,Path.join_eq]
  · rfl
  · intro first
    exact slashless (List.mem_of_head? first)
  · decide
  · decide

/-- The manifest of a direct part is beside what is embedded. -/
theorem relationships_not_isEmbedded (direct : IsDirect name) :
    ¬ IsEmbedded (Path.relationships name) := by
  rintro ⟨rest,embedded⟩
  rw [direct.relationships_eq] at embedded
  simp at embedded

end IsDirect

theorem not_isEmbedded_typesPart : ¬ IsEmbedded typesPart := by
  rintro ⟨base,shape | shape⟩ <;> simp [typesPart] at shape

/-- What is embedded is not read as markup. -/
theorem IsMarkup.not_isEmbedded {name : String} (markup : IsMarkup name) : ¬ IsEmbedded name := by
  rcases markup with direct | rfl | ⟨part,direct,rfl⟩
  · exact direct.not_isEmbedded
  · exact not_isEmbedded_typesPart
  · exact direct.relationships_not_isEmbedded

/-- A part that is filled is no manifest. -/
theorem IsDirect.not_isManifest {name : String} (direct : IsDirect name) : ¬ IsManifest name := by
  rintro (same | ⟨part,_,same⟩)
  · exact direct.ne_typesPart same
  · exact direct.ne_relationships part same

theorem relationships_ne_typesPart (part : String) : Path.relationships part ≠ typesPart := by
  intro same
  obtain ⟨head,split⟩ := Path.toList_relationships part
  have slash : '/' ∈ typesPart.toList := by
    rw [← same,split]
    simp
  revert slash
  decide

end Package
end MailMerge
