import MailMerge.Embed
import MailMerge.Proofs.Package.Names
import Mathlib.Data.List.Nodup
import Mathlib.Data.List.Perm.Subperm
import Mathlib.Order.Bounds.Defs

/-! Where embedded data goes. The next number of an image or chart is one whose part and whose
relationship are both free, since each part and each relationship takes at most one number. The
target of the relationship leads from the folder of the document to the part.
-/
namespace MailMerge.Embed
open Text Package

theorem firstFree_free (isTaken : Nat → Bool) (fuel start : Nat)
    (some_free : ∃ n, start ≤ n ∧ n < start + fuel ∧ isTaken n = false) :
    isTaken (firstFree isTaken fuel start) = false := by
  induction fuel generalizing start with
  | zero =>
    obtain ⟨n,large,small,_⟩ := some_free
    omega
  | succ fuel ih =>
    rw [firstFree]
    split
    · next taken =>
      obtain ⟨n,large,small,free⟩ := some_free
      have other : n ≠ start := by
        rintro rfl
        simp [taken] at free
      exact ih (start + 1) ⟨n,by omega,by omega,free⟩
    · next free => simpa using free

theorem le_firstFree (isTaken : Nat → Bool) (fuel start : Nat) :
    start ≤ firstFree isTaken fuel start := by
  induction fuel generalizing start with
  | zero => exact Nat.le_refl _
  | succ fuel ih =>
    rw [firstFree]
    split
    · exact Nat.le_of_succ_le (ih (start + 1))
    · exact Nat.le_refl _

theorem of_lt_firstFree {isTaken : Nat → Bool} {fuel start n : Nat} (large : start ≤ n)
    (small : n < firstFree isTaken fuel start) : isTaken n = true := by
  induction fuel generalizing start with
  | zero => exact absurd small (Nat.not_lt.mpr large)
  | succ fuel ih =>
    rw [firstFree] at small
    split at small
    · next taken =>
      rcases Nat.eq_or_lt_of_le large with rfl | larger
      · exact taken
      · exact ih larger small
    · exact absurd small (Nat.not_lt.mpr large)

/-- Names that differ for different numbers and are all in a list are no more than the list has. -/
theorem length_le_of_named {numbers : List Nat} {names : List α} (distinct : numbers.Nodup)
    (name : Nat → α) (injective : Function.Injective name)
    (inside : ∀ n ∈ numbers, name n ∈ names) : numbers.length ≤ names.length := by
  have subset : numbers.map name ⊆ names := by
    intro a member
    obtain ⟨n,counted,rfl⟩ := List.mem_map.mp member
    exact inside n counted
  simpa using (List.subperm_of_subset (distinct.map injective) subset).length_le

/-- The next number is free: its part does not exist and no relationship has its key. -/
theorem nextNumber_free (p : Package) (links : NodeId) (last : Nat) {part key : Nat → String}
    (part_injective : Function.Injective part) (key_injective : Function.Injective key) :
    p.hasPart (part (nextNumber p links last part key)) = false ∧
      some (key (nextNumber p links last part key)) ∉ p.forest.relationshipIds links := by
  let keys := p.forest.relationshipIds links
  let isTaken (n : Nat) : Bool := p.hasPart (part n) || keys.contains (some (key n))
  let fuel := p.parts.length + keys.length + 1
  have some_free : ∃ n, last + 1 ≤ n ∧ n < last + 1 + fuel ∧ isTaken n = false := by
    by_contra none_free
    push Not at none_free
    let window := List.range' (last + 1) fuel
    have taken : ∀ n ∈ window, isTaken n = true := by
      intro n member
      have bounds := List.mem_range'_1.mp member
      simpa using none_free n bounds.1 bounds.2
    have distinct : window.Nodup := List.nodup_range'
    have parts_le : (window.filter fun n => p.hasPart (part n)).length ≤ p.names.length := by
      apply length_le_of_named (distinct.filter _) part part_injective
      intro n member
      simpa [hasPart,names] using (List.mem_filter.mp member).2
    have keys_le : (window.filter fun n => !p.hasPart (part n)).length ≤ keys.length := by
      apply length_le_of_named (distinct.filter _) (fun n => some (key n))
        (fun a b same => key_injective (Option.some.inj same))
      intro n member
      obtain ⟨member,absent⟩ := List.mem_filter.mp member
      have either := taken n member
      simp only [Bool.not_eq_true'] at absent
      simpa [isTaken,absent] using either
    have both := List.length_eq_length_filter_add (l := window) fun n => p.hasPart (part n)
    have whole : window.length = fuel := List.length_range'
    simp only [names,List.length_map] at parts_le
    omega
  have free : (_ || _) = false := firstFree_free isTaken fuel (last + 1) some_free
  obtain ⟨absent,keyless⟩ := Bool.or_eq_false_iff.mp free
  refine ⟨absent,fun member => ?_⟩
  exact Bool.false_ne_true (keyless.symm.trans (List.contains_iff_mem.mpr member))

theorem lt_nextNumber (p : Package) (links : NodeId) (last : Nat) (part key : Nat → String) :
    last < nextNumber p links last part key :=
  le_firstFree _ _ (last + 1)

/-- No number after the last one is passed over if it is free. -/
theorem isLeast_nextNumber (p : Package) (links : NodeId) (last : Nat) {part key : Nat → String}
    (part_injective : Function.Injective part) (key_injective : Function.Injective key) :
    IsLeast {n | last < n ∧ p.hasPart (part n) = false ∧ some (key n) ∉ p.forest.relationshipIds links}
      (nextNumber p links last part key) := by
  refine ⟨⟨lt_nextNumber p links last part key,nextNumber_free p links last part_injective key_injective⟩,?_⟩
  rintro n ⟨large,absent,new⟩
  by_contra small
  have taken := of_lt_firstFree (Nat.succ_le_of_lt large) (Nat.lt_of_not_le small)
  rcases Bool.or_eq_true_iff.mp taken with held | listed
  · simp [absent] at held
  · exact new (List.contains_iff_mem.mp listed)

/-- The name of an image's file. -/
def imageFile (stored : String) (n : Nat) : String := s!"image{n}.{stored}"

/-- The part with a chart. -/
def chartPart (n : Nat) : String := s!"word/charts/chart{n}.xml"

/-- The part with an image, for a part of the document. -/
def imagePart (part stored : String) (n : Nat) : String :=
  Path.join (Path.join (Path.folder part) "media") (imageFile stored n)

theorem toList_imageFile (stored : String) (n : Nat) :
    (imageFile stored n).toList = "image".toList ++ n.repr.toList ++ ('.' :: stored.toList) := by
  have shape : imageFile stored n = "image" ++ n.repr ++ "." ++ stored := rfl
  simp [shape]

theorem toList_chartPart (n : Nat) :
    (chartPart n).toList = "word/charts/".toList ++ ("chart".toList ++ n.repr.toList ++
      ".xml".toList) := by
  have shape : chartPart n = "word/charts/chart" ++ n.repr ++ ".xml" := rfl
  simp [shape]

theorem imageFile_injective (stored : String) : Function.Injective (imageFile stored) := by
  intro m n same
  have lists := congrArg String.toList same
  simp only [toList_imageFile,List.append_cancel_left_eq,List.append_cancel_right_eq,
    List.append_assoc] at lists
  exact Nat.repr_inj.mp (String.toList_inj.mp lists)

theorem chartPart_injective : Function.Injective chartPart := by
  intro m n same
  have lists := congrArg String.toList same
  simp only [toList_chartPart,List.append_cancel_left_eq,List.append_cancel_right_eq] at lists
  exact Nat.repr_inj.mp (String.toList_inj.mp lists)

/-- The key of an embedding, for the usual settings. -/
theorem key_injective (base : Int) : Function.Injective fun n : Nat => s!"rId{base + n}" := by
  intro m n same
  have shape (n : Nat) : s!"rId{base + n}" = "rId" ++ (base + n).repr := rfl
  have lists := congrArg String.toList same
  simp only [shape,String.toList_append,List.append_cancel_left_eq] at lists
  have sums := Int.repr_inj.mp (String.toList_inj.mp lists)
  omega

variable {part : String}

theorem imagePart_eq (direct : IsDirect part) (stored : String) (n : Nat) :
    imagePart part stored n = "word/media/" ++ imageFile stored n := by
  have inside : Path.join "word" "media" = "word/media" := by decide
  rw [imagePart,direct.folder_eq,inside,Path.join_eq]
  · rfl
  · simp [toList_imageFile]
  · decide
  · decide

private theorem head?_imageFile (stored : String) (n : Nat) : (imageFile stored n).toList.head? ≠ some '/' := by
  simp [toList_imageFile]

/-- An image is no manifest, whatever part it is embedded for. -/
theorem imagePart_ne_relationships (part stored : String) (n : Nat) :
    imagePart part stored n ≠ Path.relationships part := by
  intro same
  obtain ⟨head,inside⟩ := Path.exists_join (Path.folder part)
  have image := Path.toList_join_join (inside "media" (by decide)) (by decide) (by decide)
    (head?_imageFile stored n)
  have slashless : '/' ∉ (Path.base part ++ ".rels").toList := by simp [Path.notMem_base part]
  have manifest := Path.toList_join_join (inside "_rels" (by decide)) (by decide) (by decide)
    fun first => slashless (List.mem_of_head? first)
  have lists := image.symm.trans ((congrArg String.toList same).trans manifest)
  simp at lists

theorem imagePart_ne_typesPart (part stored : String) (n : Nat) : imagePart part stored n ≠ typesPart := by
  intro same
  obtain ⟨head,inside⟩ := Path.exists_join (Path.folder part)
  have image := Path.toList_join_join (inside "media" (by decide)) (by decide) (by decide)
    (head?_imageFile stored n)
  have slash : '/' ∈ typesPart.toList := by
    rw [← same,imagePart,image]
    simp
  revert slash
  decide

/-- A chart is no manifest. -/
theorem chartPart_ne_relationships (part : String) (n : Nat) : chartPart n ≠ Path.relationships part := by
  intro same
  obtain ⟨head,manifest⟩ := Path.toList_relationships part
  have lists := (toList_chartPart n).symm.trans ((congrArg String.toList same).trans manifest)
  have last := congrArg (fun list => list.reverse.head?) lists
  simp at last

theorem chartPart_ne_typesPart (n : Nat) : chartPart n ≠ typesPart := by
  intro same
  have lists := (toList_chartPart n).symm.trans (congrArg String.toList same)
  simp [typesPart] at lists

theorem imagePart_injective (direct : IsDirect part) (stored : String) :
    Function.Injective (imagePart part stored) := by
  intro m n same
  simp only [imagePart_eq direct] at same
  have lists := congrArg String.toList same
  simp only [String.toList_append,List.append_cancel_left_eq] at lists
  exact imageFile_injective stored (String.toList_inj.mp lists)

theorem isEmbedded_imagePart (direct : IsDirect part) (stored : String) (n : Nat) :
    IsEmbedded (imagePart part stored n) := by
  rw [imagePart_eq direct]
  exact ⟨(imageFile stored n).toList,Or.inl (by simp)⟩

theorem isEmbedded_chartPart (n : Nat) : IsEmbedded (chartPart n) :=
  ⟨_,Or.inr (toList_chartPart n)⟩

/-- The target of an image leads to its part. -/
theorem join_imageTarget (direct : IsDirect part) (stored : String) (n : Nat) :
    Path.join (Path.folder part) ("media/" ++ imageFile stored n) = imagePart part stored n := by
  rw [imagePart_eq direct,direct.folder_eq,Path.join_eq]
  · simp [← String.toList_inj]
  · simp
  · decide
  · decide

/-- The target of a chart is its part, seen from the folder of the document. -/
theorem relative_chartPart (direct : IsDirect part) (n : Nat) :
    Path.relative (chartPart n) (Path.folder part) = "charts/chart" ++ n.repr ++ ".xml" := by
  let file := "chart".toList ++ n.repr.toList ++ ".xml".toList
  have slashless : '/' ∉ file := by
    simp [file,notMem_toDigits n (c := '/') (by decide)]
  have pieces : splitOn '/' (chartPart n).toList = ["word".toList,"charts".toList,file] := by
    rw [toList_chartPart]
    have first := splitOn_append '/' ('c' :: "harts/".toList ++ file)
      (by decide : '/' ∉ "word".toList)
    have second := splitOn_append '/' file (by decide : '/' ∉ "charts".toList)
    rw [splitOn_of_notMem '/' slashless] at second
    exact first.trans (congrArg _ second)
  have here : Path.steps "word" = ["word"] := by decide
  have there : Path.steps (chartPart n) = ["word","charts",String.ofList file] := by
    have present : String.ofList file ≠ "" := by simp [← String.toList_inj,file]
    have forward : String.ofList file ≠ "." := by simp [← String.toList_inj,file]
    have below : String.ofList file ≠ ".." := by simp [← String.toList_inj,file]
    simp [Path.steps,pieces,present,forward,below]
  have joined : Path.relative (chartPart n) (Path.folder part) =
      "charts" ++ "/" ++ String.ofList file := by
    simp only [Path.relative,direct.folder_eq,here,there,Path.withoutCommon]
    rfl
  simp [joined,← String.toList_inj,file]

/-- The target of a chart leads to its part. -/
theorem join_chartTarget (direct : IsDirect part) (n : Nat) :
    Path.join (Path.folder part) (Path.relative (chartPart n) (Path.folder part)) =
      chartPart n := by
  rw [relative_chartPart direct,direct.folder_eq,Path.join_eq]
  · rfl
  · simp
  · decide
  · decide

end MailMerge.Embed
