import MailMerge.Options
import MailMerge.Proofs.Package.Parts
import Mathlib.Data.List.Nodup
import Mathlib.Data.List.TakeWhile

/-! What a generation does to the parts of its package, step by step. A part is created under a name
that is free, or a tree of one of few parts is read or made; nothing else becomes a part. So parts are
only ever added, at the end, and the others keep their bytes until the package is saved.
-/
namespace MailMerge
open Text

namespace Archive

/-- A name without zero characters is stored in an archive as it is. -/
def IsShort (name : String) : Prop :=
  '\x00' ∉ name.toList

instance (name : String) : Decidable (IsShort name) :=
  inferInstanceAs (Decidable (¬ _))

theorem shortName_eq {name : String} (short : IsShort name) : shortName name = name := by
  rw [shortName,List.takeWhile_eq_self_iff.mpr,String.ofList_toList]
  intro c member
  have other : c ≠ '\x00' := fun zero => short (zero ▸ member)
  simpa using other

theorem isShort_shortName (name : String) : IsShort (shortName name) := by
  intro member
  rw [shortName,String.toList_ofList] at member
  simpa using List.mem_takeWhile_imp member

namespace IsShort

theorem append {first second : String} (left : IsShort first) (right : IsShort second) :
    IsShort (first ++ second) := by
  simp only [IsShort,String.toList_append,List.mem_append,not_or]
  exact ⟨left,right⟩

/-- What is made of the characters of a name and of slashes is short if the name is. -/
theorem of_subset {name : String} (short : IsShort name) {text : List Char}
    (inside : ∀ c ∈ text, c ∈ name.toList ∨ c = '/') : IsShort (String.ofList text) := by
  intro member
  rw [String.toList_ofList] at member
  rcases inside _ member with former | slash
  · exact short former
  · simp at slash

theorem base {path : String} (short : IsShort path) : IsShort (Path.base path) := by
  unfold Path.base
  split
  · next cut => exact short.of_subset fun c member => Or.inl (mem_of_cutLast? cut (Or.inr member))
  · exact short

theorem folder {path : String} (short : IsShort path) : IsShort (Path.folder path) := by
  unfold Path.folder
  split
  · next head _ cut =>
    refine short.of_subset fun c member => ?_
    have kept : c ∈ head ++ ['/'] := by
      unfold Path.trimSlashes at member
      split at member
      · exact member
      · exact List.mem_reverse.mp ((List.dropWhile_sublist _).subset (List.mem_reverse.mp member))
    rw [List.mem_append,List.mem_singleton] at kept
    exact kept.imp_left fun inside => mem_of_cutLast? cut (Or.inl inside)
  · exact fun member => by simp at member

theorem join {folder name : String} (outer : IsShort folder) (inner : IsShort name) :
    IsShort (Path.join folder name) := by
  unfold Path.join
  split
  · exact inner
  · split
    · exact outer.append inner
    · exact (outer.append (by decide)).append inner

theorem relationships {part : String} (short : IsShort part) : IsShort (Path.relationships part) :=
  (short.folder.join (by decide)).join (short.base.append (by decide))

end IsShort
end Archive
open Archive

/-- The extensions of the files that images are stored in. -/
def Settings.extensions (s : Settings) : List String :=
  s.imageTypes.map (·.1) ++ s.formatExtensions.map (·.2)

namespace Package

/-- A name is stored as it is, if so are the extensions of images. -/
def Fits (s : Settings) (name : String) : Prop :=
  (∀ extension ∈ s.extensions, IsShort extension) → IsShort name

/-- A pattern selects a part. -/
def Selects (pattern name : String) : Prop :=
  ∃ p, Pattern.ofText? pattern = some p ∧ p.startsText name = true

/-- A part that is filled: the document, a header when a text or a watermark for headers is asked
for, a footer when a text for footers is. -/
def Filled (s : Settings) (o : Options) (name : String) : Prop :=
  name = documentPart ∨
    ((o.header.isTruthy = true ∨ o.watermark.isTruthy = true) ∧ Selects s.headerPattern name) ∨
      (o.footer.isTruthy = true ∧ Selects s.footerPattern name)

/-- A part that may change: a part that is filled, the manifest of its relationships, and the
manifest of content types. -/
def Touchable (s : Settings) (o : Options) (name : String) : Prop :=
  name = typesPart ∨ Filled s o name ∨ ∃ part, Filled s o part ∧ name = Path.relationships part

/-- One thing that happens to the parts of a package, with the names of the parts it creates. -/
inductive Filing (s : Settings) (o : Options) : Package → List String → Package → Prop
  /-- neither parts nor trees are added or replaced -/
  | aside {p q : Package} (parts : q.parts = p.parts) (order : q.order = p.order)
    (trees : q.trees = p.trees) : Filing s o p [] q
  | read {p : Package} {name : String} (t : PartTree) (touchable : Touchable s o name)
    (held : p.hasPart name = true) :
    Filing s o p [] ({ p with trees := store p.trees name t }.touch name)
  | write {p : Package} {name : String} (data : ByteArray) (missing : p.hasPart name = false)
    (fits : Fits s name) : Filing s o p [name] (p.write name data)
  | create {p : Package} {name : String} (root : NodeId) (space : String)
    (touchable : Touchable s o name) (missing : p.hasPart name = false) (fits : Fits s name) :
    Filing s o p [name] (p.setTree name root space)
  | flush {p : Package} : Filing s o p [] p.flush

/-- What happens one after the other, with the names of the created parts in order. -/
inductive Filings (s : Settings) (o : Options) : Package → List String → Package → Prop
  | refl {p : Package} : Filings s o p [] p
  | tail {p q r : Package} {created made : List String} (earlier : Filings s o p created q)
    (last : Filing s o q made r) : Filings s o p (created ++ made) r

/-- A package beside the one it comes from: parts were created at the end, and only parts that may
change have trees or other bytes. -/
structure Grown (s : Settings) (o : Options) (p : Package) (created : List String) (q : Package) :
    Prop where
  names : q.names = p.names ++ created
  order : q.order = p.order
  distinct : q.names.Nodup
  fits : ∀ name ∈ q.names, Fits s name
  bytes : ∀ name ∈ p.names, ¬ Touchable s o name → q.part? name = p.part? name
  trees : ∀ name t, q.trees.lookup name = some t → Touchable s o name ∧ q.hasPart name = true

theorem mem_of_lookup {entries : List (String × α)} {name : String} {value : α}
    (found : entries.lookup name = some value) : (name,value) ∈ entries := by
  obtain ⟨before,after,rfl,_⟩ := List.lookup_eq_some_iff.mp found
  exact List.mem_append_right before List.mem_cons_self

theorem hasPart_eq_true_iff {p : Package} {name : String} :
    p.hasPart name = true ↔ name ∈ p.names := by
  simp [hasPart,names]

theorem notMem_names {p : Package} {name : String} (missing : p.hasPart name = false) :
    name ∉ p.names := by
  simp [← hasPart_eq_true_iff,missing]

theorem map_store_of_held {entries : List (String × α)} {name : String} (value : α)
    (held : name ∈ entries.map (·.1)) : (store entries name value).map (·.1) = entries.map (·.1) := by
  have present : entries.any (·.1 == name) = true := by simpa using held
  rw [store,if_pos present,List.map_map]
  apply List.map_congr_left
  intro entry _
  by_cases same : entry.1 = name <;> simp [same]

theorem map_store_of_missing {entries : List (String × α)} {name : String} (value : α)
    (missing : name ∉ entries.map (·.1)) :
    (store entries name value).map (·.1) = entries.map (·.1) ++ [name] := by
  have absent : ¬ entries.any (·.1 == name) = true := by simpa using missing
  rw [store,if_neg absent,List.map_append]
  rfl

/-- Flushing replaces parts and adds none, when what has a tree is a part. -/
theorem names_flush {p : Package}
    (held : ∀ name t, p.trees.lookup name = some t → p.hasPart name = true) :
    p.flush.names = p.names := by
  refine List.foldlRecOn (sorted p.touched) _ (motive := fun (parts : Entries) =>
    parts.map (·.1) = p.names) rfl ?_
  intro parts same name _
  split
  · next t known =>
    have present := hasPart_eq_true_iff.mp (held name t known)
    exact (map_store_of_held _ (same ▸ present)).trans same
  · exact same

section
variable {s : Settings} {o : Options} {p q r : Package} {created made : List String}

/-- A new part is stored at the end and takes no other part's place. -/
private theorem Grown.add (grown : Grown s o p created q) {name : String}
    (missing : q.hasPart name = false) (fits : Fits s name) {r : Package} {data : ByteArray}
    (parts : r.parts = store q.parts name data) (order : r.order = q.order)
    (trees : ∀ other t, r.trees.lookup other = some t → other = name ∧ Touchable s o name ∨
      q.trees.lookup other = some t) : Grown s o p (created ++ [name]) r := by
  have absent := notMem_names missing
  have names : r.names = q.names ++ [name] := by
    rw [Package.names,parts]
    exact map_store_of_missing data absent
  have inside : name ∈ r.names := by simp [names]
  refine ⟨?_,order.trans grown.order,?_,?_,?_,?_⟩
  · rw [names,grown.names,List.append_assoc]
  · rw [names]
    exact grown.distinct.append (List.nodup_singleton name) (by simpa using absent)
  · intro other member
    rw [names,List.mem_append,List.mem_singleton] at member
    rcases member with former | rfl
    · exact grown.fits other former
    · exact fits
  · intro other member untouchable
    have different : other ≠ name := by
      rintro rfl
      exact absent (by simp [grown.names,member])
    rw [← grown.bytes other member untouchable,part?,part?,parts,lookup_store,if_neg different]
  · intro other t known
    rcases trees other t known with ⟨rfl,touchable⟩ | former
    · exact ⟨touchable,hasPart_eq_true_iff.mpr inside⟩
    · obtain ⟨touchable,held⟩ := grown.trees other t former
      refine ⟨touchable,hasPart_eq_true_iff.mpr ?_⟩
      rw [names]
      exact List.mem_append_left _ (hasPart_eq_true_iff.mp held)

/-- Every step keeps what the package has become. -/
theorem Grown.step (grown : Grown s o p created q) (step : Filing s o q made r) :
    Grown s o p (created ++ made) r := by
  cases step with
  | aside parts order trees =>
    have names : r.names = q.names := by rw [Package.names,Package.names,parts]
    refine ⟨?_,order.trans grown.order,names ▸ grown.distinct,names ▸ grown.fits,?_,?_⟩
    · rw [names,grown.names,List.append_nil]
    · intro name member untouchable
      rw [← grown.bytes name member untouchable,part?,part?,parts]
    · intro name t known
      rw [trees] at known
      rw [hasPart,parts]
      exact grown.trees name t known
  | @read name t touchable held =>
    refine ⟨?_,grown.order,grown.distinct,grown.fits,grown.bytes,?_⟩
    · rw [List.append_nil]
      exact grown.names
    · intro other t' known
      have known' : (store q.trees name t).lookup other = some t' := known
      rw [lookup_store] at known'
      split at known'
      · next same =>
        subst same
        exact ⟨touchable,held⟩
      · exact grown.trees other t' known'
  | @write name data missing fits =>
    refine grown.add missing fits rfl rfl fun other t known => ?_
    rw [lookup_trees_write] at known
    split at known
    · simp at known
    · exact Or.inr known
  | @create name root space touchable missing fits =>
    refine grown.add missing fits rfl rfl fun other t known => ?_
    rw [lookup_trees_setTree] at known
    split at known
    · next same => exact Or.inl ⟨same,touchable⟩
    · exact Or.inr known
  | flush =>
    have names := names_flush fun name t known => (grown.trees name t known).2
    refine ⟨?_,grown.order,names ▸ grown.distinct,names ▸ grown.fits,?_,?_⟩
    · rw [names,grown.names,List.append_nil]
    · intro name member untouchable
      rw [← grown.bytes name member untouchable]
      apply part?_flush_of_unread
      cases known : q.trees.lookup name with
      | none => rfl
      | some t => exact absurd (grown.trees name t known).1 untouchable
    · intro name t known
      obtain ⟨touchable,held⟩ := grown.trees name t known
      exact ⟨touchable,hasPart_flush q name held⟩

/-- What a package without trees has become after any number of steps. -/
theorem Filings.grown (steps : Filings s o p created q) (unread : p.trees = [])
    (distinct : p.names.Nodup) (fits : ∀ name ∈ p.names, Fits s name) : Grown s o p created q := by
  induction steps with
  | refl =>
    refine ⟨(List.append_nil _).symm,rfl,distinct,fits,fun _ _ _ => rfl,?_⟩
    intro name t known
    simp [unread] at known
  | tail _ last ih => exact ih.step last

/-- Parts stay. -/
theorem Filing.hasPart (step : Filing s o p made q) {name : String}
    (held : p.hasPart name = true) : q.hasPart name = true := by
  have kept {parts : Entries} {other : String} {data : ByteArray}
      (stored : parts = store p.parts other data) : ∃ data', parts.lookup name = some data' := by
    rw [stored,lookup_store]
    split
    · exact ⟨data,rfl⟩
    · exact hasPart_iff.mp held
  cases step with
  | aside parts _ _ => rwa [Package.hasPart,parts]
  | read t _ _ => exact held
  | write data _ _ => exact hasPart_iff.mpr (kept rfl)
  | create root space _ _ _ => exact hasPart_iff.mpr (kept rfl)
  | flush => exact hasPart_flush p name held

theorem Filings.hasPart (steps : Filings s o p created q) {name : String}
    (held : p.hasPart name = true) : q.hasPart name = true := by
  induction steps with
  | refl => exact held
  | tail _ last ih => exact last.hasPart ih

end

/-- The order of an archive with a manifest of content types: it comes first, then the parts that the
package was opened with, then the created ones. -/
theorem savedNames_eq {p q : Package} {created : List String} (opened : q.order = p.names)
    (names : q.names = p.names ++ created) (distinct : q.names.Nodup)
    (typed : q.hasPart typesPart = true) :
    q.savedNames = typesPart :: (p.names ++ created).filter (· != typesPart) := by
  rw [names] at distinct
  have former : q.order.filter q.hasPart = p.names := by
    rw [opened,List.filter_eq_self]
    intro name member
    rw [hasPart_eq_true_iff,names]
    exact List.mem_append_left _ member
  have later : (q.names.filter fun name => !q.order.contains name) = created := by
    rw [opened,names,List.filter_append,List.filter_eq_nil_iff.mpr,List.nil_append,
      List.filter_eq_self]
    · intro name member
      have apart : name ∉ p.names := fun here =>
        (List.nodup_append.mp distinct).2.2 name here name member rfl
      simpa using apart
    · simp
  have inside : (p.names ++ created).contains typesPart = true := by
    rw [List.contains_iff_mem,← names]
    exact hasPart_eq_true_iff.mp typed
  rw [savedNames]
  simp only [former,later,inside,if_true]
  rw [distinct.erase_eq_filter]

/-- The entries of an archive are the parts in the order in which they are saved. -/
theorem entries_saved {p : Package} {entries : Entries} (saved : p.entries = .ok entries) :
    entries = p.savedNames.map fun name => (shortName name,(p.part? name).getD .empty) := by
  rw [← List.map_id entries]
  apply map_of_mapM_eq_ok saved
  intro name entry stored
  simp only at stored
  split at stored
  · simp at stored
  · exact (Except.ok.inj stored).symm

end Package

private theorem nodup_eraseDups (names : List String) : names.eraseDups.Nodup := by
  induction size : names.length using Nat.strongRecOn generalizing names with
  | ind n ih =>
    cases names with
    | nil => exact List.nodup_nil
    | cons name names =>
      rw [List.eraseDups_cons,List.nodup_cons]
      have shorter := List.length_filter_le (fun other => !other == name) names
      simp only [List.length_cons] at size
      exact ⟨by simp [List.mem_eraseDups],ih _ (by omega) _ rfl⟩

/-- The parts of an archive have different names, which are stored as they are. -/
theorem Archive.names_of_read {bytes : ByteArray} {entries : Entries}
    (opened : Archive.read bytes = .ok entries) :
    (entries.map (·.1)).Nodup ∧ ∀ name ∈ entries.map (·.1), IsShort name := by
  unfold Archive.read at opened
  split at opened
  · simp only at opened
    split at opened
    · simp [bind,Except.bind,throw,throwThe,MonadExceptOf.throw] at opened
    · obtain ⟨all,_,opened⟩ := exists_of_bind_eq_ok opened
      have same := map_of_mapM_eq_ok opened (f := (·.1)) (g := id) ?_
      · rw [same,List.map_id]
        refine ⟨nodup_eraseDups _,fun name member => ?_⟩
        rw [List.mem_eraseDups,List.mem_map] at member
        obtain ⟨l,_,rfl⟩ := member
        exact isShort_shortName _
      · intro name entry found
        split at found
        · obtain ⟨data,_,found⟩ := exists_of_bind_eq_ok found
          obtain rfl := Except.ok.inj found
          rfl
        · simp [throw,throwThe,MonadExceptOf.throw] at found
  · simp [throw,throwThe,MonadExceptOf.throw] at opened

end MailMerge
