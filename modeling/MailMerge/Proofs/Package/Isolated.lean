import MailMerge.Proofs.Package.Saved
import MailMerge.Proofs.Xml.Registry

/-! What the bytes of one part depend on. Parts are read and edited side by side, and all that one of them
takes from another are the prefixes that the other proposes for its namespaces. Where those agree with
its own, its bytes come from its own contents and edits alone.
-/
namespace MailMerge
open Xml Docx Package

namespace Xml.Element

mutual

/-- Renaming tags brings in no names but those that it gives. -/
private theorem mem_names_mapNames {f : Name → Name} {name : Name} (e : Element)
    (member : name ∈ (e.mapNames f).names) : name ∈ e.names ∨ ∃ old ∈ e.names, name = f old :=
  match e with
  | .mk tag attributes text children tail => by
    simp only [mapNames,names,List.mem_append,List.mem_cons] at member ⊢
    rcases member with (rfl | inside) | below
    · exact Or.inr ⟨tag,Or.inl (Or.inl rfl),rfl⟩
    · exact Or.inl (Or.inl (Or.inr inside))
    · rcases mem_namesOf_mapNamesOf children below with kept | ⟨old,there,given⟩
      · exact Or.inl (Or.inr kept)
      · exact Or.inr ⟨old,Or.inr there,given⟩

private theorem mem_namesOf_mapNamesOf {f : Name → Name} {name : Name} (es : List Element)
    (member : name ∈ namesOf (mapNamesOf f es)) :
    name ∈ namesOf es ∨ ∃ old ∈ namesOf es, name = f old :=
  match es with
  | [] => by simp [mapNamesOf,namesOf] at member
  | e :: es => by
    simp only [mapNamesOf,namesOf,List.mem_append] at member ⊢
    rcases member with here | later
    · rcases mem_names_mapNames e here with kept | ⟨old,there,given⟩
      · exact Or.inl (Or.inl kept)
      · exact Or.inr ⟨old,Or.inl there,given⟩
    · rcases mem_namesOf_mapNamesOf es later with kept | ⟨old,there,given⟩
      · exact Or.inl (Or.inr kept)
      · exact Or.inr ⟨old,Or.inr there,given⟩

end

end Xml.Element

/-- Without the prefix of its default namespace an element uses no other namespaces. -/
theorem uses_of_unprefixed {e : Element} {space used : String}
    (uses : (unprefixed e space).Uses used) : e.Uses used := by
  obtain ⟨name,member,qualified⟩ := uses
  have mapped : name = .bare "xmlns" ∨ name ∈ (e.mapNames fun name =>
      if name.space == some space then .bare name.stem else name).names := by
    unfold unprefixed at member
    generalize (e.mapNames _) = e' at member ⊢
    cases e' with
    | mk tag attributes text children tail =>
      simp only [Element.names,Element.name,Element.attributes,Element.children,List.map_cons,
        List.mem_append,List.mem_cons] at member ⊢
      tauto
  rcases mapped with rfl | mapped
  · simp [Name.bare] at qualified
  · rcases Element.mem_names_mapNames e mapped with kept | ⟨old,there,rfl⟩
    · exact ⟨name,kept,qualified⟩
    · split at qualified
      · simp [Name.bare] at qualified
      · exact ⟨old,there,qualified⟩

/-- A draft takes from a registry what it proposes for the namespaces of its element. -/
theorem Draft.bytes_congr {d : Draft} {prefixes prefixes' : Registry}
    (same : ∀ space, d.element.Uses space → prefixes.label? space = prefixes'.label? space) :
    d.bytes prefixes = d.bytes prefixes' := by
  have written : partText prefixes d.tag d.defaultSpace d.element =
      partText prefixes' d.tag d.defaultSpace d.element := by
    unfold partText
    split
    · dsimp only
      rw [Element.markup_congr fun space uses => same space (uses_of_unprefixed uses)]
    · dsimp only
      rw [Element.markup_congr same]
  rw [bytes,bytes,written]

namespace Operation

/-- What an operation makes of the tree of a part, if it edits it. -/
def change? (name : String) : Operation → Option (Element → Element)
  | edit other change => if other = name then some change else none
  | _ => none

/-- The operation reads a part and edits its tree, which may leave the tree as it is. -/
def IsEdit (o : Operation) : Prop :=
  ∃ name change, o = .edit name change

end Operation

namespace Package

/-- A tree after some edits. -/
def edited (e : Element) (changes : List (Element → Element)) : Element :=
  changes.foldl (fun e change => change e) e

/-- What becomes of the contents of a part by edits of its tree when no other part is read: it is written
if there are any and it can be read. -/
def alone (prefixes : Registry) (data : ByteArray) (changes : List (Element → Element)) :
    ByteArray :=
  match (readBytes data).root, changes with
  | .ok e, _ :: _ => { Draft.of data e with element := edited e changes }.bytes
    (prefixes.enter (readBytes data).declared)
  | _, _ => data

end Package

namespace Outline

/-- A declaration of a part other than the given one. -/
def Foreign (parts : Archive.Entries) (name : String) (d : String × String) : Prop :=
  ∃ other contents, other ≠ name ∧ parts.lookup other = some contents ∧
    d ∈ (readBytes contents).declared

/-- How an outline is related to the one of an unread package after some edits of one part among
others: the part was not read so far, or it was read between other parts and edited. -/
inductive Phase (start : Outline) (name : String) (data : ByteArray) (e : Element) :
    List (Element → Element) → Outline → Prop
  | unread {o : Outline} (before : List (String × String))
    (foreign : ∀ d ∈ before, Foreign start.parts name d)
    (parts : o.parts = start.parts) (undrawn : o.drafts name = none)
    (untouched : name ∉ o.touched) (prefixes : o.prefixes = start.prefixes.enter before) :
    Phase start name data e [] o
  | read {o : Outline} {changes : List (Element → Element)} (before later : List (String × String))
    (foreign : ∀ d ∈ before ++ later, Foreign start.parts name d)
    (parts : o.parts = start.parts)
    (drawn : o.drafts name = some { Draft.of data e with element := edited e changes })
    (touched : name ∈ o.touched) (some_change : changes ≠ [])
    (prefixes : o.prefixes =
      ((start.prefixes.enter before).enter (readBytes data).declared).enter later) :
    Phase start name data e changes o

variable {start o : Outline} {name : String} {data : ByteArray} {e : Element}
  {changes : List (Element → Element)}

theorem enter_append (registry : Registry) (first second : List (String × String)) :
    registry.enter (first ++ second) = (registry.enter first).enter second :=
  List.foldl_append

/-- Reading and editing another part brings in its declarations at most. -/
private theorem after_edit_other (o : Outline) {other : String} (different : other ≠ name)
    (change : Element → Element) : ∃ more, (∀ d ∈ more, Foreign o.parts name d) ∧
      (o.after (.edit other change)).parts = o.parts ∧
        (o.after (.edit other change)).drafts name = o.drafts name ∧
          (name ∈ (o.after (.edit other change)).touched ↔ name ∈ o.touched) ∧
            (o.after (.edit other change)).prefixes = o.prefixes.enter more := by
  rw [after_edit]
  cases o.drafts other with
  | some d =>
    refine ⟨[],by simp,rfl,by simp [amend,touch,different.symm],?_,rfl⟩
    simp [amend,mem_touch,different.symm]
  | none =>
    cases held : o.parts.lookup other with
    | none => exact ⟨[],by simp,rfl,rfl,Iff.rfl,rfl⟩
    | some contents =>
      have foreign : ∀ d ∈ (readBytes contents).declared, Foreign o.parts name d :=
        fun d member => ⟨other,contents,different,held,member⟩
      dsimp only
      split
      · exact ⟨_,foreign,rfl,rfl,Iff.rfl,rfl⟩
      · refine ⟨_,foreign,rfl,by simp [amend,touch,draw,different.symm],?_,rfl⟩
        simp [amend,mem_touch,draw,different.symm]

/-- Reading and editing another part. -/
private theorem Phase.other (phase : Phase start name data e changes o) {other : String}
    (different : other ≠ name) (change : Element → Element) :
    Phase start name data e changes (o.after (.edit other change)) := by
  obtain ⟨more,foreign',parts',drafts',touched',prefixes'⟩ := after_edit_other o different change
  cases phase with
  | unread before foreign parts undrawn untouched prefixes =>
    rw [parts] at foreign'
    refine .unread (before ++ more) ?_ (parts'.trans parts) (drafts'.trans undrawn)
      (fun member => untouched (touched'.mp member)) ?_
    · intro d member
      exact (List.mem_append.mp member).elim (foreign d) (foreign' d)
    · rw [prefixes',prefixes,enter_append]
  | read before later foreign parts drawn touched some_change prefixes =>
    rw [parts] at foreign'
    refine .read before (later ++ more) ?_ (parts'.trans parts) (drafts'.trans drawn)
      (touched'.mpr touched) some_change ?_
    · intro d member
      rw [← List.append_assoc] at member
      exact (List.mem_append.mp member).elim (foreign d) (foreign' d)
    · rw [prefixes',prefixes,enter_append _ later]

/-- Reading and editing the part. -/
private theorem Phase.own (phase : Phase start name data e changes o)
    (held : start.parts.lookup name = some data) (reading : (readBytes data).root = .ok e)
    (change : Element → Element) :
    Phase start name data e (changes ++ [change]) (o.after (.edit name change)) := by
  rw [after_edit]
  cases phase with
  | unread before foreign parts undrawn untouched prefixes =>
    rw [← parts] at held
    simp only [undrawn,held,reading,List.nil_append]
    refine .read before [] (by simpa using foreign) parts ?_ ?_ (by simp) ?_
    · simp [amend,touch,draw,edited,Draft.of]
    · simp [amend,mem_touch]
    · simp [amend,touch,draw,prefixes,Registry.enter]
  | read before later foreign parts drawn touched some_change prefixes =>
    simp only [drawn]
    refine .read before later foreign parts ?_ ?_ (by simp) prefixes
    · simp [amend,touch,drawn,edited,List.foldl_append]
    · simp [amend,mem_touch]

/-- Any edits of parts. -/
theorem Phase.run (phase : Phase start name data e changes o)
    (held : start.parts.lookup name = some data) (reading : (readBytes data).root = .ok e)
    {os : List Operation} (edits : ∀ op ∈ os, op.IsEdit) :
    Phase start name data e (changes ++ os.filterMap (·.change? name)) (o.run os) := by
  induction os generalizing o changes with
  | nil => simpa using phase
  | cons op os ih =>
    obtain ⟨first,later⟩ := List.forall_mem_cons.mp edits
    obtain ⟨other,change,rfl⟩ := first
    rw [run_cons]
    by_cases same : other = name
    · subst same
      simpa [Operation.change?] using ih (phase.own held reading change) later
    · simpa [Operation.change?,same] using ih (phase.other same change) later

/-- A part that cannot be read gets no draft. -/
theorem undrawn_run {problem : Misreading} (reading : (readBytes data).root = .error problem)
    (held : o.parts.lookup name = some data) (undrawn : o.drafts name = none) {os : List Operation}
    (edits : ∀ op ∈ os, op.IsEdit) :
    (o.run os).parts.lookup name = some data ∧ (o.run os).drafts name = none := by
  induction os generalizing o with
  | nil => exact ⟨held,undrawn⟩
  | cons op os ih =>
    obtain ⟨first,later⟩ := List.forall_mem_cons.mp edits
    obtain ⟨other,change,rfl⟩ := first
    rw [run_cons]
    by_cases same : other = name
    · subst same
      apply ih _ _ later
      · simp [after_edit,undrawn,held,reading]
      · simp [after_edit,undrawn,held,reading]
    · obtain ⟨_,_,parts,drafts,_,_⟩ := after_edit_other o same change
      exact ih (parts ▸ held) (drafts.trans undrawn) later

end Outline

/-- The bytes of a part after any edits of any parts, in whatever order the parts are read: what its own
contents and edits make of it alone, if the other parts bind its namespaces to no other prefixes
than it does, and its prefixes to no other namespaces. -/
theorem Package.flush_of_edits {p : Package} (fresh : p.Fresh) (proper : p.prefixes.Proper)
    {name : String} {data : ByteArray} (held : p.part? name = some data) {os : List Operation}
    (edits : ∀ op ∈ os, op.IsEdit)
    (agree : ∀ e, (readBytes data).root = .ok e → ∀ space,
      (edited e (os.filterMap (·.change? name))).Uses space → ∀ d, Outline.Foreign p.parts name d →
        Registry.Agrees space ((p.prefixes.enter (readBytes data).declared).label? space) d) :
    (p.run os).flush.part? name = some (alone p.prefixes data (os.filterMap (·.change? name))) := by
  obtain ⟨coherent,outline_eq⟩ := fresh.coherent.run os
  have flushed : (p.run os).flush.part? name = (p.outline.run os).flush.parts.lookup name := by
    rw [← outline_eq,← coherent.flush.2]
    rfl
  have held' : p.outline.parts.lookup name = some data := held
  have undrawn : p.outline.drafts name = none := by simp [outline,fresh.trees]
  rw [flushed,Outline.lookup_parts_flush]
  cases reading : (readBytes data).root with
  | error problem =>
    obtain ⟨kept,none⟩ := Outline.undrawn_run reading held' undrawn edits
    simp [none,kept,alone,reading]
  | ok e =>
    have begun : Outline.Phase p.outline name data e [] p.outline :=
      .unread [] (by simp) rfl undrawn (by simp [outline,fresh.touched]) rfl
    have phase := begun.run held' reading edits
    rw [List.nil_append] at phase
    generalize os.filterMap (·.change? name) = changes at phase agree
    cases phase with
    | unread before foreign parts undrawn untouched prefixes =>
      rw [if_neg untouched,parts]
      simpa [alone,reading] using held'
    | read before later foreign parts drawn touched some_change prefixes =>
      obtain ⟨change,changes,rfl⟩ := List.exists_cons_of_ne_nil some_change
      rw [if_pos touched,drawn,prefixes]
      have written := Draft.bytes_congr (d := { Draft.of data e with
          element := edited e (change :: changes) }) fun space uses =>
        Registry.label?_enter_between proper fun d member =>
          agree e reading space uses d (foreign d member)
      simp only [Option.map_some,Option.some_or,alone,reading,← written]
      rfl

private def sharedBytes : ByteArray :=
  Text.encode "<a:x xmlns:a=\"n\"><a:y/></a:x>"

private def sharingBytes : ByteArray :=
  Text.encode "<a:z xmlns:a=\"n\"/>"

/-- Two parts with one namespace under one prefix. -/
def Package.sharing : Package :=
  { parts := [("x",sharedBytes),("z",sharingBytes)] }

/-- The other part is read first. -/
theorem Package.flush_of_edits_sharing : ∃ data, sharing.part? "x" = some data ∧
    (sharing.run [.edit "z" id,.edit "x" id]).flush.part? "x" =
      some (alone sharing.prefixes data [id]) := by
  have fresh : sharing.Fresh := ⟨rfl,rfl,rfl,rfl,rfl⟩
  have proper : sharing.prefixes.Proper := by
    unfold Registry.Proper
    decide +kernel
  have edits : ∀ op ∈ [Operation.edit "z" id,.edit "x" id], op.IsEdit := by
    simp [Operation.IsEdit]
  have names : (readBytes sharedBytes).root.toOption.map Element.names =
      some [.within "n" "x",.within "n" "y"] := by decide +kernel
  have declared : (readBytes sharingBytes).declared = [("a","n")] := by decide +kernel
  have label : (sharing.prefixes.enter (readBytes sharedBytes).declared).label? "n" = some "a" := by
    decide +kernel
  refine ⟨sharedBytes,rfl,flush_of_edits fresh proper rfl edits ?_⟩
  rintro e reading space ⟨name,member,qualified⟩ d ⟨other,contents,different,there,inside⟩
  -- the namespace is the one that both parts use, and the declaration is that of the other part
  obtain rfl : space = "n" := by
    have used : name ∈ e.names := member
    simp only [reading,Except.toOption,Option.map_some,Option.some.injEq] at names
    rw [names] at used
    have known : name.space = some "n" := by
      simp only [List.mem_cons,List.not_mem_nil,or_false] at used
      rcases used with rfl | rfl <;> rfl
    exact Option.some.inj (qualified.symm.trans known)
  obtain rfl : contents = sharingBytes := by
    simp only [sharing,lookup_cons_eq,List.lookup_nil,if_neg different] at there
    split at there
    · exact (Option.some.inj there).symm
    · simp at there
  rw [declared,List.mem_singleton] at inside
  rw [label,inside]
  exact fun _ => by decide

end MailMerge
