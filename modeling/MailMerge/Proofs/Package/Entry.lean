import MailMerge.Proofs.Package.Manifest

/-! Manifests as elements. A manifest in a forest stands for an element, and what the package does
to the one is told by what happens to the other: the first entry that fits is changed, or a new
entry is added after all others. In document order the elements of a manifest are a list of labels,
and the change is the same for the list. An element holds an entry when one of its descendants has
the name of the entry and at least its attributes.
-/
namespace MailMerge
open Xml Docx

/-- The name and the attributes of an element. -/
abbrev Label := Name × Attributes

/-- What a manifest is asked to hold. -/
inductive Entry where
  | relation (key kind target : String)
  | default (extension type : String)
  | override (part type : String)
  deriving DecidableEq, Repr

namespace Entry

def name : Entry → Name
  | relation .. => .within relationshipsSpace "Relationship"
  | default .. => .within typesSpace "Default"
  | override .. => .within typesSpace "Override"

def attributes : Entry → Attributes
  | relation key kind target => Forest.link key kind target
  | default extension type => [(.bare "Extension",extension),(.bare "ContentType",type)]
  | override part type =>
    [(.bare "PartName",Forest.rooted part),(.bare "ContentType",type)]

/-- The attributes of an element are those of an entry, perhaps with others. -/
def Fits (entry : Entry) (attributes : Attributes) : Prop :=
  ∀ a ∈ entry.attributes, attributes.get? a.1 = some a.2

instance (entry : Entry) (attributes : Attributes) : Decidable (entry.Fits attributes) :=
  inferInstanceAs (Decidable (∀ a ∈ entry.attributes, attributes.get? a.1 = some a.2))

end Entry

namespace Xml.Element

/-- An entry is among the descendants of an element. -/
def Holds (e : Element) (entry : Entry) : Prop :=
  ∃ attributes ∈ e.entries entry.name, entry.Fits attributes

instance (e : Element) (entry : Entry) : Decidable (e.Holds entry) :=
  inferInstanceAs (Decidable (∃ attributes ∈ e.entries entry.name, entry.Fits attributes))

/-- The labels of an element and everything below it, in document order. -/
def labels (e : Element) : List Label :=
  e.descendants.map fun x => (x.name,x.attributes)

theorem labels_mk (name : Name) (attributes : Attributes) (text : Option String)
    (children : List Element) (tail : Option String) :
    (mk name attributes text children tail).labels =
      (name,attributes) :: children.flatMap labels := by
  rw [labels,descendants_mk,List.map_cons,List.map_flatMap]
  rfl

section
variable (name : Name) (test : Attributes → Bool) (change : Attributes → Attributes)

mutual

/-- Changes the first element with a name, in document order, whose attributes pass a test. -/
def changeFirst? : Element → Option Element
  | mk name' attributes text children tail =>
    if name' == name && test attributes then
      some (mk name' (change attributes) text children tail)
    else (changeFirstOf? children).map fun children => mk name' attributes text children tail

/-- Changes the first such element in a list. -/
def changeFirstOf? : List Element → Option (List Element)
  | [] => none
  | e :: es =>
    match changeFirst? e with
    | some e => some (e :: es)
    | none => (changeFirstOf? es).map (e :: ·)

end

end

/-- Adds an entry after the last child. -/
def addEntry (e : Element) (entry : Entry) : Element :=
  mk e.name e.attributes e.text (e.children ++ [.node entry.name entry.attributes []]) e.tail

def relate (e : Element) (key kind target : String) : Element :=
  (e.changeFirst? (.within relationshipsSpace "Relationship")
    (·.get? (.bare "Id") == some key)
    fun a => (a.set (.bare "Type") kind).set (.bare "Target") target).getD
      (e.addEntry (.relation key kind target))

def hasDefault (e : Element) (extension : String) : Bool :=
  (e.entries (.within typesSpace "Default")).any fun a =>
    Text.lower ((a.get? (.bare "Extension")).getD "") == Text.lower extension

def ensureDefault (e : Element) (extension type : String) : Element :=
  if e.hasDefault extension then e else e.addEntry (.default extension type)

def ensureOverride (e : Element) (part type : String) : Element :=
  (e.changeFirst? (.within typesSpace "Override")
    (·.get? (.bare "PartName") == some (Forest.rooted part))
    (·.set (.bare "ContentType") type)).getD (e.addEntry (.override part type))

theorem entries_mk (name : Name) (attributes : Attributes) (text : Option String)
    (children : List Element) (tail : Option String) (other : Name) :
    (mk name attributes text children tail).entries other =
      (if name = other then [attributes] else []) ++ children.flatMap (·.entries other) := by
  rw [entries,descendants_mk,List.filter_cons,List.filter_flatMap]
  by_cases same : name = other
  · simp [Element.name,Element.attributes,same,entries,List.map_flatMap]
  · simp [Element.name,same,entries,List.map_flatMap]

theorem entries_addEntry (e : Element) (entry : Entry) (other : Name) :
    (e.addEntry entry).entries other =
      e.entries other ++ if entry.name = other then [entry.attributes] else [] := by
  cases e
  simp [addEntry,entries_mk,Element.name,Element.attributes,Element.children,Element.node]

end Xml.Element

namespace Label

/-- The attributes in a label of a kind. -/
def ofName? (name : Name) (l : Label) : Option Attributes :=
  if l.1 = name then some l.2 else none

theorem filterMap_ofName? (e : Element) (name : Name) :
    e.labels.filterMap (ofName? name) = e.entries name := by
  rw [Element.labels,List.filterMap_map,Element.entries,← List.filterMap_eq_map,
    List.filterMap_filter]
  refine List.filterMap_congr fun x _ => ?_
  simp [ofName?]

section
variable (test : Label → Bool) (change : Attributes → Attributes)

/-- Changes the first label that passes a test. -/
def changeFirst? : List Label → Option (List Label)
  | [] => none
  | l :: ls => if test l then some ((l.1,change l.2) :: ls) else (changeFirst? ls).map (l :: ·)

end

variable {test : Label → Bool} {change : Attributes → Attributes} {ls ls' : List Label}

theorem changeFirst?_append (first second : List Label) :
    changeFirst? test change (first ++ second) =
      ((changeFirst? test change first).map (· ++ second)).or
        ((changeFirst? test change second).map (first ++ ·)) := by
  induction first with
  | nil => simp [changeFirst?]
  | cons l first ih =>
    rw [List.cons_append,changeFirst?,changeFirst?]
    split
    · rfl
    · rw [ih]
      cases changeFirst? test change first with
      | some => rfl
      | none => cases changeFirst? test change second <;> rfl

/-- One label of the list is changed, one that passes the test. -/
theorem exists_of_changeFirst? (found : changeFirst? test change ls = some ls') :
    ∃ first l rest, ls = first ++ l :: rest ∧ test l = true ∧
      ls' = first ++ (l.1,change l.2) :: rest := by
  induction ls generalizing ls' with
  | nil => simp [changeFirst?] at found
  | cons l ls ih =>
    rw [changeFirst?] at found
    split at found
    · next here =>
      obtain rfl := Option.some.inj found
      exact ⟨[],l,ls,rfl,here,rfl⟩
    · obtain ⟨changed,later,rfl⟩ := Option.map_eq_some_iff.mp found
      obtain ⟨first,m,rest,rfl,passed,rfl⟩ := ih later
      exact ⟨l :: first,m,rest,rfl,passed,rfl⟩

end Label

namespace Xml.Element

section
variable (name : Name) (test : Attributes → Bool) (change : Attributes → Attributes)

mutual

theorem labels_changeFirst? (e : Element) : (e.changeFirst? name test change).map labels =
    Label.changeFirst? (fun l => l.1 == name && test l.2) change e.labels := by
  cases e with
  | mk name' attributes text children tail =>
    rw [changeFirst?,labels_mk,Label.changeFirst?]
    split
    · simp [labels_mk]
    · rw [← labels_changeFirstOf? children,Option.map_map,Option.map_map]
      simp [Function.comp_def,labels_mk]

theorem labels_changeFirstOf? (es : List Element) :
    (changeFirstOf? name test change es).map (·.flatMap labels) =
      Label.changeFirst? (fun l => l.1 == name && test l.2) change (es.flatMap labels) := by
  cases es with
  | nil => simp [changeFirstOf?,Label.changeFirst?]
  | cons e es =>
    rw [changeFirstOf?,List.flatMap_cons,Label.changeFirst?_append,← labels_changeFirst? e,
      ← labels_changeFirstOf? es]
    cases changeFirst? name test change e with
    | some e' => simp
    | none => simp [Option.map_map,Function.comp_def]

end

end

section
variable {name : Name} {test : Attributes → Bool} {change : Attributes → Attributes}

private theorem entries_changeFirst? (e e' : Element)
    (found : e.changeFirst? name test change = some e') :
    (∃ first a rest, e.entries name = first ++ a :: rest ∧ test a = true ∧
      e'.entries name = first ++ change a :: rest) ∧
        ∀ other, other ≠ name → e'.entries other = e.entries other := by
  have changed := labels_changeFirst? name test change e
  rw [found,Option.map_some] at changed
  obtain ⟨first,⟨name',a⟩,rest,before,passed,after⟩ := Label.exists_of_changeFirst? changed.symm
  rw [Bool.and_eq_true,beq_iff_eq] at passed
  obtain ⟨rfl,passed⟩ := passed
  simp only [← Label.filterMap_ofName?,before,after,List.filterMap_append]
  constructor
  · refine ⟨first.filterMap (Label.ofName? name'),a,rest.filterMap (Label.ofName? name'),?_,passed,?_⟩
    · simp [Label.ofName?]
    · simp [Label.ofName?]
  · intro other different
    simp [Label.ofName?,Ne.symm different]

end

namespace Holds

variable {e : Element} {entry : Entry}

theorem addEntry (held : e.Holds entry) (new : Entry) : (e.addEntry new).Holds entry := by
  obtain ⟨attributes,member,fits⟩ := held
  refine ⟨attributes,?_,fits⟩
  rw [entries_addEntry]
  exact List.mem_append_left _ member

theorem of_addEntry (e : Element) {entry : Entry} (fits : entry.Fits entry.attributes) :
    (e.addEntry entry).Holds entry := by
  refine ⟨entry.attributes,?_,fits⟩
  rw [entries_addEntry,if_pos rfl]
  exact List.mem_append_right _ List.mem_cons_self

section
variable {name : Name} {test : Attributes → Bool} {change : Attributes → Attributes}

/-- A change keeps an entry that still fits what is changed. -/
theorem changeFirst {e' : Element} (held : e.Holds entry)
    (found : e.changeFirst? name test change = some e')
    (kept : entry.name = name → ∀ a, test a = true → entry.Fits a → entry.Fits (change a)) :
    e'.Holds entry := by
  obtain ⟨attributes,member,fits⟩ := held
  obtain ⟨⟨first,a,rest,before,passed,after⟩,others⟩ := entries_changeFirst? e e' found
  by_cases same : entry.name = name
  · rw [same,before,List.mem_append,List.mem_cons] at member
    rcases member with member | rfl | member
    · exact ⟨attributes,by rw [same,after]; simp [member],fits⟩
    · exact ⟨change attributes,by rw [same,after]; simp,kept same _ passed fits⟩
    · exact ⟨attributes,by rw [same,after]; simp [member],fits⟩
  · exact ⟨attributes,by rwa [others _ same],fits⟩

theorem of_changeFirst {e' : Element} (found : e.changeFirst? entry.name test change = some e')
    (fits : ∀ a, test a = true → entry.Fits (change a)) : e'.Holds entry := by
  obtain ⟨⟨first,a,rest,_,passed,after⟩,_⟩ := entries_changeFirst? e e' found
  exact ⟨change a,by rw [after]; simp,fits a passed⟩

end

end Holds

section
variable (e : Element)

theorem holds_relate (key kind target : String) :
    (e.relate key kind target).Holds (.relation key kind target) := by
  unfold relate
  cases found : e.changeFirst? (.within relationshipsSpace "Relationship")
    (·.get? (.bare "Id") == some key)
    fun a => (a.set (.bare "Type") kind).set (.bare "Target") target with
  | none =>
    apply Holds.of_addEntry
    simp [Entry.Fits,Entry.attributes,Forest.link,Attributes.get?_cons,Name.bare]
  | some e' =>
    refine Holds.of_changeFirst (show _ = _ from found) ?_
    intro a passed
    have same : a.get? (.bare "Id") = some key := eq_of_beq passed
    simpa [Entry.Fits,Entry.attributes,Forest.link,Attributes.get?_set,Name.bare] using same

theorem holds_ensureDefault {extension : String} (new : e.hasDefault extension = false)
    (type : String) : (e.ensureDefault extension type).Holds (.default extension type) := by
  rw [ensureDefault,new]
  apply Holds.of_addEntry
  simp [Entry.Fits,Entry.attributes,Attributes.get?_cons,Name.bare]

theorem holds_ensureOverride (part type : String) :
    (e.ensureOverride part type).Holds (.override part type) := by
  unfold ensureOverride
  cases found : e.changeFirst? (.within typesSpace "Override")
    (·.get? (.bare "PartName") == some (Forest.rooted part)) (·.set (.bare "ContentType") type) with
  | none =>
    apply Holds.of_addEntry
    simp [Entry.Fits,Entry.attributes,Attributes.get?_cons,Name.bare]
  | some e' =>
    refine Holds.of_changeFirst (show _ = _ from found) ?_
    intro a passed
    have same : a.get? (.bare "PartName") = some (Forest.rooted part) := eq_of_beq passed
    simpa [Entry.Fits,Entry.attributes,Attributes.get?_set,Name.bare] using same

end

namespace Holds

variable {e : Element} {entry : Entry}

/-- A relation is lost only to one with its key. -/
theorem relate (held : e.Holds entry) {key kind target : String}
    (kept : ∀ kind' target', entry = .relation key kind' target' → kind' = kind ∧ target' = target) :
    (e.relate key kind target).Holds entry := by
  unfold Element.relate
  cases found : e.changeFirst? (.within relationshipsSpace "Relationship")
    (·.get? (.bare "Id") == some key)
    fun a => (a.set (.bare "Type") kind).set (.bare "Target") target with
  | none => exact held.addEntry _
  | some e' =>
    apply held.changeFirst found
    intro same a passed fits
    have named : a.get? (.bare "Id") = some key := eq_of_beq passed
    cases entry with
    | relation key' kind' target' =>
      have named' := fits (.bare "Id",key') (by simp [Entry.attributes,Forest.link])
      obtain rfl := Option.some.inj (named.symm.trans named')
      obtain ⟨rfl,rfl⟩ := kept kind' target' rfl
      simpa [Entry.Fits,Entry.attributes,Forest.link,Attributes.get?_set,Name.bare] using named
    | default => simp [Entry.name,Name.within] at same
    | override => simp [Entry.name,Name.within] at same

theorem ensureDefault (held : e.Holds entry) (extension type : String) :
    (e.ensureDefault extension type).Holds entry := by
  unfold Element.ensureDefault
  split
  · exact held
  · exact held.addEntry _

/-- The type of a part is lost only to another type for it. -/
theorem ensureOverride (held : e.Holds entry) {part type : String}
    (kept : ∀ part' type', entry = .override part' type' →
      Forest.rooted part' = Forest.rooted part → type' = type) :
    (e.ensureOverride part type).Holds entry := by
  unfold Element.ensureOverride
  cases found : e.changeFirst? (.within typesSpace "Override")
    (·.get? (.bare "PartName") == some (Forest.rooted part)) (·.set (.bare "ContentType") type) with
  | none => exact held.addEntry _
  | some e' =>
    apply held.changeFirst found
    intro same a passed fits
    have named : a.get? (.bare "PartName") = some (Forest.rooted part) := eq_of_beq passed
    cases entry with
    | relation => simp [Entry.name,Name.within] at same
    | default => simp [Entry.name,Name.within] at same
    | override part' type' =>
      have named' := fits (.bare "PartName",Forest.rooted part') (by simp [Entry.attributes])
      have same_part := Option.some.inj (named'.symm.trans named)
      obtain rfl := kept part' type' rfl same_part
      simpa [Entry.Fits,Entry.attributes,Attributes.get?_set,Name.bare] using named'

end Holds

end Xml.Element
end MailMerge
