import MailMerge.Proofs.Package.Labels
import MailMerge.Proofs.Package.Parts
import MailMerge.Proofs.Tree.Single

/-! Manifests as maps. After any requests for entries, what is looked up is what the last of them
wrote under the key, or else what the manifest said before. A type for an extension is declared
only while there is none. No entry is lost or moved, and an identifier that occurred once at most
still does.
-/
namespace MailMerge
open Xml Docx

namespace Entry

/-- The label of a new entry. -/
def label (entry : Entry) : Label :=
  (entry.name,entry.attributes)

/-- Asks the manifest with a root for an entry. -/
def request (root : NodeId) : Entry → Packaging Unit
  | relation key kind target => Packaging.edit (·.relate root key kind target)
  | default extension type => do let _ ← Packaging.ensureDefault root extension type
  | override part type => do let _ ← Packaging.ensureOverride root part type

/-- What becomes of a manifest that is asked for an entry. -/
def into : Entry → Element → Element
  | relation key kind target, e => e.relate key kind target
  | default extension type, e => e.ensureDefault extension type
  | override part type, e => e.ensureOverride part type

/-- The type that an entry gives to a part. -/
def typeFor? (part : String) : Entry → Option String
  | override part' type => if Forest.rooted part' = Forest.rooted part then some type else none
  | _ => none

/-- The target that an entry gives to a key. -/
def targetFor? (key : String) : Entry → Option String
  | relation key' _ target => if key' = key then some target else none
  | _ => none

/-- The attributes of an entry for an extension. -/
def declared? : Entry → Option Attributes
  | default extension type => some (default extension type).attributes
  | _ => none

/-- The extension of an entry, in small letters. -/
def extensionOf (attributes : Attributes) : String :=
  Text.lower ((attributes.get? (.bare "Extension")).getD "")

/-- Adds an entry for an extension that has none yet. -/
def declare (entries : List Attributes) (new : Attributes) : List Attributes :=
  if entries.any (extensionOf · == extensionOf new) then entries else entries ++ [new]

section
variable (e : Element)

theorem labels_relate (key kind target : String) : (e.relate key kind target).labels =
    Label.put (Label.keyed (.within relationshipsSpace "Relationship") (.bare "Id") key)
      (fun a => (a.set (.bare "Type") kind).set (.bare "Target") target)
      (relation key kind target).label e.labels :=
  e.labels_put _ _ _ (relation key kind target)

theorem labels_ensureOverride (part type : String) : (e.ensureOverride part type).labels =
    Label.put (Label.keyed (.within typesSpace "Override") (.bare "PartName") (Forest.rooted part))
      (·.set (.bare "ContentType") type) (override part type).label e.labels :=
  e.labels_put _ _ _ (override part type)

theorem labels_ensureDefault (extension type : String) : (e.ensureDefault extension type).labels =
    if e.hasDefault extension then e.labels else e.labels ++ [(default extension type).label] := by
  rw [Element.ensureDefault]
  split
  · rfl
  · exact e.labels_addEntry (default extension type)

/-- A part has the type that it was given by the last entry for it. -/
theorem reading_type (entry : Entry) (part : String) :
    Label.reading (entry.into e).labels (.within typesSpace "Override") (.bare "PartName")
        (Forest.rooted part) (.bare "ContentType") =
      ((entry.typeFor? part).map some).or (Label.reading e.labels (.within typesSpace "Override")
        (.bare "PartName") (Forest.rooted part) (.bare "ContentType")) := by
  cases entry with
  | relation key kind target =>
    rw [into,labels_relate]
    exact Label.reading_put_other (by simp [Name.within]) _
  | default extension type =>
    rw [into,labels_ensureDefault]
    split
    · rfl
    · exact Label.reading_append (by simp [name,Name.within]) _ _
  | override part' type =>
    rw [into,labels_ensureOverride]
    refine (Label.reading_put (x := type) ?_ ?_ ?_ ?_ _).trans ?_
    · simp [Attributes.get?_set,Name.bare]
    · simp [Attributes.get?_set]
    · simp [attributes,Attributes.get?_cons]
    · simp [attributes,Attributes.get?_cons,Name.bare]
    · by_cases same : Forest.rooted part' = Forest.rooted part
      · simp [typeFor?,same]
      · simp [typeFor?,same,Ne.symm same]

/-- A key has the target that it was given by the last entry for it. -/
theorem reading_target (entry : Entry) (key : String) :
    Label.reading (entry.into e).labels (.within relationshipsSpace "Relationship") (.bare "Id")
        key (.bare "Target") =
      ((entry.targetFor? key).map some).or (Label.reading e.labels
        (.within relationshipsSpace "Relationship") (.bare "Id") key (.bare "Target")) := by
  cases entry with
  | relation key' kind target =>
    rw [into,labels_relate]
    refine (Label.reading_put (x := target) ?_ ?_ ?_ ?_ _).trans ?_
    · simp [Attributes.get?_set,Name.bare]
    · simp [Attributes.get?_set]
    · simp [attributes,Forest.link,Attributes.get?_cons]
    · simp [attributes,Forest.link,Attributes.get?_cons,Name.bare]
    · by_cases same : key' = key
      · simp [targetFor?,same]
      · simp [targetFor?,same,Ne.symm same]
  | default extension type =>
    rw [into,labels_ensureDefault]
    split
    · rfl
    · exact Label.reading_append (by simp [name,Name.within]) _ _
  | override part type =>
    rw [into,labels_ensureOverride]
    exact Label.reading_put_other (by simp [Name.within]) _

/-- An extension is declared once. -/
theorem entries_default (entry : Entry) :
    (entry.into e).entries (.within typesSpace "Default") =
      (entry.declared?).toList.foldl declare (e.entries (.within typesSpace "Default")) := by
  cases entry with
  | default extension type =>
    have same : e.hasDefault extension =
        (e.entries (.within typesSpace "Default")).any
          (extensionOf · == extensionOf (default extension type).attributes) := by
      simp [Element.hasDefault,extensionOf,attributes,Attributes.get?_cons]
    rw [into,Element.ensureDefault,same,declared?,Option.toList_some,List.foldl_cons,List.foldl_nil,
      declare]
    split
    · rfl
    · rw [Element.entries_addEntry,name,if_pos rfl]
  | relation key kind target =>
    rw [← Label.filterMap_ofName?,into,labels_relate]
    exact (Label.filterMap_put_other (by simp [Name.within])).trans (Label.filterMap_ofName? e _)
  | override part type =>
    rw [← Label.filterMap_ofName?,into,labels_ensureOverride]
    exact (Label.filterMap_put_other (by simp [Name.within])).trans (Label.filterMap_ofName? e _)

/-- An entry does not make a key occur twice. -/
theorem count_ids (entry : Entry) (key : Option String) :
    ((entry.into e).labels.filterMap Label.id?).count key ≤
      max 1 ((e.labels.filterMap Label.id?).count key) := by
  cases entry with
  | relation key' kind target =>
    rw [into,labels_relate,Label.filterMap_put]
    · split
      · rw [List.append_nil]
        exact Nat.le_max_right _ _
      · next absent =>
        have new : Label.id? (relation key' kind target).label = some (some key') := by
          simp [Label.id?,label,name,attributes,Forest.link,Attributes.get?_cons]
        rw [List.count_append,new,Option.toList_some,List.count_singleton]
        by_cases same : key = some key'
        · subst same
          have zero : (e.labels.filterMap Label.id?).count (some key') = 0 := by
            refine List.count_eq_zero.mpr fun member => ?_
            obtain ⟨l,listed,is⟩ := List.mem_filterMap.mp member
            refine absent (List.any_eq_true.mpr ⟨l,listed,Label.keyed_iff.mpr ?_⟩)
            rw [Label.id?] at is
            split at is
            · next named => exact ⟨named,Option.some.inj is⟩
            · cases is
          simp [zero]
        · rw [if_neg (by simpa using Ne.symm same),Nat.add_zero]
          exact Nat.le_max_right _ _
    · intro l passed
      obtain ⟨is,-⟩ := Label.keyed_iff.mp passed
      simp [Label.id?,is,Attributes.get?_set,Name.bare]
  | default extension type =>
    have other : Label.id? (default extension type).label = none := by
      simp [Label.id?,label,name,Name.within]
    rw [into,labels_ensureDefault]
    split
    · exact Nat.le_max_right _ _
    · rw [List.filterMap_append,List.filterMap_cons_none other,List.filterMap_nil,List.append_nil]
      exact Nat.le_max_right _ _
  | override part type =>
    have other : Label.id? (override part type).label = none := by
      simp [Label.id?,label,name,Name.within]
    rw [into,labels_ensureOverride,Label.filterMap_put,other,Option.toList_none,ite_self,
      List.append_nil]
    · exact Nat.le_max_right _ _
    · intro l passed
      obtain ⟨is,-⟩ := Label.keyed_iff.mp passed
      simp [Label.id?,is,Name.within]

/-- The attributes that requests may write. -/
def written : List Name :=
  [.bare "ContentType",.bare "Type",.bare "Target"]

/-- All other attributes. -/
def fixed (attributes : Attributes) : Attributes :=
  attributes.filter (·.1 ∉ written)

private theorem fixed_set (attributes : Attributes) {name : Name} (value : String)
    (member : name ∈ written) : fixed (attributes.set name value) = fixed attributes := by
  unfold Attributes.set fixed
  split
  · have same : ((fun a : Name × String => decide (a.1 ∉ written)) ∘ fun a =>
        if (a.1 == name) = true then (name,value) else a) = fun a => decide (a.1 ∉ written) := by
      funext a
      by_cases here : a.1 = name <;> simp [here]
    rw [List.filter_map,same]
    refine (List.map_congr_left fun a listed => ?_).trans (List.map_id _)
    have other : a.1 ≠ name := fun is => of_decide_eq_true (List.mem_filter.mp listed).2 (is ▸ member)
    simp [other]
  · simp [List.filter_append,member]

/-- A request may write into what has the label. -/
def meets : Entry → Label → Bool
  | relation key .. => Label.keyed (.within relationshipsSpace "Relationship") (.bare "Id") key
  | override part _ =>
    Label.keyed (.within typesSpace "Override") (.bare "PartName") (Forest.rooted part)
  | default .. => fun _ => false

/-- What requests for some entries leave alone in a label: all of it unless one of them may write
into it, and then all but the type and the target. -/
def spared (entries : List Entry) (l : Label) : Label :=
  if entries.any (·.meets l) then
    (l.1,fixed l.2)
  else l

/-- No request loses, moves or changes what it is to leave alone. -/
theorem spared_into {entries : List Entry} {entry : Entry} (member : entry ∈ entries) :
    e.labels.map (spared entries) <+: (entry.into e).labels.map (spared entries) := by
  have kept {name field : Name} {key : String} {change : Attributes → Attributes} {new : Label}
      (meets_eq : entry.meets = Label.keyed name field key)
      (keeps : ∀ a, (change a).get? field = a.get? field)
      (rest : ∀ a, fixed (change a) = fixed a) :
      e.labels.map (spared entries) <+:
        (Label.put (Label.keyed name field key) change new e.labels).map (spared entries) := by
    rw [← List.filterMap_eq_map,Label.filterMap_put]
    · exact List.prefix_append _ _
    · intro l passed
      have met : entries.any (·.meets l) = true :=
        List.any_eq_true.mpr ⟨entry,member,by rw [meets_eq,passed]⟩
      have met' : entries.any (·.meets (l.1,change l.2)) = true := by
        refine List.any_eq_true.mpr ⟨entry,member,?_⟩
        rw [Label.keyed_iff] at passed
        rw [meets_eq,Label.keyed_iff]
        exact ⟨passed.1,(keeps l.2).trans passed.2⟩
      simp only [Function.comp_apply,spared,met,met',if_true,rest]
  cases entry with
  | relation key kind target =>
    rw [into,labels_relate]
    refine kept rfl (by simp [Attributes.get?_set,Name.bare]) fun a => ?_
    rw [fixed_set _ _ (by simp [written]),fixed_set _ _ (by simp [written])]
  | default extension type =>
    rw [into,labels_ensureDefault]
    split
    · exact List.prefix_rfl
    · rw [List.map_append]
      exact List.prefix_append _ _
  | override part type =>
    rw [into,labels_ensureOverride]
    exact kept rfl (by simp [Attributes.get?_set,Name.bare]) fun a => fixed_set a _ (by simp [written])

end

/-- What becomes of a manifest that is asked for some entries in turn. -/
def intoAll (entries : List Entry) (e : Element) : Element :=
  entries.foldl (fun e entry => entry.into e) e

/-- What was given last is read, or else what was there before. -/
private theorem read_intoAll (read : Element → Option (Option String)) {gives : Entry → Option String}
    (each : ∀ entry e, read (entry.into e) = ((gives entry).map some).or (read e))
    (entries : List Entry) (e : Element) :
    read (intoAll entries e) = ((entries.filterMap gives).getLast?.map some).or (read e) := by
  induction entries generalizing e with
  | nil => rfl
  | cons entry entries ih =>
    have later := ih (entry.into e)
    rw [each] at later
    rw [intoAll,List.foldl_cons]
    refine later.trans ?_
    rw [List.filterMap_cons]
    cases gives entry with
    | none => rfl
    | some given =>
      rw [List.getLast?_cons]
      cases (entries.filterMap gives).getLast? <;> rfl

section
variable (entries : List Entry) (e : Element)

theorem reading_types (part : String) :
    Label.reading (intoAll entries e).labels (.within typesSpace "Override") (.bare "PartName")
        (Forest.rooted part) (.bare "ContentType") =
      ((entries.filterMap (typeFor? part)).getLast?.map some).or
        (Label.reading e.labels (.within typesSpace "Override") (.bare "PartName")
          (Forest.rooted part) (.bare "ContentType")) :=
  read_intoAll (fun e => Label.reading e.labels _ _ _ _)
    (fun entry e => reading_type e entry part) entries e

theorem reading_targets (key : String) :
    Label.reading (intoAll entries e).labels (.within relationshipsSpace "Relationship")
        (.bare "Id") key (.bare "Target") =
      ((entries.filterMap (targetFor? key)).getLast?.map some).or
        (Label.reading e.labels (.within relationshipsSpace "Relationship") (.bare "Id") key
          (.bare "Target")) :=
  read_intoAll (fun e => Label.reading e.labels _ _ _ _)
    (fun entry e => reading_target e entry key) entries e

theorem entries_defaults : (intoAll entries e).entries (.within typesSpace "Default") =
    (entries.filterMap declared?).foldl declare (e.entries (.within typesSpace "Default")) := by
  induction entries generalizing e with
  | nil => rfl
  | cons entry entries ih =>
    refine (ih (entry.into e)).trans ?_
    rw [entries_default,List.filterMap_cons]
    cases entry.declared? <;> rfl

theorem count_intoAll (key : Option String) :
    ((intoAll entries e).labels.filterMap Label.id?).count key ≤
      max 1 ((e.labels.filterMap Label.id?).count key) := by
  induction entries generalizing e with
  | nil => exact Nat.le_max_right _ _
  | cons entry entries ih =>
    have first := count_ids e entry key
    have later := ih (entry.into e)
    exact later.trans (Nat.max_le.mpr ⟨Nat.le_max_left _ _,first⟩)

theorem spared_intoAll {asked : List Entry} (all : ∀ entry ∈ entries, entry ∈ asked) :
    e.labels.map (spared asked) <+: (intoAll entries e).labels.map (spared asked) := by
  induction entries generalizing e with
  | nil => exact List.prefix_rfl
  | cons entry entries ih =>
    exact (spared_into e (all entry List.mem_cons_self)).trans
      (ih (entry.into e) fun other member => all other (List.mem_cons_of_mem entry member))

end

/-- Entries are added in order, each for an extension that has none before it. -/
theorem foldl_declare (new old : List Attributes) : ∃ added,
    new.foldl declare old = old ++ added ∧ added.Sublist new ∧
      ∀ before a after, added = before ++ a :: after → ∀ b ∈ old ++ before,
        extensionOf b ≠ extensionOf a := by
  induction new generalizing old with
  | nil => exact ⟨[],by simp,.slnil,by simp⟩
  | cons a new ih =>
    rw [List.foldl_cons,declare]
    split
    · obtain ⟨added,is,sub,fresh⟩ := ih old
      exact ⟨added,is,sub.cons a,fresh⟩
    · next absent =>
      obtain ⟨added,is,sub,fresh⟩ := ih (old ++ [a])
      refine ⟨a :: added,by simp [is],sub.cons_cons a,?_⟩
      intro before c after split b member
      cases before with
      | nil =>
        obtain ⟨rfl,-⟩ := List.cons.inj split
        rw [List.append_nil] at member
        intro same
        exact absent (List.any_eq_true.mpr ⟨b,member,by simp [same]⟩)
      | cons d before =>
        obtain ⟨rfl,rest⟩ := List.cons.inj split
        exact fresh before c after rest b (by simpa using member)

/-- The first entry for an extension is found as if all had been added. -/
theorem find?_declare (new old : List Attributes) (extension : String) :
    (new.foldl declare old).find? (extensionOf · == extension) =
      (old ++ new).find? (extensionOf · == extension) := by
  induction new generalizing old with
  | nil => simp
  | cons a new ih =>
    rw [List.foldl_cons,ih,declare]
    split
    · next present =>
      obtain ⟨b,member,same⟩ := List.any_eq_true.mp present
      rw [List.find?_append,List.find?_append,List.find?_cons]
      cases here : extensionOf a == extension with
      | false => rfl
      | true =>
        have found : (old.find? (extensionOf · == extension)).isSome = true :=
          List.find?_isSome.mpr ⟨b,member,by rwa [beq_iff_eq.mp same]⟩
        obtain ⟨c,is⟩ := Option.isSome_iff_exists.mp found
        rw [is,Option.some_or,Option.some_or]
    · rw [List.append_assoc,List.singleton_append]

end Entry

namespace Forest
open Entry

/-- The extension of a part, in small letters. -/
def extension (part : String) : String :=
  Text.lower (String.ofList ((Path.ending (rooted part)).toList.dropWhile (· == '.')))

/-- The labels of a tree, in document order. -/
def labels (f : Forest) (root : NodeId) : List Label :=
  (f.tree root).map fun id => (f.name id,(f.node id).attributes)

section
variable {α : Type} {f : Forest} {owner : NodeId → α} {level : NodeId → Nat}
  (sorted : f.Sorted owner level) (root : NodeId)
include sorted

theorem labels_element : (f.element root).labels = f.labels root := by
  rw [Element.labels,← map_element_tree sorted root,List.map_map,labels]
  refine List.map_congr_left fun id _ => ?_
  rw [Function.comp_apply,element_eq sorted id]
  rfl

theorem reading_labels (name field : Name) (key : String) (value : Name) :
    Label.reading (f.element root).labels name field key value =
      ((f.named root name).find? fun id => f.attribute? id field == some key).map
        fun id => f.attribute? id value := by
  rw [labels_element sorted,Label.reading,labels,List.find?_map,Option.map_map,named,
    List.find?_filter]
  simp only [Bool.decide_and,Bool.decide_eq_true]
  rfl

theorem contentType?_eq (part : String) : f.contentType? root part =
    match Label.reading (f.element root).labels (.within typesSpace "Override") (.bare "PartName")
      (rooted part) (.bare "ContentType") with
    | some type => type
    | none => (((f.element root).entries (.within typesSpace "Default")).find?
        (extensionOf · == extension part)).bind (·.get? (.bare "ContentType")) := by
  rw [reading_labels sorted,← entries_eq sorted,contentType?,override?,typeOverrides]
  cases (f.named root (.within typesSpace "Override")).find?
      fun id => f.attribute? id (.bare "PartName") == some (rooted part) with
  | some id => rfl
  | none =>
    rw [Option.map_none,entries,List.find?_map,Option.bind_map]
    rfl

theorem relationTarget?_eq (key : String) : f.relationTarget? root key =
    (Label.reading (f.element root).labels (.within relationshipsSpace "Relationship") (.bare "Id")
      key (.bare "Target")).join := by
  rw [reading_labels sorted,relationTarget?,relationship?,relationships]
  cases (f.named root (.within relationshipsSpace "Relationship")).find?
    fun id => f.attribute? id (.bare "Id") == some key <;> rfl

theorem relationshipIds_labels :
    f.relationshipIds root = (f.element root).labels.filterMap Label.id? := by
  rw [relationshipIds_eq,links,entries_eq sorted,← Label.filterMap_ofName?,List.map_filterMap]
  refine List.filterMap_congr fun l _ => ?_
  rw [Label.ofName?,Label.id?]
  split <;> rfl

end

end Forest

namespace Entry

section
variable {α : Type} {p : Package} {owner : NodeId → α} {level : NodeId → Nat} {root : NodeId}
  (sorted : p.forest.Sorted owner level) (inside : root < p.forest.nodes.size)
  (nodup : (p.forest.tree root).Nodup)
include sorted inside nodup

theorem request_run (entry : Entry) : ∃ q owner' level', entry.request root p = .ok ⟨⟩ q ∧
    Forest.Reshaped p.forest owner root (entry.into (p.forest.element root)) q.forest owner'
      level' := by
  cases entry with
  | relation key kind target =>
    obtain ⟨owner',level',reshaped⟩ := Forest.reshaped_relate sorted inside nodup key kind target
    exact ⟨_,owner',level',rfl,reshaped⟩
  | override part type =>
    obtain ⟨owner',level',reshaped⟩ := Forest.reshaped_ensureOverride sorted inside nodup part type
    exact ⟨_,owner',level',rfl,reshaped⟩
  | default extension type =>
    have same : p.forest.hasDefault root extension =
        (p.forest.element root).hasDefault extension := by
      rw [Forest.hasDefault_eq,Forest.entries_eq sorted]
      rfl
    rw [into,Element.ensureDefault,← same]
    cases known : p.forest.hasDefault root extension with
    | true =>
      refine ⟨p,owner,level,?_,sorted,Nat.le_refl _,fun _ _ => rfl,fun _ _ _ => rfl,nodup,rfl⟩
      simp only [request,Packaging.ensureDefault,bind_assoc,run_get_bind,known,if_true,pure_bind]
      rfl
    | false =>
      obtain ⟨journal,ran⟩ : ∃ journal, request root (default extension type) p = .ok ⟨⟩ { p with
          forest := p.forest.addEntry root (default extension type).name
            (default extension type).attributes
          journal := journal } := by
        simp only [request,Packaging.ensureDefault,bind_assoc,run_get_bind,known,Bool.false_eq_true,
          if_false]
        exact ⟨_,rfl⟩
      exact ⟨_,_,_,ran,Forest.reshaped_addEntry sorted inside nodup (default extension type)⟩

theorem requests_run (entries : List Entry) : ∃ q : Package, ∃ (owner' : NodeId → α) (level' : NodeId → Nat),
    entries.forM (request root) p = .ok ⟨⟩ q ∧ q.forest.Sorted owner' level' ∧
      q.forest.element root = intoAll entries (p.forest.element root) := by
  induction entries generalizing p owner level with
  | nil => exact ⟨p,owner,level,rfl,sorted,rfl⟩
  | cons entry entries ih =>
    obtain ⟨q,owner',level',ran,reshaped⟩ := request_run sorted inside nodup entry
    obtain ⟨r,owner'',level'',ran',sorted',element⟩ := ih reshaped.sorted
      (Nat.lt_of_lt_of_le inside reshaped.size_le) reshaped.nodup
    refine ⟨r,owner'',level'',?_,sorted',by rw [element,reshaped.element]; rfl⟩
    change (request root entry >>= fun _ => entries.forM (request root)) p = .ok ⟨⟩ r
    simp only [bind,EStateM.bind,ran,ran']

/-- A manifest that is asked for some entries is a map of what was asked for. A part has the type it
was last given, or else the one of the first entry for it, or else that of the first entry for its
extension; a type for an extension is added only if there is none before. A key has the target it
was last given, or else the one it had, and occurs once at most if it did so. All elements stay in
their order, and what is not asked for stays as it is. -/
theorem requests_read (entries : List Entry) : ∃ q : Package,
    entries.forM (request root) p = .ok ⟨⟩ q ∧
    (∀ part, q.forest.contentType? root part =
      match (entries.filterMap (typeFor? part)).getLast?, p.forest.override? root part with
      | some type, _ => some type
      | none, some id => p.forest.attribute? id (.bare "ContentType")
      | none, none => ((p.forest.entries root (.within typesSpace "Default") ++
          entries.filterMap declared?).find? (extensionOf · == Forest.extension part)).bind
            (·.get? (.bare "ContentType"))) ∧
    (∃ added, q.forest.entries root (.within typesSpace "Default") =
        p.forest.entries root (.within typesSpace "Default") ++ added ∧
      added.Sublist (entries.filterMap declared?) ∧ ∀ before a after, added = before ++ a :: after →
        ∀ b ∈ p.forest.entries root (.within typesSpace "Default") ++ before,
          extensionOf b ≠ extensionOf a) ∧
    (∀ key, q.forest.relationTarget? root key =
      (entries.filterMap (targetFor? key)).getLast?.or (p.forest.relationTarget? root key)) ∧
    (∀ key, (p.forest.relationshipIds root).count key ≤ 1 →
      (q.forest.relationshipIds root).count key ≤ 1) ∧
    (p.forest.labels root).map (spared entries) <+: (q.forest.labels root).map (spared entries) := by
  obtain ⟨q,owner',level',ran,sorted',element⟩ := requests_run sorted inside nodup entries
  have declared := entries_defaults entries (p.forest.element root)
  rw [← element,← Forest.entries_eq sorted',← Forest.entries_eq sorted] at declared
  refine ⟨q,ran,?_,?_,?_,?_,?_⟩
  · intro part
    rw [Forest.contentType?_eq sorted',← Forest.entries_eq sorted',declared,find?_declare,element,
      reading_types,Forest.reading_labels sorted]
    cases (entries.filterMap (typeFor? part)).getLast? with
    | some type => rfl
    | none =>
      rw [Option.map_none,Option.none_or,Forest.override?,Forest.typeOverrides]
      generalize List.find? _ (p.forest.named root _) = found
      cases found <;> rfl
  · rw [declared]
    exact foldl_declare _ _
  · intro key
    rw [Forest.relationTarget?_eq sorted',element,reading_targets,Forest.relationTarget?_eq sorted]
    cases (entries.filterMap (targetFor? key)).getLast? <;> rfl
  · intro key once
    rw [Forest.relationshipIds_labels sorted] at once
    rw [Forest.relationshipIds_labels sorted',element]
    exact (count_intoAll entries _ key).trans (Nat.max_le.mpr ⟨Nat.le_refl 1,once⟩)
  · rw [← Forest.labels_element sorted,← Forest.labels_element sorted',element]
    exact spared_intoAll entries _ fun _ member => member

end

/-- A manifest that says two things of one part and of one key. -/
private def double : Element :=
  [.default "PNG" "a/a",.override "/x.xml" "a/b",.override "/x.xml" "a/c",.relation "r1" "k" "t",
    .relation "r1" "k" "u"].foldl Element.addEntry (.node (.within typesSpace "Types") [] [])

private def doubled : Package where
  forest := (({} : Forest).plant double).2

/-- Requests that it meets with changes, with a new entry, or not at all. -/
private def wanted : List Entry :=
  [.default "png" "a/d",.override "//x.xml" "a/e",.override "x.xml" "a/f",.default "gif" "a/g",
    .relation "r1" "k" "v",.relation "r2" "k" "w"]

theorem requests_read_doubled : (∃ (owner level : NodeId → Nat), doubled.forest.Sorted owner level) ∧
    5 < doubled.forest.nodes.size ∧ (doubled.forest.tree 5).Nodup ∧ ∃ q : Package,
      wanted.forM (request 5) doubled = .ok ⟨⟩ q ∧ q.forest.contentType? 5 "x.xml" = some "a/f" ∧
        q.forest.contentType? 5 "y.Png" = some "a/a" ∧ q.forest.contentType? 5 "y.gif" = some "a/g" ∧
          q.forest.relationTarget? 5 "r1" = some "v" ∧ q.forest.relationTarget? 5 "r2" = some "w" := by
  have empty : ({} : Forest).Sorted (fun _ => 0) (fun _ => 0) := ⟨nofun,nofun⟩
  have sorted := empty.grow (Forest.grown_plant {} double).1 0
  have inside : 5 < doubled.forest.nodes.size := by decide +kernel
  have nodup : (doubled.forest.tree 5).Nodup := by decide +kernel
  obtain ⟨q,ran,types,-,targets,-⟩ := requests_read (p := doubled) sorted inside nodup wanted
  refine ⟨⟨_,_,sorted⟩,inside,nodup,q,ran,?_,?_,?_,?_,?_⟩
  · exact (types "x.xml").trans (by decide +kernel)
  · exact (types "y.Png").trans (by decide +kernel)
  · exact (types "y.gif").trans (by decide +kernel)
  · exact (targets "r1").trans (by decide +kernel)
  · exact (targets "r2").trans (by decide +kernel)

end Entry
end MailMerge
