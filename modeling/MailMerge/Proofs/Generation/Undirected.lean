import MailMerge.Proofs.Generation.Delivered
import MailMerge.Proofs.Generation.Embed
import MailMerge.Proofs.Generation.Fates
import MailMerge.Proofs.Package.Sketched
import MailMerge.Proofs.Text.Search
import MailMerge.Proofs.Tree.Written

/-! Documents without directives. Every directive begins with an opening brace, so a document in which
no paragraph has one comes out of every pass as it went in: no page break is put in, no paragraph is
written, and no table is bound, however tables are nested and whatever the data is.
-/
namespace MailMerge
open Xml Docx Package Forest Relation Generation

namespace Directive
open Text

variable {α : Type} {text : List Char}

/-- Where nothing begins, nothing is found. -/
theorem first?_eq_none {r : Recognizer α} {c : Char}
    (opens : ∀ found text, r text = some found → text.head? = some c) (absent : c ∉ text) :
    first? r text = none := by
  have search (start : Nat) : firstFrom r start text = none := by
    induction text generalizing start with
    | nil => rfl
    | cons d rest ih =>
      rw [List.mem_cons,not_or] at absent
      have none : r (d :: rest) = none := by
        cases read : r (d :: rest) with
        | none => rfl
        | some found => exact absurd (Option.some.inj (opens found _ read)).symm absent.1
      simp only [firstFrom,none]
      exact ih absent.2 (start + 1)
  exact search 0

theorem head?_of_after? {piece rest : List Char} {c : Char}
    (found : after? (c :: piece) text = some rest) : text.head? = some c := by
  cases text with
  | nil => simp [after?] at found
  | cons d text =>
    by_cases same : c = d
    · rw [same,List.head?_cons]
    · simp [after?,same] at found

theorem first?_bind_of_plain (plain : '\x7b' ∉ text) : first? bind? text = none := by
  refine first?_eq_none (c := '\x7b') (fun found text read => ?_) plain
  obtain ⟨rest,begins,_⟩ := Option.bind_eq_some_iff.mp read
  exact head?_of_after? begins

theorem isPageBreak_of_plain (plain : '\x7b' ∉ text) : isPageBreak text = false := by
  rw [isPageBreak,beq_eq_false_iff_ne]
  intro same
  have inside : '\x7b' ∈ trim text := same ▸ (by decide : '\x7b' ∈ pageBreak)
  exact plain (trim_subset text inside)

end Directive

/-- No paragraph below an element has a brace in its text. -/
def Forest.Plain (f : Forest) (root : NodeId) : Prop :=
  ∀ p ∈ f.named root paragraphName, '\x7b' ∉ f.paragraphText p

instance (f : Forest) (root : NodeId) : Decidable (f.Plain root) :=
  inferInstanceAs (Decidable (∀ p ∈ f.named root paragraphName, _))

/-- No paragraph in an element has a brace in its text. -/
def Xml.Element.Plain (e : Element) : Prop :=
  (({} : Forest).plant e).2.Plain (({} : Forest).plant e).1

instance (e : Element) : Decidable e.Plain :=
  inferInstanceAs (Decidable (Forest.Plain _ _))

/-- Two packages have the same trees and parts with the same names. -/
structure Package.SameTrees (p q : Package) : Prop where
  forest_eq : q.forest = p.forest
  trees_eq : q.trees = p.trees
  names_eq : q.names = p.names
  order_eq : q.order = p.order

theorem Package.SameTrees.flush {p : Package}
    (held : ∀ name t, p.trees.lookup name = some t → p.hasPart name = true) : p.SameTrees p.flush :=
  ⟨rfl,rfl,names_flush held,rfl⟩

variable {setup : Setup} {s : Session} {id root : NodeId} {α : Type} {owner : NodeId → α}
  {level : NodeId → Nat}

theorem Forest.Plain.of_below {f : Forest} (sorted : f.Sorted owner level) (plain : f.Plain root)
    {p : NodeId} (path : f.Below root p) (kind : f.name p = paragraphName) :
    '\x7b' ∉ f.paragraphText p :=
  plain p ((mem_named_iff sorted).mpr ⟨path,kind⟩)

theorem Forest.Plain.below {f : Forest} (sorted : f.Sorted owner level) (plain : f.Plain root)
    (path : f.Below root id) : f.Plain id := by
  intro p member
  obtain ⟨path',kind⟩ := (mem_named_iff sorted).mp member
  exact plain.of_below sorted (path.trans path') kind

/-- A loop whose body changes nothing changes nothing. -/
private theorem loop_eq {β : Type} {items : List β} {body : β → PUnit → Generation (ForInStep PUnit)}
    (each : ∀ b ∈ items, body b ⟨⟩ setup s = .ok (.yield ⟨⟩) s) :
    (forIn items ⟨⟩ body >>= fun _ => pure ()) setup s = .ok () s := by
  have ran : forIn items ⟨⟩ body setup s = .ok ⟨⟩ s := by
    induction items with
    | nil => rfl
    | cons b items ih =>
      rw [List.forIn_cons,bind_ok (each b List.mem_cons_self)]
      exact ih fun b' member => each b' (List.mem_cons_of_mem b member)
  exact bind_ok ran

namespace Fill

theorem paragraph_of_plain (plain : '\x7b' ∉ s.package.forest.paragraphText id) :
    paragraph id setup s = .ok .unchanged s := by
  have attached : isAttached id setup s = .ok (s.index.isAttached id) s := rfl
  rw [paragraph,bind_ok attached]
  cases s.index.isAttached id with
  | false => rfl
  | true =>
    have absent : (s.package.forest.joinedText (s.package.forest.textElements id)).contains '\x7b' =
        false := by
      simpa [Forest.paragraphText] using plain
    refine (bind_ok (forest_apply setup s)).trans ?_
    simp only [absent]
    rfl

theorem paragraphs_of_plain {ids : List NodeId}
    (plain : ∀ id ∈ ids, '\x7b' ∉ s.package.forest.paragraphText id) :
    paragraphs ids setup s = .ok () s :=
  loop_eq fun id member => bind_ok (paragraph_of_plain (plain id member))

theorem pageBreaks_of_plain (plain : s.package.forest.Plain id) :
    pageBreaks id setup s = .ok () s := by
  refine (bind_ok (forest_apply setup s)).trans (loop_eq fun p member => ?_)
  refine (bind_ok (forest_apply setup s)).trans ?_
  simp only [Directive.isPageBreak_of_plain (plain p member)]
  rfl

section
variable (sorted : s.package.forest.Sorted owner level) (plain : s.package.forest.Plain id)
include sorted plain

theorem plain_outside {boundary : Name} :
    ∀ p ∈ s.package.forest.outside id paragraphName boundary,
      '\x7b' ∉ s.package.forest.paragraphText p := by
  intro p member
  obtain ⟨kind,clear⟩ := (mem_outside_iff sorted).mp member
  exact plain.of_below sorted clear.path kind

theorem bind_of_plain (indexed : Bool) : Table.bind id indexed setup s = .ok none s := by
  refine (bind_ok (forest_apply setup s)).trans ?_
  cases rows_eq : Table.rows s.package.forest id with
  | nil => rfl
  | cons header rest =>
    have listed : header ∈ Table.rows s.package.forest id := rows_eq ▸ List.mem_cons_self
    have here : s.package.forest.Child id header := (List.mem_filter.mp listed).1
    have text : '\x7b' ∉ Table.firstCellText s.package.forest header := by
      unfold Table.firstCellText
      split
      · next cell found =>
        intro inside
        obtain ⟨p,member,inside⟩ := List.mem_flatMap.mp inside
        obtain ⟨path,kind⟩ := (mem_named_iff sorted).mp member
        have below : s.package.forest.Child header cell := List.mem_of_find?_eq_some found
        exact plain.of_below sorted ((path.head below).head here) kind inside
      · simp
    simp only [Directive.first?_bind_of_plain text]
    rfl

theorem table_of_plain : table id setup s = .ok () s := by
  have rows : tableRows id setup s = .ok () s := (bind_ok (bind_of_plain sorted plain true)).trans rfl
  refine (bind_ok rows).trans ((bind_ok (forest_apply setup s)).trans ?_)
  exact paragraphs_of_plain (plain_outside sorted plain)

theorem body_of_plain : body id setup s = .ok () s := by
  refine (bind_ok (forest_apply setup s)).trans
    ((bind_ok (paragraphs_of_plain (plain_outside sorted plain))).trans (loop_eq fun t member => ?_))
  have path := ((mem_named_iff sorted).mp member).1
  have attached : isAttached t setup s = .ok (s.index.isAttached t) s := rfl
  refine (bind_ok attached).trans ?_
  cases s.index.isAttached t with
  | false => rfl
  | true => exact bind_ok (table_of_plain sorted (plain.below sorted path))

/-- Filling the tree of the document leaves all trees and the outcomes as they are. -/
theorem bodyPass_of_plain
    (held : ∀ name t, s.package.trees.lookup name = some t → s.package.hasPart name = true) :
    ∃ s', bodyPass id setup s = .ok () s' ∧ s'.outcomes = s.outcomes ∧
      s.package.SameTrees s'.package := by
  let start : Session := { s with part := documentPart, index := .of s.package.forest id }
  have prepared : prepare id setup s = .ok () start :=
    pageBreaks_of_plain (s := start) plain
  cases found : s.package.forest.childNamed? id bodyName with
  | none =>
    let warned := start.package.log .warning "Document has no w:body; nothing to fill"
    refine ⟨{ start with package := warned },?_,rfl,rfl,rfl,rfl,rfl⟩
    refine (bind_ok prepared).trans ((bind_ok (forest_apply setup start)).trans ?_)
    simp only [start,found]
    rfl
  | some top =>
    have below : s.package.forest.Child id top := List.mem_of_find?_eq_some found
    have filled : body top setup start = .ok () start :=
      body_of_plain (s := start) sorted (plain.below sorted (ReflTransGen.single below))
    refine ⟨{ start with package := start.package.flush },?_,rfl,.flush held⟩
    refine (bind_ok prepared).trans ((bind_ok (forest_apply setup start)).trans ?_)
    simp only [start,found]
    exact (bind_ok filled).trans rfl

end
end Fill

/-- Beside the parts of another package there is at most a manifest of content types. -/
structure Package.Supplied (p q : Package) : Prop where
  names : q.names = p.names ++ if p.hasPart typesPart then [] else [typesPart]
  order : q.order = p.order

theorem Package.Supplied.of_held {p q : Package} (held : p.hasPart typesPart = true)
    (names : q.names = p.names) (order : q.order = p.order) : p.Supplied q :=
  ⟨by simp [held,names],order⟩

/-- A part cannot be read, which ends the work with a fault. -/
def Package.Misreads (p : Package) (name : String) (fault : Fault) : Prop :=
  ∃ data problem, p.part? name = some data ∧ (readBytes data).root = .error problem ∧
    fault = .breakdown (Packaging.misread problem)

namespace Packaging

/-- Entering a default changes at most elements and the journal. -/
private theorem ensureDefault_run (root : NodeId) (extension type : String) (p : Package) :
    ∃ b f journal, ensureDefault root extension type p =
      .ok b { p with forest := f, journal := journal } := by
  unfold ensureDefault
  rw [run_get_bind]
  split
  · exact ⟨false,p.forest,p.journal,rfl⟩
  · exact ⟨true,_,_,rfl⟩

private theorem ensureOverride_run (root : NodeId) (part type : String) (p : Package) :
    ∃ b f, ensureOverride root part type p = .ok b { p with forest := f } :=
  ⟨_,_,rfl⟩

private theorem run_bind_ok {β : Type} {step : Packaging α} {next : α → Packaging β} {p q : Package}
    {a : α} (ran : step p = .ok a q) : (step >>= next) p = next a q := by
  simp only [bind,EStateM.bind,ran]

/-- The manifest of content types is read and from then on in use. -/
private def useTypes : Packaging NodeId := do
  match ← root? typesPart with
  | some root =>
    modify fun p => { p with types := some root }
    return root
  | none => throw (.breakdown .operation)

/-- A manifest of content types that was just made gets its first entries and is in use. -/
private def useNewTypes : Packaging NodeId := do
  if let some root ← root? typesPart then
    let _ ← ensureDefault root "rels" relationshipsType
    let _ ← ensureDefault root "xml" "application/xml"
    let _ ← ensureOverride root documentPart documentType
  useTypes

private theorem useTypes_of_known {p : Package} {t : PartTree}
    (known : p.trees.lookup typesPart = some t) :
    useTypes p = .ok t.root { p.touch typesPart with types := some t.root } := by
  have ran : root? typesPart p = .ok (some t.root) (p.touch typesPart) := by
    rw [root?_run,known]
  simp only [useTypes,bind,EStateM.bind,ran]
  rfl

/-- A manifest of content types that is there is used, unless it cannot be read. -/
private theorem useTypes_cases {p : Package} (held : p.hasPart typesPart = true) :
    (∃ root q, useTypes p = .ok root q ∧ p.Supplied q) ∨
    ∃ fault q, useTypes p = .error fault q ∧ p.Misreads typesPart fault ∧ p.Supplied q ∧
      q.forest = p.forest ∧ q.trees = p.trees := by
  cases known : p.trees.lookup typesPart with
  | some t => exact Or.inl ⟨_,_,useTypes_of_known known,.of_held held rfl rfl⟩
  | none =>
    obtain ⟨data,content⟩ := hasPart_iff.mp held
    obtain ⟨journal,same⟩ := p.registerAll_eq (readBytes data).declared
    cases reading : (readBytes data).root with
    | error problem =>
      have ran : useTypes p = .error (.breakdown (misread problem))
          (p.registerAll (readBytes data).declared) := by
        simp only [useTypes,bind,EStateM.bind,root?_of_misread known content reading]
      refine Or.inr ⟨_,_,ran,⟨data,problem,content,reading,rfl⟩,?_⟩
      rw [same]
      exact ⟨.of_held held rfl rfl,rfl,rfl⟩
    | ok e =>
      refine Or.inl ⟨_,_,(run_bind_ok (root?_of_read known content reading)).trans rfl,?_⟩
      rw [withRead,same]
      exact .of_held held rfl rfl

/-- What asking for the manifest of content types does to the parts: it is made when there is none, and
one that cannot be read ends the work. -/
private theorem contentTypes_cases (p : Package) (unused : p.types = none) :
    (∃ root q, contentTypes p = .ok root q ∧ p.Supplied q) ∨
    ∃ fault q, contentTypes p = .error fault q ∧ p.Misreads typesPart fault ∧ p.Supplied q ∧
      q.forest = p.forest ∧ q.trees = p.trees := by
  cases held : p.hasPart typesPart with
  | true =>
    have same : contentTypes p = useTypes p := by
      simp only [contentTypes,run_get_bind,unused,held]
      rfl
    exact same ▸ useTypes_cases held
  | false =>
    let root : NodeId := p.forest.nodes.size
    let q : Package := { p.log .warning s!"Template has no {typesPart}; creating one" with
      forest := (p.forest.add { name := .within typesSpace "Types" }).2 }.setTree typesPart root
        typesSpace
    have known : q.trees.lookup typesPart = some ⟨root,[],typesSpace⟩ :=
      (lookup_trees_setTree _ typesPart typesPart root typesSpace).trans (if_pos rfl)
    have read : root? typesPart q = .ok (some root) (q.touch typesPart) := by
      rw [root?_run,known]
    obtain ⟨_,f₁,j₁,ran₁⟩ := ensureDefault_run root "rels" relationshipsType (q.touch typesPart)
    obtain ⟨_,f₂,j₂,ran₂⟩ := ensureDefault_run root "xml" "application/xml"
      { q.touch typesPart with forest := f₁, journal := j₁ }
    obtain ⟨_,f₃,ran₃⟩ := ensureOverride_run root documentPart documentType
      { q.touch typesPart with forest := f₂, journal := j₂ }
    have last := useTypes_of_known (p := { q.touch typesPart with forest := f₃, journal := j₂ }) known
    have opened : contentTypes p = useNewTypes q := by
      simp only [contentTypes,run_get_bind,unused,held]
      rfl
    refine Or.inl ⟨root,_,opened.trans ((run_bind_ok read).trans ((run_bind_ok ran₁).trans
      ((run_bind_ok ran₂).trans ((run_bind_ok ran₃).trans last)))),?_,rfl⟩
    rw [held]
    exact map_store_of_missing .empty (notMem_names held)

end Packaging

variable {template p q : Package} {o : Options} {w : World}

/-- What a session without outcomes has left of a template: the tree of the document, and the parts with
at most a manifest of content types beside them. -/
structure Untouched (template : Package) (e : Element) (s : Session) : Prop where
  outcomes : s.outcomes = []
  tree : ∃ t, s.package.trees.lookup documentPart = some t ∧ s.package.forest.element t.root = e
  parts : template.Supplied s.package

namespace Fill

/-- Where no header, footer or watermark is asked for, opening a document reads it and asks for the
manifest of content types. -/
private theorem opening_apply (header : o.header.isTruthy = false) (footer : o.footer.isTruthy = false)
    (watermark : o.watermark.isTruthy = false) {root : NodeId} {s₁ : Session}
    (document : onPackage Packaging.document setup s = .ok root s₁) :
    match onPackage Packaging.contentTypes setup s₁ with
    | .ok _ s₂ => ∃ journal,
      opening o setup s = .ok root { s₂ with package := { s₂.package with journal := journal } }
    | .error fault s₂ => opening o setup s = .error fault s₂ := by
  have looked : opening o setup s = (do
      let types ← onPackage Packaging.contentTypes
      let entries := (← Generation.forest).children types
      Generation.log .debug s!"Content types loaded ({entries.length} entries)"
      return root) setup s₁ := by
    simp only [opening,header,footer,watermark]
    exact (bind_ok (a := setup) rfl).trans (bind_ok document)
  rw [looked,bind_apply]
  cases onPackage Packaging.contentTypes setup s₁ with
  | ok types s₂ => exact ⟨_,rfl⟩
  | error fault s₂ => rfl

end Fill

section
variable {data : ByteArray} {e : Element}

/-- The document of a template was read, and nothing else. -/
private structure DocumentRead (template : Package) (e : Element) (root : NodeId) (w : World) : Prop where
  placed : w.Placed
  here : w.session.part = documentPart
  knows : w.Knows documentPart root
  element : w.package.forest.element root = e
  plain : w.package.forest.Plain root
  outcomes : w.session.outcomes = []
  parts : w.package.parts = template.parts
  order : w.package.order = template.order
  types : w.package.types = none

private theorem documentRead (setup : Setup) (fresh : template.Fresh)
    (content : template.part? documentPart = some data) (reading : (readBytes data).root = .ok e)
    (plain : e.Plain) : ∃ root w, DocumentRead template e root w ∧
      onPackage Packaging.document setup { package := template } = .ok root w.session := by
  let root := (({} : Forest).plant e).1
  let p := template.withRead documentPart data e
  obtain ⟨journal,registered⟩ := template.registerAll_eq (readBytes data).declared
  have read : Packaging.root? documentPart template = .ok (some root) p := by
    rw [root?_of_read (by simp [fresh.trees]) content reading,fresh.forest]
  have ran : onPackage Packaging.document setup { package := template } =
      .ok root { package := p } := by
    refine onPackage_ok ?_
    simp only [Packaging.document,bind,EStateM.bind,read]
    rfl
  have found : onPackage (Packaging.root? documentPart) setup (World.initial template).session =
      .ok (some root) { package := p } := onPackage_ok read
  obtain ⟨w,session_eq,moves,⟨knows,-⟩⟩ := (ends_root? (Or.inl isDirect_document)).of_ok found
  have package_eq : w.session.package = p := congrArg Session.package session_eq
  have forest : w.package.forest = (({} : Forest).plant e).2 := by
    rw [World.package,package_eq]
    simp only [p,withRead,fresh.forest]
    rfl
  obtain ⟨parts,order,types⟩ : w.package.parts = template.parts ∧
      w.package.order = template.order ∧ w.package.types = none := by
    rw [World.package,package_eq]
    simp only [p,withRead,registered]
    exact ⟨rfl,rfl,fresh.types⟩
  have sound : w.Sound := (Moves.legs (Serves.moves setup Scope.all moves)).sound
    (World.sound_initial fresh)
  have here : w.session.part = documentPart := congrArg Session.part session_eq
  obtain ⟨t,known,top⟩ := knows root rfl
  refine ⟨root,w,⟨⟨sound,here ▸ isDirect_document,t,here ▸ known⟩,here,⟨t,known,top⟩,?_,?_,
    congrArg Session.outcomes session_eq,parts,order,types⟩,?_⟩
  · exact element_plant sound.sorted {} e fun id _ _ => congrArg (Forest.node · id) forest
  · rw [forest]
    exact plain
  · rw [ran,session_eq]

/-- What serves the package leaves the document as it was read. -/
private theorem DocumentRead.serves {root : NodeId} {w w' : World}
    (read : DocumentRead template e root w) (moves : Serves w w') : w'.Sound ∧
      w'.Knows documentPart root ∧ w'.package.forest.element root = e ∧
        w'.package.forest.Plain root := by
  have steps : Stocks {} w w' := ReflTransGen.mono (serve_le_stock _) _ _ moves
  have sound := read.placed.sound
  have sound' := (Moves.legs steps.moves).sound sound
  have owned : w.Owned root := by
    obtain ⟨t,known,top⟩ := read.knows
    rw [World.Owned,read.here,← top]
    exact (sound.tree _ t known).1
  have closed : ∀ n, w.Owned n → ∀ child ∈ w.package.forest.children n, w.Owned child :=
    fun n inside child member => sound.sorted.within_child inside member
  have same : ∀ n, w.Owned n → w'.package.forest.node n = w.package.forest.node n :=
    fun n inside => steps.node_eq read.placed inside
  refine ⟨sound',read.knows.legs sound (Moves.legs steps.moves),?_,?_⟩
  · exact (element_congr sound.sorted sound'.sorted closed same root owned).trans read.element
  · have named : w'.package.forest.named root paragraphName = w.package.forest.named root paragraphName :=
      named_congr sound.sorted sound'.sorted closed same owned _
    intro p member
    rw [named] at member
    have inside : w.Owned p := sound.sorted.within_named owned member
    have text : w'.package.forest.paragraphText p = w.package.forest.paragraphText p :=
      paragraphText_congr sound.sorted sound'.sorted closed same inside
    rw [text]
    exact read.plain p member

private theorem DocumentRead.untouched {root : NodeId} {w : World}
    (read : DocumentRead template e root w) {s : Session} (outcomes : s.outcomes = [])
    (known : ∃ t, s.package.trees.lookup documentPart = some t ∧ t.root = root)
    (element : s.package.forest.element root = e) (supplied : w.package.Supplied s.package) :
    Untouched template e s := by
  obtain ⟨t,known,top⟩ := known
  refine ⟨outcomes,⟨t,known,top ▸ element⟩,?_,supplied.order.trans read.order⟩
  rw [supplied.names,names,read.parts,hasPart,read.parts]
  rfl

/-- The document is open, read from the template and without directives, or the manifest of content
types cannot be read. -/
private theorem opening_cases (setup : Setup) (fresh : template.Fresh)
    (content : template.part? documentPart = some data) (reading : (readBytes data).root = .ok e)
    (plain : e.Plain) (header : o.header.isTruthy = false) (footer : o.footer.isTruthy = false)
    (watermark : o.watermark.isTruthy = false) :
    (∃ root, ∃ w : World, Fill.opening o setup { package := template } = .ok root w.session ∧
      w.Sound ∧ w.package.forest.Plain root ∧ Untouched template e w.session) ∨
    ∃ fault s, Fill.opening o setup { package := template } = .error fault s ∧
      template.Misreads typesPart fault ∧ Untouched template e s := by
  obtain ⟨root,w,read,document⟩ := documentRead setup fresh content reading plain
  have opened := Fill.opening_apply header footer watermark document
  rcases Packaging.contentTypes_cases w.session.package read.types with
    ⟨types,q,ran,supplied⟩ | ⟨fault,q,ran,⟨data',problem,held,failing,fault_eq⟩,supplied,same,trees⟩
  · rw [onPackage_ok ran] at opened
    obtain ⟨journal,opened⟩ := opened
    have used : onPackage Packaging.contentTypes setup w.session = _ := onPackage_ok ran
    obtain ⟨w₁,session_eq,moves,-⟩ := (ends_contentTypes read.placed.sound).of_ok used
    have later : Serves w _ := moves.tail (.note journal w₁.session.outcomes w₁.session.watermarks)
    obtain ⟨sound,knows,element,plain'⟩ := read.serves later
    rw [← session_eq] at opened
    refine Or.inl ⟨root,_,opened,sound,plain',read.untouched ?_ knows element ?_⟩
    · exact (congrArg Session.outcomes session_eq).trans read.outcomes
    · have package_eq : w₁.session.package = q := congrArg Session.package session_eq
      simp only [package_eq]
      exact ⟨supplied.names,supplied.order⟩
  · rw [onPackage_error ran] at opened
    refine Or.inr ⟨fault,_,opened,⟨data',problem,?_,failing,fault_eq⟩,
      read.untouched read.outcomes ?_ ?_ supplied⟩
    · rw [part?,← read.parts]
      exact held
    · obtain ⟨t,known,top⟩ := read.knows
      exact ⟨t,trees ▸ known,top⟩
    · rw [same]
      exact read.element

private theorem Untouched.same (untouched : Untouched template e s) {s' : Session}
    (outcomes : s'.outcomes = s.outcomes) (same : s.package.SameTrees s'.package) :
    Untouched template e s' where
  outcomes := outcomes.trans untouched.outcomes
  tree := by
    rw [same.trees_eq,same.forest_eq]
    exact untouched.tree
  parts := ⟨same.names_eq.trans untouched.parts.names,same.order_eq.trans untouched.parts.order⟩

end

/-- What is saved of a package with at most a manifest of content types beside the parts of a template that
was opened. -/
private theorem Package.Supplied.saved (supplied : template.Supplied q) {bytes : ByteArray}
    {limit : Int} (loaded : Package.load bytes limit = .ok template) : match q.entries with
    | .ok saved => saved.map (·.1) = typesPart :: template.names.filter (· != typesPart)
    | .error fault => template.hasPart "" = true ∧ fault = .breakdown .position := by
  obtain ⟨opened,distinct,short⟩ := parts_of_load loaded
  have typed : q.hasPart typesPart = true := by
    rw [hasPart_eq_true_iff,supplied.names]
    cases held : template.hasPart typesPart with
    | true => exact List.mem_append_left _ (hasPart_eq_true_iff.mp held)
    | false => simp
  have once : q.names.Nodup := by
    rw [supplied.names]
    cases held : template.hasPart typesPart with
    | true => simpa using distinct
    | false =>
      have new : ∀ name ∈ template.names, name ≠ typesPart :=
        fun name member same => notMem_names held (same ▸ member)
      simpa [List.nodup_append] using ⟨distinct,new⟩
  have order : q.savedNames = typesPart :: template.names.filter (· != typesPart) := by
    rw [savedNames_eq (supplied.order.trans opened) supplied.names once typed,List.filter_append]
    split <;> simp
  have short' : ∀ name ∈ q.savedNames, Archive.shortName name = name := by
    rw [order]
    intro name member
    rcases List.mem_cons.mp member with rfl | member
    · decide
    · exact Archive.shortName_eq (short name (List.mem_filter.mp member).1)
  split
  · next saved stored =>
    rw [entries_saved stored,List.map_map,← order]
    exact (List.map_congr_left short').trans (List.map_id _)
  · next fault failed =>
    obtain ⟨name,member,failed⟩ := exists_of_mapM_eq_error failed
    rw [short' name member] at failed
    simp only at failed
    split at failed
    · next empty =>
      rw [eq_of_beq empty,order] at member
      have inside := (List.mem_cons.mp member).resolve_left (by decide)
      exact ⟨hasPart_eq_true_iff.mpr (List.mem_filter.mp inside).1,(Except.error.inj failed).symm⟩
    · simp at failed

namespace Generate

/-- A run that did nothing to a template: no outcome, the tree of the document as it was read, and no part
but a manifest of content types where there was none. It is saved, unless that manifest cannot be read or
a part has no name. -/
structure Idle (template : Package) (e : Element) (run : Except Fault Archive.Entries × Session) :
    Prop where
  untouched : Untouched template e run.2
  saved : ∀ entries, run.1 = .ok entries →
    entries.map (·.1) = typesPart :: template.names.filter (· != typesPart)
  fault : ∀ fault, run.1 = .error fault → template.Misreads typesPart fault ∨
    template.hasPart "" = true ∧ fault = .breakdown .position

/-- Saving flushes the package. -/
private theorem save_apply (p : Package) : Packaging.save p = match p.flush.entries with
    | .ok saved => .ok saved p.flush
    | .error fault => .error fault p.flush := by
  simp only [Packaging.save,run_modify_bind,run_get_bind]
  cases Package.entries p.flush <;> rfl

/-- A template without directives comes out of a run without headers, footers and watermarks as it went
in, whatever the data is. -/
theorem fill_of_undirected (setup : Setup) {bytes document : ByteArray} {limit : Int} {e : Element}
    (loaded : Package.load bytes limit = .ok template)
    (content : template.part? documentPart = some document)
    (reading : (readBytes document).root = .ok e) (plain : e.Plain)
    (header : o.header.isTruthy = false) (footer : o.footer.isTruthy = false)
    (watermark : o.watermark.isTruthy = false) : Idle template e (fill setup o template) := by
  have fresh := fresh_of_load loaded
  unfold fill
  dsimp only
  generalize ({ setup with data := dataOf setup.data } : Setup) = setup
  rcases opening_cases setup fresh content reading plain header footer watermark with
    ⟨root,w,opened,sound,plain,untouched⟩ | ⟨fault,s,opened,misreads,untouched⟩
  · have held (name : String) (t : PartTree) (known : w.package.trees.lookup name = some t) :
        w.package.hasPart name = true := (sound.tree name t known).2.2
    obtain ⟨s,filled,outcomes,same⟩ := Fill.bodyPass_of_plain sound.sorted plain held
    have ran : (Fill.document o >>= fun _ => onPackage Packaging.save) setup { package := template } =
        onPackage Packaging.save setup s :=
      bind_ok ((bind_ok opened).trans filled)
    have held' (name : String) (t : PartTree) (known : s.package.trees.lookup name = some t) :
        s.package.hasPart name = true := by
      rw [same.trees_eq] at known
      rw [hasPart_eq_true_iff,same.names_eq,← hasPart_eq_true_iff]
      exact held name t known
    have flushed : Untouched template e { s with package := s.package.flush } :=
      (untouched.same outcomes same).same rfl (.flush held')
    have saved := flushed.parts.saved loaded
    rw [ran]
    simp only [onPackage,save_apply]
    cases stored : s.package.flush.entries with
    | ok archive =>
      simp only [stored] at saved
      exact ⟨flushed,fun _ same => Except.ok.inj same ▸ saved,fun _ failed => by simp at failed⟩
    | error fault =>
      simp only [stored] at saved
      exact ⟨flushed,fun _ same => by simp at same,
        fun _ failed => Or.inr (Except.error.inj failed ▸ saved)⟩
  · have ran : (Fill.document o >>= fun _ => onPackage Packaging.save) setup { package := template } =
        .error fault s := by
      simp only [Fill.document,bind_apply,opened]
    rw [ran]
    exact ⟨untouched,fun _ saved => by simp at saved,
      fun _ failed => Or.inl (Except.error.inj failed ▸ misreads)⟩

/-- A document with a table in a cell of a table and no directive. -/
def nestedDocument : ByteArray :=
  Text.encode ("<d xmlns=\"http://schemas.openxmlformats.org/wordprocessingml/2006/main\"><body><tbl>" ++
    "<tc><tbl><p><r><t>A\x7d</t></r></p></tbl></tc></tbl></body></d>")

theorem fill_of_undirected_nested : ∃ template e,
    Package.load (Archive.write [(documentPart,nestedDocument)]) 1000 = .ok template ∧
      template.part? documentPart = some nestedDocument ∧ (readBytes nestedDocument).root = .ok e ∧
        e.Plain ∧ ({} : Options).header.isTruthy = false ∧ ({} : Options).footer.isTruthy = false ∧
          ({} : Options).watermark.isTruthy = false ∧
            Idle template e (fill { data := .map [(.text "Names",.list [])] } {} template) := by
  have small : (nestedDocument.size + 132 : Int) ≤ 1000 := by decide +kernel
  have loaded := load_document small (by decide)
  have read : (readBytes nestedDocument).root.toOption.any (fun e => decide e.Plain) = true := by
    decide +kernel
  obtain ⟨e,reading,plain⟩ := (Option.any_eq_true _ _).mp read
  have reading := eq_ok_of_toOption reading
  have plain := of_decide_eq_true plain
  exact ⟨_,e,loaded,rfl,reading,plain,rfl,rfl,rfl,
    fill_of_undirected _ loaded rfl reading plain rfl rfl rfl⟩

end Generate
end MailMerge
