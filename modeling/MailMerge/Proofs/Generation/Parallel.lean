import MailMerge.Proofs.Generation.Alike

/-! Paragraphs filled side by side. Paragraphs of two generations that look the same come to the same end, with the
same outcomes, and leave generations that look the same.
-/
namespace MailMerge
open Xml Docx Forest Package Fill

/-- Paragraphs at work that are paired, with their text elements. -/
structure Fill.Target.Twins (pair : Pairing) (o o' : Target) : Prop where
  inner : pair .inner o.paragraph o'.paragraph
  whole : pair .whole o.paragraph o'.paragraph
  elements : List.Forall₂ (pair .whole) o.elements o'.elements

theorem Fill.Target.Twins.mono {pair pair' : Pairing} {o o' : Target} (at' : Target.Twins pair o o')
    (more : pair ≤ pair') : Target.Twins pair' o o' :=
  ⟨more _ _ _ at'.inner,more _ _ _ at'.whole,at'.elements.imp (more _)⟩

namespace Generation.Alike

variable {scene : Scene} {setup : Setup} {pair : Pairing} {s t : Session} {a b c d p q : NodeId}

section
variable (twins : Session.Twins scene pair s t)
include twins

theorem nextNumber_eq {links links' : NodeId} (met : pair .whole links links') (last : Nat) (part key : Nat → String) :
    Embed.nextNumber t.package links' last part key = Embed.nextNumber s.package links last part key := by
  have parts : t.package.parts = s.package.parts := (congrArg (·.parts) twins.package.rest).symm
  rw [Embed.nextNumber,Embed.nextNumber,twins.package.forests.relationshipIds_eq met]
  simp only [hasPart,parts]

variable (loose : ∀ n, ¬ scene.fixed n)
include loose

theorem relationshipsOf :
    Alike scene setup pair (Generation.onPackage (Packaging.relationshipsOf s.part))
      (Generation.onPackage (Packaging.relationshipsOf t.part)) s t fun pair => pair .whole := by
  have part_eq : t.part = s.part := (congrArg (·.part) twins.rest).symm
  rw [part_eq]
  exact onPackage twins (twins.package.relationshipsOf loose twins.direct.ne_typesPart.symm
    (twins.direct.ne_relationships _).symm)

theorem contentTypes :
    Alike scene setup pair (Generation.onPackage Packaging.contentTypes)
      (Generation.onPackage Packaging.contentTypes) s t fun pair => pair .whole :=
  onPackage twins (twins.package.contentTypes loose twins.direct.ne_typesPart.symm)

theorem embed_image (data : ByteArray) (extension : String) (width height : Value) :
    Alike scene setup pair (Embed.image data extension width height) (Embed.image data extension width height) s t
      fun _ a b => a = b := by
  refine of_read (of_bind (ofExcept twins _) ?_)
  rintro pair ⟨stored,detected⟩ _ s t - twins rfl
  dsimp -zeta only
  extract_lets file key store
  have alike_store {pair : Pairing} {s t : Session} (twins : Session.Twins scene pair s t) :
      Alike scene setup pair (store ()) (store ()) s t fun _ a b => a = b := by
    refine of_look (of_bind (relationshipsOf twins loose) ?_)
    intro pair links links' s t _ twins met
    refine of_look (of_look (of_look ?_))
    have part_eq : t.part = s.part := (congrArg (·.part) twins.rest).symm
    have images_eq : t.images = s.images := (congrArg (·.images) twins.rest).symm
    dsimp only
    rw [part_eq,images_eq,nextNumber_eq twins met]
    generalize Embed.nextNumber s.package links s.images _ _ = n
    generalize Path.join (Path.join (Path.folder s.part) "media") (file n) = name
    refine of_change ?_
    have written : Session.Twins scene pair { s with images := n, package := s.package.write name data }
        { t with images := n, package := t.package.write name data } :=
      ⟨twins.package.write name data,congrArg (fun u : Session => { u with
        images := n, package := u.package.write name data }) twins.rest,twins.direct⟩
    refine of_bind (edit written (written.package.forests.relate met loose _ _ _)) fun _ twins _ => ?_
    refine of_bind (contentTypes twins loose) fun _ twins met => ?_
    split
    · refine of_bind (onPackage twins (twins.package.ensureDefault loose met _ _)) fun _ twins _ => ?_
      refine of_bind (log twins _ _) fun _ twins _ => of_bind (ofExcept twins _) ?_
      rintro _ extent _ _ _ - twins rfl
      exact of_pure twins rfl
    · exact of_bind (of_throw twins) fun _ _ => False.elim
  split
  · exact of_bind (log twins _ _) fun _ twins _ => alike_store twins
  · exact alike_store twins
theorem embed_fetched (address : String) (width height : Value) :
    Alike scene setup pair (Embed.fetched address width height) (Embed.fetched address width height) s t
      fun _ a b => a = b := by
  have images_eq : t.images = s.images := (congrArg (·.images) twins.rest).symm
  refine of_read (of_look ?_)
  rw [images_eq]
  split
  · exact of_bind (of_throw twins) fun _ _ => False.elim
  · refine of_bind (ofExcept twins _) ?_
    rintro pair data _ s t - twins rfl
    refine of_bind (log twins _ _) fun _ twins _ => of_bind (ofExcept twins _) ?_
    rintro pair extension _ s t - twins rfl
    exact embed_image twins loose data extension width height

theorem embed_chart (kind : String) (rows : Value) (title : Option String) (width height : Value) :
    Alike scene setup pair (Embed.chart kind rows title width height) (Embed.chart kind rows title width height) s t
      fun _ a b => a = b := by
  unfold Embed.chart
  refine of_read ?_
  extract_lets u part key
  refine of_bind (ofExcept twins _) ?_
  rintro pair root _ s t - twins rfl
  have text_eq : Embed.chartText t.package root = Embed.chartText s.package root := by
    have prefixes : t.package.prefixes = s.package.prefixes := (congrArg (·.prefixes) twins.package.rest).symm
    rw [Embed.chartText,Embed.chartText,prefixes]
  refine of_look ?_
  rw [text_eq]
  extract_lets data
  clear_value data part key
  refine of_look (of_bind (relationshipsOf twins loose) ?_)
  intro pair links links' s t _ twins met
  have part_eq : t.part = s.part := (congrArg (·.part) twins.rest).symm
  have charts_eq : t.charts = s.charts := (congrArg (·.charts) twins.rest).symm
  refine of_look (of_look ?_)
  rw [charts_eq,nextNumber_eq twins met]
  extract_lets n
  clear_value n
  have written : Session.Twins scene pair { s with charts := n, package := s.package.write (part n) data }
      { t with charts := n, package := t.package.write (part n) data } :=
    ⟨twins.package.write _ data,congrArg (fun u : Session => { u with
      charts := n, package := u.package.write (part n) data }) twins.rest,twins.direct⟩
  refine of_change (of_look ?_)
  extract_lets target target'
  have same : target' = target := congrArg (fun here => Path.relative (part n) (Path.folder here)) part_eq
  clear_value target target'
  obtain rfl := same
  refine of_bind (edit written (written.package.forests.relate met loose _ _ _)) fun _ twins _ => ?_
  refine of_bind (contentTypes twins loose) fun _ twins met => ?_
  refine of_bind (onPackage twins (twins.package.ensureOverride loose met _ _)) fun _ twins _ => ?_
  refine of_bind (log twins _ _) fun _ twins _ => of_bind (ofExcept twins _) ?_
  rintro _ extent _ _ _ - twins rfl
  exact of_pure twins rfl
omit loose in
/-- The parents of the elements at work are old. -/
private theorem above_lt (met : pair .inner a b) :
    (∀ n, s.index.parent? a = some n → n < s.package.forest.nodes.size) ∧
      ∀ n, t.index.parent? b = some n → n < t.package.forest.nodes.size := by
  have up := twins.package.index.parents a b (twins.package.forests.known a b met) (twins.package.index.low a b met)
  generalize s.index.parent? a = above,t.index.parent? b = above' at up
  cases up with
  | none => exact ⟨nofun,nofun⟩
  | some here =>
    exact ⟨fun n known => Option.some.inj known ▸ twins.package.forests.lt_left here.1,
      fun n known => Option.some.inj known ▸ twins.package.forests.lt_right here.1⟩

theorem remove (met : pair .inner a b) :
    Alike scene setup pair (Generation.remove a) (Generation.remove b) s t fun _ x y => x = y :=
  change twins (twins.package.index.remove twins.package.forests (twins.package.forests.known a b met)
    (twins.package.index.low a b met) (fun n _ => loose n) fun n _ => loose n)

section
variable {pair' : Pairing} {e : Element} (met : pair .inner a b)
  (later : Session.Twins scene pair' (s.planted e) (t.planted e)) (more : pair ≤ pair')
  (new : ∀ k, pair' k (s.package.forest.plant e).1 (t.package.forest.plant e).1)
include met later more new

/-- What was just made is put in the places of elements at work. -/
theorem replace : Alike scene setup pair' (Generation.replace a (s.package.forest.plant e).1)
    (Generation.replace b (t.package.forest.plant e).1) (s.planted e) (t.planted e) fun _ x y => x = y :=
  change later (later.package.index.replace later.package.forests
    (later.package.forests.known a b (more _ a b met)) (later.package.index.low a b (more _ a b met))
    (fun n _ => loose n) (fun n _ => loose n) new
    (fun n known => Forest.Twins.outside_plant _ e ((above_lt twins met).1 n known))
    fun n known => Forest.Twins.outside_plant _ e ((above_lt twins met).2 n known))

theorem insertAfter : Alike scene setup pair' (Generation.insertAfter a (s.package.forest.plant e).1)
    (Generation.insertAfter b (t.package.forest.plant e).1) (s.planted e) (t.planted e) fun _ x y => x = y :=
  change later (later.package.index.insertAfter later.package.forests
    (later.package.forests.known a b (more _ a b met)) (later.package.index.low a b (more _ a b met))
    (fun n _ => loose n) (fun n _ => loose n) new
    (fun n known => Forest.Twins.outside_plant _ e ((above_lt twins met).1 n known))
    fun n known => Forest.Twins.outside_plant _ e ((above_lt twins met).2 n known))

theorem putTable : Alike scene setup pair' (Fill.putTable a (s.package.forest.plant e).1)
    (Fill.putTable b (t.package.forest.plant e).1) (s.planted e) (t.planted e) fun _ _ _ => True := by
  have met' := more _ a b met
  have up := later.package.index.parents a b (later.package.forests.known a b met') (later.package.index.low a b met')
  refine of_parent (of_bind (replace twins loose met later more new) fun more' twins _ => ?_)
  rcases rel_cases up with ⟨first,second⟩ | ⟨cell,cell',first,second,here,-⟩
  · rw [first,second]
    exact of_pure twins trivial
  · rw [first,second]
    refine of_forest ?_
    rw [twins.package.forests.name_eq (more' _ _ _ here)]
    split
    · refine of_plant twins _ fun more later new' => ?_
      exact of_bind (insertAfter twins loose (more' _ _ _ (new .inner)) later more new') fun _ twins _ =>
        of_pure twins trivial
    · exact of_pure twins trivial

end

theorem removeParagraph (met : pair .inner a b) :
    Alike scene setup pair (Fill.removeParagraph a) (Fill.removeParagraph b) s t fun _ _ _ => True := by
  have up := twins.package.index.parents a b (twins.package.forests.known a b met) (twins.package.index.low a b met)
  refine of_parent (of_bind (remove twins loose met) fun more twins _ => ?_)
  rcases rel_cases up with ⟨first,second⟩ | ⟨cell,cell',first,second,here,unpassed⟩
  · rw [first,second]
    exact of_pure twins trivial
  · rw [first,second]
    refine of_forest ?_
    have here := more _ _ _ here
    rw [twins.package.forests.name_eq here,
      isNone_eq (twins.package.forests.childNamed? here unpassed paragraphName)]
    split
    · refine of_plant twins _ fun more later new => ?_
      refine edit later ⟨_,later.package.forests.append (more _ _ _ here) unpassed (loose _) (loose _) new
        (Forest.Twins.outside_plant _ _ (twins.package.forests.lt_left here))
        (Forest.Twins.outside_plant _ _ (twins.package.forests.lt_right here))⟩
    · exact of_pure twins trivial

omit loose in
theorem holds (condition : String) :
    Alike scene setup pair (Fill.holds condition) (Fill.holds condition) s t fun _ x y => x = y := by
  refine of_read (of_bind (ofExcept twins _) ?_)
  rintro pair judged _ s t - twins rfl
  cases judged with
  | holds b => exact of_pure twins rfl
  | invalid reason => exact of_bind (log twins _ _) fun _ twins _ => of_pure twins rfl

theorem resolveBlocks (met : pair .inner p q) (fuel : Nat) (text : List Char) (pos : Nat) (seen : Bool) :
    Alike scene setup pair (Fill.resolveBlocks fuel p text pos seen) (Fill.resolveBlocks fuel q text pos seen) s t
      fun _ x y => x = y := by
  induction fuel generalizing pair s t text pos seen with
  | zero => exact of_pure twins rfl
  | succ fuel ih =>
    unfold Fill.resolveBlocks
    split
    · exact of_pure twins rfl
    · refine of_bind (holds twins _) ?_
      rintro pair answer _ s t more twins rfl
      have met := more _ _ _ met
      split
      · exact of_bind (record twins _ _ _ _) fun more twins _ => ih twins (more _ _ _ met) _ _ _
      · refine of_bind (removeParagraph twins loose met) fun _ twins _ => ?_
        exact of_bind (record twins _ _ _ _) fun _ twins _ => of_pure twins rfl

section
variable {o o' : Target} (at' : Target.Twins pair o o')
include at'

theorem write (text : List Char) : Alike scene setup pair (o.write text) (o'.write text) s t fun _ _ _ => True :=
  edit twins (twins.package.forests.writeText at'.whole (loose _) (loose _) at'.elements _)

theorem tableRule (text : List Char) :
    Alike scene setup pair (Fill.tableRule o text) (Fill.tableRule o' text) s t fun _ x y => x = y := by
  unfold Fill.tableRule
  split
  · refine of_read ?_
    split
    · refine of_read (of_bind (guarded (ofExcept twins _)) ?_)
      rintro pair built _ s t more twins rfl
      split
      · exact of_bind (record twins _ _ _ _) fun _ twins _ => of_pure twins rfl
      · refine of_plant twins _ fun more' later new => ?_
        refine of_bind (putTable twins loose (more _ _ _ at'.inner) later more' new) fun _ twins _ => ?_
        refine of_bind (log twins _ _) fun _ twins _ => ?_
        exact of_bind (record twins _ _ _ _) fun _ twins _ => of_pure twins rfl
    · exact of_bind (record twins _ _ _ _) fun _ twins _ => of_pure twins rfl
  · exact of_pure twins rfl

theorem chartRule (text : List Char) :
    Alike scene setup pair (Fill.chartRule o text) (Fill.chartRule o' text) s t fun _ x y => x = y := by
  unfold Fill.chartRule
  split
  · refine of_read ?_
    split
    · refine of_bind (guarded (embed_chart twins loose _ _ _ _ _)) ?_
      rintro pair drawn _ s t more twins rfl
      split
      · exact of_bind (record twins _ _ _ _) fun _ twins _ => of_pure twins rfl
      · refine of_plant twins _ fun more' later new => ?_
        refine of_bind (replace twins loose (more _ _ _ at'.inner) later more' new) fun _ twins _ => ?_
        exact of_bind (record twins _ _ _ _) fun _ twins _ => of_pure twins rfl
    · exact of_bind (record twins _ _ _ _) fun _ twins _ => of_pure twins rfl
  · exact of_pure twins rfl

omit loose at' in
theorem lengthAt (key : String) (usual : Int) :
    Alike scene setup pair (Fill.lengthAt key usual) (Fill.lengthAt key usual) s t fun _ x y => x = y := by
  refine of_read (of_bind (ofExcept twins _) ?_)
  rintro pair length _ s t - twins rfl
  cases length <;> exact of_pure twins rfl

theorem imageRule (text : List Char) :
    Alike scene setup pair (Fill.imageRule o text) (Fill.imageRule o' text) s t fun _ x y => x = y := by
  unfold Fill.imageRule
  split
  · refine of_read ?_
    split
    · next address _ =>
      split
      · exact of_bind (record twins _ _ _ _) fun _ twins _ => of_pure twins rfl
      · refine of_read (of_bind (lengthAt twins _ _) ?_)
        rintro pair width _ s t more twins rfl
        refine of_bind (lengthAt twins _ _) ?_
        rintro pair height _ s t more' twins rfl
        refine of_bind (guarded (embed_fetched twins loose _ _ _)) ?_
        rintro pair drawn _ s t more'' twins rfl
        split
        · exact of_bind (record twins _ _ _ _) fun _ twins _ => of_pure twins rfl
        · have inner := more'' _ _ _ (more' _ _ _ (more _ _ _ at'.inner))
          refine of_plant twins _ fun more' later new => ?_
          refine of_bind (replace twins loose inner later more' new) fun _ twins _ => ?_
          exact of_bind (record twins _ _ _ _) fun _ twins _ => of_pure twins rfl
    · exact of_bind (record twins _ _ _ _) fun _ twins _ => of_pure twins rfl
  · exact of_pure twins rfl

omit loose at' in
theorem formatAll (text : List Char) (found : List (Directive.Found Directive.FormatTag)) :
    Alike scene setup pair (Fill.formatAll text found) (Fill.formatAll text found) s t fun _ x y => x = y := by
  induction found generalizing pair s t text with
  | nil => exact of_pure twins rfl
  | cons tag rest ih =>
    refine of_read (of_bind (ofExcept twins _) ?_)
    rintro pair new _ s t - twins rfl
    exact of_bind (record twins _ _ _ _) fun _ twins _ => ih twins _

theorem formatRule (text : List Char) :
    Alike scene setup pair (Fill.formatRule o text) (Fill.formatRule o' text) s t fun _ x y => x = y := by
  unfold Fill.formatRule
  split
  · exact of_pure twins rfl
  · refine of_bind (formatAll twins _ _) ?_
    rintro pair formatted _ s t more twins rfl
    split
    · exact of_pure twins rfl
    · exact of_bind (write twins loose (at'.mono more) _) fun _ twins _ => of_pure twins rfl

theorem loopRule (text : List Char) :
    Alike scene setup pair (Fill.loopRule o text) (Fill.loopRule o' text) s t fun _ x y => x = y := by
  unfold Fill.loopRule
  split
  · refine of_read ?_
    split
    · refine of_bind (ofExcept twins _) ?_
      rintro pair rendered _ s t more twins rfl
      refine of_bind (write twins loose (at'.mono more) _) fun _ twins _ => ?_
      exact of_bind (record twins _ _ _ _) fun _ twins _ => of_pure twins rfl
    · exact of_bind (record twins _ _ _ _) fun _ twins _ => of_pure twins rfl
  · exact of_pure twins rfl

omit loose at' in
theorem placeholderText (found : Directive.Found Directive.Placeholder) :
    Alike scene setup pair (Fill.placeholderText found) (Fill.placeholderText found) s t fun _ x y => x = y := by
  refine of_read (of_bind (ofExcept twins _) ?_)
  rintro pair new _ s t - twins rfl
  split <;> exact of_bind (record twins _ _ _ _) fun _ twins _ => of_pure twins rfl

omit loose at' in
theorem placeholderTexts (found : List (Directive.Found Directive.Placeholder)) :
    Alike scene setup pair (found.mapM Fill.placeholderText) (found.mapM Fill.placeholderText) s t
      fun _ x y => x = y := by
  induction found generalizing pair s t with
  | nil =>
    rw [List.mapM_nil]
    exact of_pure twins rfl
  | cons tag rest ih =>
    rw [List.mapM_cons]
    refine of_bind (placeholderText twins tag) ?_
    rintro pair text _ s t - twins rfl
    refine of_bind (ih twins) ?_
    rintro pair texts _ s t - twins rfl
    exact of_pure twins rfl

theorem textRule (text : List Char) :
    Alike scene setup pair (Fill.textRule o text) (Fill.textRule o' text) s t fun _ x y => x = y := by
  unfold Fill.textRule
  split
  · exact of_pure twins rfl
  · refine of_bind (placeholderTexts twins _) ?_
    rintro pair texts _ s t more twins rfl
    exact of_bind (write twins loose (at'.mono more) _) fun _ twins _ => of_pure twins rfl

omit loose in
/-- Rules that do the same are tried alike. -/
theorem tryRules (text : List Char) (rules : List (Target → List Char → Generation Step))
    (each : ∀ rule ∈ rules, ∀ {pair s t}, Session.Twins scene pair s t → Target.Twins pair o o' →
      Alike scene setup pair (rule o text) (rule o' text) s t fun _ x y => x = y) :
    Alike scene setup pair (Fill.tryRules o text rules) (Fill.tryRules o' text rules) s t fun _ x y => x = y := by
  induction rules generalizing pair s t with
  | nil => exact of_pure twins rfl
  | cons rule rules ih =>
    obtain ⟨first,rest⟩ := List.forall_mem_cons.mp each
    refine of_bind (first twins at') ?_
    rintro pair step _ s t more twins rfl
    cases step with
    | next => exact ih twins (at'.mono more) rest
    | halt => exact of_pure twins rfl
    | ended e => exact of_pure twins rfl

end

theorem paragraph (inner : pair .inner p q) (whole : pair .whole p q) :
    Alike scene setup pair (Fill.paragraph p) (Fill.paragraph q) s t fun _ x y => x = y := by
  have elements := twins.package.forests.textElements whole
  have attached := twins.package.index.isAttached_eq twins.package.forests (twins.package.forests.known p q inner)
  refine of_look ?_
  rw [attached]
  split
  · exact of_pure twins rfl
  · refine of_forest ?_
    extract_lets o text o' text'
    have same : text' = text := twins.package.forests.joinedText_eq elements
    have at' : Target.Twins pair o o' := ⟨inner,whole,elements⟩
    clear_value o text o' text'
    obtain rfl := same
    split
    · exact of_pure twins rfl
    refine of_bind (resolveBlocks twins loose inner _ _ _ _) ?_
    rintro pair ⟨left,seen⟩ _ s t more twins rfl
    cases left with
    | none => exact of_pure twins rfl
    | some text =>
      dsimp -zeta only
      extract_lets go go'
      have alike_go {pair : Pairing} {s t : Session} (twins : Session.Twins scene pair s t)
          (at' : Target.Twins pair o o') : Alike scene setup pair (go ()) (go' ()) s t fun _ x y => x = y := by
        refine of_bind (tryRules twins at' text rules fun rule member => ?_) ?_
        · simp only [Fill.rules,List.mem_cons,List.not_mem_nil,or_false] at member
          intro pair s t twins at'
          rcases member with rfl | rfl | rfl | rfl | rfl | rfl
          · exact tableRule twins loose at' text
          · exact chartRule twins loose at' text
          · exact imageRule twins loose at' text
          · exact formatRule twins loose at' text
          · exact loopRule twins loose at' text
          · exact textRule twins loose at' text
        · rintro pair ending _ s t - twins rfl
          cases ending <;> exact of_pure twins rfl
      split
      · exact of_bind (write twins loose (at'.mono more) _) fun more' twins _ =>
          alike_go twins ((at'.mono more).mono more')
      · exact alike_go twins (at'.mono more)

end
end Generation.Alike
end MailMerge
