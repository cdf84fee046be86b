import MailMerge.Proofs.Generation.Watermarks

/-! Filling a document comes down to the moves of a generation: work in one part after the other,
and in each of them moves that stay inside it.
-/
namespace MailMerge.Fill
open Docx Package Relation Generation

variable {setup : Setup} {scope : Scope} {w : World}

/-- Page breaks take the places of paragraphs. -/
theorem ends_pageBreaks (ready : w.Ready scope.base) {root : NodeId} (owned : w.Owned root)
    (may : ∀ p ∈ w.package.forest.named root paragraphName, scope.may p .replaced) :
    Ends (Stride setup scope) setup (pageBreaks root) w fun _ _ => True := by
  unfold pageBreaks
  apply Ends.of_look_forest
  apply Ends.of_then (Ends.of_loop (fun _ _ => True) trivial ?_)
  · intro _ _ _ _
    exact Ends.of_pure trivial
  · intro p member _ w' moves _
    have ready' := ready.moves moves
    have paragraph : w.Paragraph p :=
      ⟨ready.sound.sorted.within_named owned member,(Forest.mem_named.mp member).2⟩
    apply Ends.of_look_forest
    split
    · apply Ends.of_then (ends_plant ready'.toPlaced Built.pageBreak fun _ => lacks_table_pageBreak)
      intro new w₁ moves₁ planted
      apply Ends.of_then (ends_replace (ready'.moves moves₁) ((paragraph.moves moves).moves moves₁)
        (may p member) (planted.novel _ ready') planted.name_eq)
      intro _ _ _ _
      apply Ends.of_then (ends_record _ _ _ _)
      intro _ _ _ _
      exact Ends.of_pure ⟨_,rfl,trivial⟩
    · exact Ends.of_pure ⟨_,rfl,trivial⟩

/-- The root of the document is known by its tree. -/
private theorem ends_root (sound : w.Sound) :
    Ends (Stage setup) setup (onPackage Packaging.document) w fun root w' =>
      w'.Sound ∧ w'.Knows documentPart root := by
  have found : Ends (Tracked Serve setup) setup (onPackage Packaging.document) w fun root w' =>
      w'.Knows documentPart root := by
    apply Ends.of_packaged_bind (tracks_root? sound (Or.inl isDirect_document))
    rintro found w' - ⟨known,-⟩
    cases found with
    | none => exact Ends.of_packaged_throw
    | some root => exact Ends.of_packaged_pure (known root rfl)
  apply (found.retain (serve_le_leg setup)).mono
  rintro root w' - ⟨knows,serves⟩
  exact ⟨Serves.sound serves sound,knows⟩

/-- Fills the headers or the footers if there is a text for them, with their rounds. -/
def wantedRounds (kind : Directive.Kind) (pattern : String) (text : Value) :
    Generation (List Margin) := do
  if text.isTruthy then marginsRounds kind pattern text else return []

/-- Opens a document as `opening` does, with the headers and footers that are filled. -/
def openingRounds (o : Options) : Generation (NodeId × List Margin) := do
  let s := (← read).settings
  let root ← Generation.onPackage Packaging.document
  let types ← Generation.onPackage Packaging.contentTypes
  let entries := (← Generation.forest).children types
  Generation.log .debug s!"Content types loaded ({entries.length} entries)"
  let headers ← wantedRounds .header s.headerPattern o.header
  let footers ← wantedRounds .footer s.footerPattern o.footer
  if o.watermark.isTruthy then watermarks o.watermark
  return (root,headers ++ footers)

/-- Headers and footers are filled by their rounds. -/
theorem opening_eq (o : Options) : opening o = do
    let opened ← openingRounds o
    return opened.1 := by
  have wanted_eq {α : Type} (kind : Directive.Kind) (pattern : String) (text : Value)
      (rest : Generation α) : (if text.isTruthy then margins kind pattern text >>= fun _ => rest
        else rest) = wantedRounds kind pattern text >>= fun _ => rest := by
    unfold wantedRounds
    split
    · rw [margins_eq,bind_assoc]
      simp only [pure_bind]
    · rw [pure_bind]
  simp only [opening,openingRounds,bind_assoc,wanted_eq]
  refine bind_congr fun s => bind_congr fun root => bind_congr fun types => bind_congr fun f =>
    bind_congr fun _ => bind_congr fun headers => bind_congr fun footers => ?_
  split <;> simp only [bind_assoc,pure_bind]

theorem ends_wantedRounds (sound : w.Sound) (kind : Directive.Kind) {pattern : String}
    (usual : pattern = ({} : Settings).headerPattern ∨ pattern = ({} : Settings).footerPattern)
    (text : Value) :
    Ends (Stage setup) setup (wantedRounds kind pattern text) w fun filled w' =>
      w'.Sound ∧ AllCovered filled := by
  unfold wantedRounds
  split
  · exact ends_marginsRounds sound kind usual text
  · exact Ends.of_pure ⟨sound,by simp [AllCovered]⟩

/-- The parts with headers and footers have the usual names. -/
structure Usual (s : Settings) : Prop where
  headers : s.headerPattern = ({} : Settings).headerPattern
  footers : s.footerPattern = ({} : Settings).footerPattern

theorem Usual.of_default {s : Settings} (same : s = {}) : Usual s :=
  ⟨by rw [same],by rw [same]⟩

/-- Headers, footers and watermarks leave the tree of the document known. -/
theorem ends_openingRounds (sound : w.Sound) (usual : Usual setup.settings) (o : Options) :
    Ends (Stage setup) setup (openingRounds o) w fun opened w' =>
      w'.Sound ∧ w'.Knows documentPart opened.1 ∧ AllCovered opened.2 := by
  unfold openingRounds
  apply Ends.of_look_setup
  apply Ends.of_then (ends_root sound)
  rintro root w₁ - ⟨sound₁,knows₁⟩
  apply Ends.of_then ((tracks_contentTypes sound₁).retain (serve_le_leg setup))
  rintro types w₂ - ⟨-,serves₂⟩
  apply Ends.of_look_forest
  apply Ends.of_then (ends_moved Scope.all (ends_log _ _))
  rintro _ w₃ - ⟨-,moves₃⟩
  have legs₃ : Legs setup w₁ w₃ := Moves.legs ((Serves.moves setup Scope.all serves₂).trans moves₃)
  apply Ends.of_then (ends_wantedRounds (legs₃.sound sound₁) .header (Or.inl usual.headers) o.header)
  rintro headers w₄ legs₄ ⟨sound₄,covered₄⟩
  apply Ends.of_then (ends_wantedRounds sound₄ .footer (Or.inr usual.footers) o.footer)
  rintro footers w₅ legs₅ ⟨sound₅,covered₅⟩
  have legs := (legs₃.trans legs₄).trans legs₅
  have covered : AllCovered (headers ++ footers) := fun m member =>
    (List.mem_append.mp member).elim (covered₄ m) (covered₅ m)
  split
  · apply Ends.of_then (ends_watermarks usual.headers sound₅
      ⟨root,knows₁.legs sound₁ legs⟩ o.watermark)
    rintro _ w₆ legs₆ sound₆
    exact Ends.of_pure ⟨sound₆,knows₁.legs sound₁ (legs.trans legs₆),covered⟩
  · exact Ends.of_pure ⟨sound₅,knows₁.legs sound₁ legs,covered⟩

theorem ends_opening (sound : w.Sound) (usual : Usual setup.settings) (o : Options) :
    Ends (Stage setup) setup (opening o) w fun root w' => w'.Sound ∧ w'.Knows documentPart root := by
  rw [opening_eq]
  apply Ends.of_then (ends_openingRounds sound usual o)
  rintro opened w' - ⟨sound',knows,-⟩
  exact Ends.of_pure ⟨sound',knows⟩

/-- What page breaks may do in a tree: any of its paragraphs may be replaced. -/
def breakScope (f : Forest) (root : NodeId) : Scope :=
  ⟨f.nodes.size,fun q fate => fate = .replaced ∧ q ∈ f.named root paragraphName⟩

/-- Page breaks are put in a tree that has just been indexed. -/
structure Prepared (setup : Setup) (w w' : World) (root : NodeId) : Prop where
  owned : w.Owned root
  ready : w.Ready w.package.forest.nodes.size
  index_eq : w.session.index = Index.of w.package.forest root
  moves : Moves setup (breakScope w.package.forest root) w w'

namespace Prepared

/-- What remains of the tree when the page breaks are put in. -/
theorem remains {root : NodeId} (prepared : Prepared setup w w' root) :
    Plot.Remains w.session.part w.plot (· ∈ w.package.forest.named root paragraphName) w'.plot := by
  have orderly := prepared.ready.sound.orderly
  have moves : Moves setup ⟨w.plot.forest.nodes.size,
      fun q _ => q ∈ w.package.forest.named root paragraphName⟩ w w' :=
    prepared.moves.widen ⟨Nat.le_refl _,fun _ _ => And.right⟩
  exact moves.remains prepared.ready.toPlaced (Plot.remains_self orderly _)
    fun q member => (orderly.sorted.within_named prepared.owned member).1

theorem root_eq {root : NodeId} (prepared : Prepared setup w w' root) :
    w.session.index.root = root := by
  rw [prepared.index_eq]
  exact Index.root_recordBelow _ _ root

/-- The index still knows the paths down to all tables, as page breaks bring none. -/
theorem attests {root : NodeId} (prepared : Prepared setup w w' root) {t : NodeId}
    (member : t ∈ w'.package.forest.named root tableName) :
    w'.session.index.Attests w'.package.forest t := by
  have remains := prepared.remains
  have sound := prepared.ready.sound
  have ready' := prepared.ready.moves prepared.moves
  have owned := ready'.sound.sorted.within_named (prepared.owned.moves prepared.moves) member
  have old : t < w.package.forest.nodes.size := by
    by_contra large
    refine prepared.moves.tableless prepared.ready.toPlaced ?_ t (Nat.not_lt.mp large) ?_
      (Forest.mem_named.mp member).2
    · rintro q ⟨replaced,_⟩
      exact Fate.noConfusion replaced
    · exact owned.2.trans (Moves.part_eq prepared.moves)
  have attests : w.session.index.Attests w.package.forest t := by
    rw [prepared.index_eq]
    exact Index.attests_of sound.sorted sound.branching root t
  exact remains.attests attests (prepared.root_eq ▸ prepared.owned : w.Owned w.session.index.root) old

end Prepared

theorem ends_prepare (sound : w.Sound) {root : NodeId} (knows : w.Knows documentPart root) :
    Ends (Stage setup) setup (prepare root) w fun _ w' =>
      ∃ mid : World, mid.grove = w.grove ∧ mid.session.part = documentPart ∧
        Prepared setup mid w' root := by
  obtain ⟨t,known,rfl⟩ := knows
  let w₁ : World := { w with session := { w.session with part := documentPart } }
  let w₂ : World := { w₁ with
    session := { w₁.session with index := .of w.package.forest t.root } }
  have leg₁ : Leg setup w w₁ := Leg.goTo documentPart
  have leg₂ : Leg setup w₁ w₂ := Leg.index t.root
  have owned : w₂.Owned t.root := (sound.tree documentPart t known).1
  have ready : w₂.Ready w₂.package.forest.nodes.size :=
    ⟨⟨(sound.leg leg₁).leg leg₂,isDirect_document,t,known⟩,Index.within_of sound.sorted owned,
      Nat.le_refl _⟩
  unfold prepare
  apply Ends.of_then (Ends.of_modify (fun _ w' => w' = w₁) _ rfl (.of_beside leg₁ (.of_same rfl rfl rfl)) rfl)
  rintro _ _ - rfl
  apply Ends.of_then (Ends.of_modify (fun _ w' => w' = w₂) _ rfl (.of_beside leg₂ (.of_same rfl rfl rfl)) rfl)
  rintro _ _ - rfl
  apply (ends_moved (breakScope w₂.package.forest t.root) (ends_pageBreaks ready owned
    fun _ member => ⟨rfl,member⟩)).mono
  rintro _ w' - ⟨-,moves⟩
  exact ⟨w₂,rfl,rfl,owned,ready,rfl,moves⟩

/-- The tree of the document is filled at the end. -/
theorem ends_bodyPass (sound : w.Sound) {root : NodeId} (knows : w.Knows documentPart root) :
    Ends (Stage setup) setup (bodyPass root) w fun _ w' => w'.Sound := by
  unfold bodyPass
  apply Ends.of_then (ends_prepare sound knows)
  rintro _ w₃ - ⟨mid,-,-,prepared⟩
  have ready₃ := (prepared.ready.moves prepared.moves).fewer (Nat.zero_le _)
  have owned₃ := prepared.owned.moves prepared.moves
  apply Ends.of_look_forest
  split
  · apply (ends_moved Scope.all (ends_log _ _)).mono
    rintro _ w₄ - ⟨-,moves₄⟩
    exact (ready₃.moves moves₄).sound
  · next id found =>
    have body_owned := ready₃.sound.sorted.within_childNamed owned₃ found
    rw [body_eq,bind_assoc]
    apply Ends.of_then (ends_moved Scope.all (ends_bodyRounds ready₃ body_owned))
    rintro _ w₄ - ⟨-,moves₄⟩
    rw [pure_bind]
    have leg : Leg setup w₄ _ := Leg.flush
    have sound₄ := (ready₃.moves moves₄).sound
    exact Ends.of_modify _ _ rfl (.of_beside leg (beside_flush sound₄)) (sound₄.leg leg)

/-- Filling a document is a run of moves. -/
theorem ends_document (sound : w.Sound) (usual : Usual setup.settings) (o : Options) :
    Ends (Stage setup) setup (document o) w fun _ w' => w'.Sound := by
  unfold document
  apply Ends.of_then (ends_opening sound usual o)
  rintro root w₁ - ⟨sound₁,knows₁⟩
  exact ends_bodyPass sound₁ knows₁

end MailMerge.Fill
