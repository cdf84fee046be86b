import MailMerge.Proofs.Embedding.Places
import MailMerge.Proofs.Generation.Kept
import MailMerge.Proofs.Generation.Spared
import MailMerge.Proofs.Generation.Steps

/-! Embedding an image or a chart comes down to moves. In the end the new part is linked and typed
and waits to be shown by the element that is given back.
-/
namespace MailMerge
open Xml Docx Package Relation Generation

variable {setup : Setup} {base : Nat} {w w' : World}

/-- A move that serves the package or the journal, or stores what is embedded. No element of the part at
work is changed by it. -/
inductive Stock (setup : Setup) : World → World → Prop
  | serve {w w' : World} (step : Serve w w') : Stock setup w w'
  | store {w w' : World} (step : ∀ scope, Move setup scope w w') (plot_eq : w'.plot = w.plot) :
    Stock setup w w'

/-- Any number of such moves. -/
abbrev Stocks (setup : Setup) : World → World → Prop :=
  ReflTransGen (Stock setup)

theorem serve_le_stock (setup : Setup) : Serve ≤ Stock setup :=
  fun _ _ => Stock.serve

theorem stock_le_move (setup : Setup) (scope : Scope) : Stock setup ≤ Move setup scope := by
  intro w w' step
  cases step with
  | serve step => exact .serve step
  | store step => exact step scope

theorem Stocks.moves (steps : Stocks setup w w') : Moves setup Scope.all w w' :=
  ReflTransGen.mono (stock_le_move setup Scope.all) _ _ steps

theorem World.Ready.stocks (ready : w.Ready base) (steps : Stocks setup w w') : w'.Ready base :=
  ready.moves steps.moves

theorem Stocks.part_eq (steps : Stocks setup w w') : w'.session.part = w.session.part :=
  Moves.part_eq steps.moves

theorem Stocks.index_eq (steps : Stocks setup w w') : w'.session.index = w.session.index := by
  induction steps with
  | refl => rfl
  | tail _ step ih =>
    refine Eq.trans ?_ ih
    cases step with
    | serve step => cases step <;> rfl
    | store _ plot_eq => exact congrArg Plot.index plot_eq

/-- What is embedded leaves the elements of the part at work as they are. -/
theorem Stocks.node_eq (steps : Stocks setup w w') (placed : w.Placed) {id : NodeId}
    (owned : w.Owned id) : w'.package.forest.node id = w.package.forest.node id := by
  induction steps with
  | refl => rfl
  | tail steps step ih =>
    refine Eq.trans ?_ ih
    cases step with
    | serve step =>
      have placed' := placed.moves (Stocks.moves steps)
      have owned' := owned.moves (Stocks.moves steps)
      exact (step.spares placed'.sound placed'.direct).node_eq id owned'.1 owned'.2
    | store _ plot_eq => exact congrArg (fun v : Plot => v.forest.node id) plot_eq

/-- A step that only serves, seen as one that may store something. -/
theorem Ends.stocked {α : Type} {step : Generation α} {post : α → World → Prop}
    (ends : Ends Serve setup step w post) :
    Ends (Stock setup) setup step w fun a w' => post a w' ∧ Serves w w' :=
  ends.remember (serve_le_stock setup)

namespace Embed

/-- A relationship with a new key links the part it leads to. -/
theorem ends_relate (ready : w.Ready base) {root : NodeId} {e : Embedding} {target : String}
    (here : e.part = w.session.part)
    (knows : w.Knows (Path.relationships w.session.part) root)
    (new : some e.key ∉ w.package.forest.relationshipIds root)
    (leads : Path.join (Path.folder w.session.part) target = e.file) :
    Ends Serve setup (edit (·.relate root e.key e.kind target)) w fun _ w' =>
      e.Linked w'.package := by
  obtain ⟨t,known,rfl⟩ := knows
  have step := Serve.relate e.kind target ready.direct known new
  have inside := (ready.sound.tree _ t known).1
  have entered := Forest.relate_of_new w.package.forest t.root new e.kind target
  have unmatched : (w.package.forest.links t.root).filter
      (fun a => a.get? (.bare "Id") == some e.key) = [] := by
    rw [List.filter_eq_nil_iff]
    intro a member same
    rw [Forest.relationshipIds_eq] at new
    exact new (List.mem_map.mpr ⟨a,member,eq_of_beq same⟩)
  refine ⟨_,?_,ReflTransGen.single step,t,target,here ▸ known,?_,here ▸ leads⟩
  · simp only
    rw [show w.session.package.forest.relate t.root e.key e.kind target = _ from entered]
    rfl
  · have links := Forest.entries_addEntry ready.sound.sorted inside.1
      (ready.sound.serve step).sorted (.within relationshipsSpace "Relationship")
    rw [if_pos rfl] at links
    refine (congrArg _ links).trans ?_
    rw [List.filter_append]
    refine (congrArg (· ++ _) unmatched).trans ?_
    simp [Forest.link,Attributes.get?_cons]

theorem knows_write {name file : String} {root : NodeId} {data : ByteArray} {w' : World}
    (knows : w.Knows name root) (markup : IsMarkup name) (embedded : IsEmbedded file)
    (written : w'.package = w.package.write file data) : w'.Knows name root := by
  obtain ⟨t,known,same⟩ := knows
  have different : name ≠ file := by
    rintro rfl
    exact markup.not_isEmbedded embedded
  refine ⟨t,?_,same⟩
  rw [written,lookup_trees_write,if_neg different,known]

/-- What is embedded, linked and typed is shown by the element that is given back. -/
private theorem ends_finish {e : Embedding} (pending : w.pending = some e)
    (here : e.part = w.session.part) (linked : e.Linked w.package) (typed : e.Typed setup.settings w.package)
    {level : Level} {message : String} {extent : Except Fault Extent} {shown : Extent → Element}
    (shows : ∀ extent, shownBy (shown extent) = [(e.shape,e.key)])
    (numbered : ∀ extent, numbersBy (shown extent) = (numeral? (toString w.number)).toList)
    (kind : ∀ extent, (shown extent).name = paragraphName)
    (closed : ∀ extent, Closed (shown extent))
    (tableless : ∀ extent, Lacks tableName (shown extent)) :
    Ends (Stock setup) setup (do
      log level message
      let extent ← Generation.ofExcept extent
      return shown extent) w fun shown w' => w'.Awaits setup.settings shown := by
  apply Ends.of_bind (ends_packaged_log level message).stocked
  rintro _ w' moves ⟨logged,serves⟩
  apply Ends.of_given
  intro extent _
  apply Ends.of_pure
  refine ⟨⟨e,serves.pending_eq.trans pending,(Stocks.part_eq moves).symm ▸ here,?_,?_,
    shows extent⟩,serves.number_eq.symm ▸ numbered extent,kind extent,closed extent,
    tableless extent⟩
  · rw [logged]
    exact linked
  · rw [logged]
    exact typed

/-- What is stored as an image is pending afterwards. -/
theorem ends_image (ready : w.Ready base) {data : ByteArray} {address : String}
    (fetched : setup.network.fetch setup.settings address = .ok data) (extension : String)
    (width height : Value) :
    Ends (Stock setup) setup (image data extension width height) w fun shown w' =>
      w'.Awaits setup.settings shown := by
  unfold image
  apply Ends.of_look_setup
  extract_lets s key
  apply Ends.of_given
  rintro ⟨stored,detected⟩ _
  dsimp -zeta only
  extract_lets file store
  have ends_store (w₁ : World) (ready₁ : w₁.Ready base) : Ends (Stock setup) setup (store ()) w₁
      fun shown w' => w'.Awaits setup.settings shown := by
    have direct := ready₁.direct
    simp -zeta only [store]
    apply Ends.of_look
    apply Ends.of_bind ((ends_relationshipsOf ready₁.sound direct).widen (serve_le_stock setup))
    intro links w₂ moves₂ knows₂
    have ready₂ := ready₁.stocks moves₂
    rw [← Stocks.part_eq moves₂] at direct knows₂
    apply Ends.of_look
    extract_lets folder part
    apply Ends.of_look
    apply Ends.of_look
    extract_lets n finish
    obtain ⟨absent,new⟩ : w₂.package.hasPart (part n) = false ∧
        some (key n) ∉ w₂.package.forest.relationshipIds links :=
      nextNumber_free w₂.package links w₂.session.images (imagePart_injective direct stored)
        (key_injective s.imageBase)
    have more : w₂.session.images < n := lt_nextNumber w₂.package links w₂.session.images part key
    let e : Embedding := ⟨w₂.session.part,.image,key n,part n,data⟩
    have embedded : IsEmbedded e.file := isEmbedded_imagePart direct stored n
    have leads : Path.join folder ("media/" ++ file n) = e.file := join_imageTarget direct stored n
    have extension : e.extension stored := by
      refine ⟨("word/media/".toList ++ "image".toList) ++ n.repr.toList,?_⟩
      rw [show e.file = _ from imagePart_eq direct stored n,String.toList_append,toList_imageFile]
      simp
    clear_value n
    -- the data is stored
    have stores : Stock setup w₂ _ := .store (fun scope => Move.store e (Counts.image more) embedded
      absent ⟨address,fetched⟩) rfl
    apply Ends.of_bind (Ends.of_modify (fun _ w' => w'.pending = some e ∧
      w'.number = s.imageBase + n ∧ w'.package = w₂.package.write e.file e.data) _ rfl stores
        ⟨rfl,rfl,rfl⟩)
    rintro _ w₃ moves₃ ⟨pending₃,number₃,written⟩
    have ready₃ := ready₂.stocks moves₃
    have here₃ : w₃.session.part = w₂.session.part := Stocks.part_eq moves₃
    -- the relationship is added
    have related : Ends Serve setup (edit (·.relate links e.key e.kind ("media/" ++ file n))) w₃
        fun _ w' => e.Linked w'.package := by
      apply ends_relate ready₃ here₃.symm
      · rw [here₃]
        exact knows_write knows₂ (Or.inr (Or.inr ⟨_,direct,rfl⟩)) embedded written
      · rw [written]
        exact new
      · rw [here₃]
        exact leads
    apply Ends.of_bind related.stocked
    rintro _ w₄ moves₄ ⟨linked₄,serves₄⟩
    have ready₄ := ready₃.stocks moves₄
    have pending₄ := serves₄.pending_eq.trans pending₃
    have number₄ := serves₄.number_eq.trans number₃
    -- the extension is declared
    apply Ends.of_bind (ends_contentTypes ready₄.sound).stocked
    rintro types w₅ moves₅ ⟨knows₅,serves₅⟩
    have ready₅ := ready₄.stocks moves₅
    split
    · next type usable =>
      apply Ends.of_bind (ends_ensureDefault ready₅.sound knows₅ stored type).stocked
      rintro _ w₆ moves₆ ⟨present,serves₆⟩
      obtain ⟨t,known,rfl⟩ := knows₅.serves ready₅.sound serves₆
      have moves₄₆ : Stocks setup w₄ w₆ := moves₅.trans moves₆
      apply ends_finish
      · exact serves₆.pending_eq.trans (serves₅.pending_eq.trans pending₄)
      · exact here₃.symm.trans (Stocks.part_eq (moves₄.trans moves₄₆)).symm
      · exact linked₄.legs ready₄.sound (Moves.legs (Stocks.moves moves₄₆))
      · exact ⟨t,known,stored,extension,Option.isSome_of_eq_some usable,present⟩
      · exact fun extent => shownBy_picture _ extent _
      · intro extent
        rw [numbersBy_picture,serves₆.number_eq.trans (serves₅.number_eq.trans number₄)]
      · exact fun _ => rfl
      · exact fun extent => closed_picture _ extent _
      · exact fun extent => lacks_table_picture _ extent _
    · exact Ends.of_stop
  split
  · apply Ends.of_bind (ends_packaged_log _ _).stocked
    intro _ w₁ moves _
    exact ends_store w₁ (ready.stocks moves)
  · exact ends_store _ ready

theorem ends_fetched (ready : w.Ready base) (address : String) (width height : Value) :
    Ends (Stock setup) setup (Embed.fetched address width height) w fun shown w' =>
      w'.Awaits setup.settings shown := by
  unfold fetched
  apply Ends.of_look_setup
  extract_lets s embed
  apply Ends.of_look
  have ends_embed : Ends (Stock setup) setup (embed ()) w fun shown w' => w'.Awaits setup.settings shown := by
    simp -zeta only [embed]
    apply Ends.of_given
    intro data answered
    apply Ends.of_bind (ends_packaged_log _ _).stocked
    intro _ w₁ moves₁ _
    apply Ends.of_given
    intro extension _
    exact ends_image (ready.stocks moves₁) answered extension width height
  split
  · exact Ends.of_stop
  · exact ends_embed

/-- What is stored as a chart is pending afterwards. -/
theorem ends_chart (ready : w.Ready base) (kind : String) (rows : Value) (title : Option String)
    (width height : Value) :
    Ends (Stock setup) setup (Embed.chart kind rows title width height) w fun shown w' =>
      w'.Awaits setup.settings shown := by
  unfold Embed.chart
  apply Ends.of_look_setup
  extract_lets s part key
  apply Ends.of_given
  intro root drawn
  apply Ends.of_look
  extract_lets data
  apply Ends.of_look
  apply Ends.of_bind ((ends_relationshipsOf ready.sound ready.direct).widen (serve_le_stock setup))
  intro links w₂ moves₂ knows₂
  have ready₂ := ready.stocks moves₂
  have direct := ready₂.direct
  rw [← Stocks.part_eq moves₂] at knows₂
  apply Ends.of_look
  apply Ends.of_look
  extract_lets n
  obtain ⟨absent,new⟩ : w₂.package.hasPart (part n) = false ∧
      some (key n) ∉ w₂.package.forest.relationshipIds links :=
    nextNumber_free w₂.package links w₂.session.charts chartPart_injective
      (key_injective s.chartBase)
  have more : w₂.session.charts < n := lt_nextNumber w₂.package links w₂.session.charts part key
  let e : Embedding := ⟨w₂.session.part,.chart,key n,part n,data⟩
  have embedded : IsEmbedded e.file := isEmbedded_chartPart n
  have leads : Path.join (Path.folder w₂.session.part) (Path.relative (part n)
      (Path.folder w₂.session.part)) = e.file := join_chartTarget direct n
  clear_value n
  -- the data is stored
  have stores : Stock setup w₂ _ := .store (fun scope => Move.store e (Counts.chart more) embedded
    absent ⟨w.package,kind,rows,title,root,drawn,rfl⟩) rfl
  apply Ends.of_bind (Ends.of_modify (fun _ w' => w'.pending = some e ∧
    w'.number = s.chartBase + n ∧ w'.package = w₂.package.write e.file e.data) _ rfl stores
      ⟨rfl,rfl,rfl⟩)
  rintro _ w₃ moves₃ ⟨pending₃,number₃,written⟩
  have ready₃ := ready₂.stocks moves₃
  have here₃ : w₃.session.part = w₂.session.part := Stocks.part_eq moves₃
  apply Ends.of_look
  extract_lets target
  -- the relationship is added
  have related : Ends Serve setup (edit (·.relate links e.key e.kind target)) w₃
      fun _ w' => e.Linked w'.package := by
    apply ends_relate ready₃ here₃.symm
    · rw [here₃]
      exact knows_write knows₂ (Or.inr (Or.inr ⟨_,direct,rfl⟩)) embedded written
    · rw [written]
      exact new
    · simp only [target]
      rw [here₃]
      exact leads
  apply Ends.of_bind related.stocked
  rintro _ w₄ moves₄ ⟨linked₄,serves₄⟩
  have ready₄ := ready₃.stocks moves₄
  have pending₄ := serves₄.pending_eq.trans pending₃
  -- the part gets its type
  apply Ends.of_bind (ends_contentTypes ready₄.sound).stocked
  rintro types w₅ moves₅ ⟨knows₅,serves₅⟩
  have ready₅ := ready₄.stocks moves₅
  have pending₅ := serves₅.pending_eq.trans pending₄
  have number₅ := serves₅.number_eq.trans (serves₄.number_eq.trans number₃)
  apply Ends.of_bind (ends_ensureOverride ready₅.sound knows₅
    (Or.inr ⟨e,pending₅,rfl,rfl⟩ : w₅.Owns (part n) chartType)).stocked
  rintro _ w₆ moves₆ ⟨typed,serves₆⟩
  obtain ⟨t,known,rfl⟩ := knows₅.serves ready₅.sound serves₆
  have moves₄₆ : Stocks setup w₄ w₆ := moves₅.trans moves₆
  apply ends_finish (serves₆.pending_eq.trans pending₅)
  · exact here₃.symm.trans (Stocks.part_eq (moves₄.trans moves₄₆)).symm
  · exact linked₄.legs ready₄.sound (Moves.legs (Stocks.moves moves₄₆))
  · exact ⟨t,known,typed⟩
  · exact fun extent => shownBy_chart _ extent _
  · intro extent
    rw [numbersBy_chart,serves₆.number_eq.trans number₅]
  · exact fun _ => rfl
  · exact fun extent => closed_chart _ extent _
  · exact fun extent => lacks_table_chart _ extent _

end Embed
end MailMerge
