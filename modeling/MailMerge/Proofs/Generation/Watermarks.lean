import MailMerge.Proofs.Embedding.Places
import MailMerge.Proofs.Generation.Ledger
import MailMerge.Proofs.Generation.Margins

/-! Watermarks. Before the first one is made, all numbers of drawings in the document and in the headers
are listed; each watermark gets a number that is not listed, and is listed from then on. So no drawing
there has the number of a new watermark.
-/
namespace MailMerge
open Docx Package Relation Generation

/-- A part is read, and the numbers of all drawings in its tree are listed. -/
structure World.Tallied (w : World) (used : List Int) (part : String) : Prop where
  read : ∃ root, w.Knows part root
  listed : ∀ id k, w.grove.Bears (w.Knows part) part id k → (k : Int) ∈ used

variable {setup : Setup} {w w' : World} {part : String} {used used' : List Int}

section
variable (sound : w.Sound) (direct : IsDirect part) (read : ∃ root, w.Knows part root) {id : NodeId}
  {k : Nat}
include sound direct read

/-- Serving the package brings no drawing below the root of a part that was read. -/
theorem Serve.bears_of_read (step : Serve w w') (bears : w'.grove.Bears (w'.Knows part) part id k) :
    w.grove.Bears (w.Knows part) part id k := by
  obtain ⟨_,t,known,_⟩ := read
  refine (step.bears sound direct bears ?_).resolve_right ?_
  · rintro _ ⟨t',known',rfl⟩
    have kept := sound.tree_leg (serve_le_leg default _ _ step) known
    exact Or.inl ⟨t,known,congrArg PartTree.root (Option.some.inj (kept.symm.trans known'))⟩
  · rintro ⟨_,_,reads⟩
    simp [reads.unread] at known

theorem Serves.live (steps : Serves w w') (live : w'.Live part id k) : w.Live part id k := by
  induction steps with
  | refl => exact live
  | tail steps step ih =>
    refine ih ((step.live (Serves.sound steps sound) direct live).resolve_right ?_)
    rintro ⟨_,_,reads⟩
    obtain ⟨_,knows⟩ := read
    obtain ⟨t,known,_⟩ := knows.serves sound steps
    simp [reads.unread] at known

end

namespace World.Tallied

theorem serves (tallied : w.Tallied used part) (sound : w.Sound) (direct : IsDirect part)
    (steps : Serves w w') : w'.Tallied used part := by
  induction steps with
  | refl => exact tallied
  | tail steps step ih =>
    have sound' := Serves.sound steps sound
    refine ⟨ih.read.imp fun _ knows => knows.serves sound' (ReflTransGen.single step),?_⟩
    exact fun id k bears => ih.listed id k (step.bears_of_read sound' direct ih.read bears)

theorem mono (tallied : w.Tallied used part) (more : used ⊆ used') : w.Tallied used' part :=
  ⟨tallied.read,fun id k bears => more (tallied.listed id k bears)⟩

end World.Tallied

namespace Fill

/-- The numbers of all drawings in a tree are found. -/
theorem mem_drawingNumbers {f : Forest} {root : NodeId} {numbers : List Nat}
    (found : drawingNumbers f root = .ok numbers) {id : NodeId} (inside : id ∈ f.tree root) {k : Nat}
    (numbered : f.seen number? id = some k) : k ∈ numbers := by
  unfold drawingNumbers at found
  simp only [Forest.seen,number?] at numbered
  split at numbered
  · next named =>
    obtain ⟨text,given,read⟩ := Option.bind_eq_some_iff.mp numbered
    unfold numeral? at read
    split at read
    · next digits =>
      have listed : text ∈ ((f.named root (place "docPr")).map fun id =>
          (f.attribute? id (.bare "id")).getD "").filter fun id =>
            id != "" && id.toList.all Text.isDigitLike := by
        refine List.mem_filter.mpr ⟨List.mem_map.mpr ⟨id,?_,?_⟩,digits⟩
        · exact List.mem_filter.mpr ⟨inside,beq_iff_eq.mpr named⟩
        · rw [Forest.attribute?,given,Option.getD_some]
      obtain ⟨n,member,step⟩ := exists_of_mem_mapM found listed
      obtain ⟨z,reading,same⟩ := Option.map_eq_some_iff.mp read
      simp only [reading,Except.ok.injEq] at step
      exact same ▸ step ▸ member
    · simp at read
  · simp at numbered

theorem ends_usedNumbers (sound : w.Sound) {parts : List String}
    (direct : ∀ part ∈ parts, IsDirect part) :
    Ends (Tracked Serve setup) setup (usedNumbers parts) w fun used w' =>
      ∀ part ∈ parts, w.package.hasPart part = true → w'.Tallied used part := by
  induction parts generalizing w with
  | nil => exact Ends.of_pure (by simp)
  | cons part parts ih =>
    obtain ⟨direct_part,direct_parts⟩ := List.forall_mem_cons.mp direct
    unfold usedNumbers
    apply Ends.of_then (tracks_root? sound (Or.inl direct_part))
    rintro found w₁ serves₁ ⟨known,missing⟩
    have sound₁ := Serves.sound serves₁ sound
    extract_lets rest
    have ends_rest (here : List Nat)
        (tallied : w.package.hasPart part = true → w₁.Tallied (here.map Int.ofNat) part) :
        Ends (Tracked Serve setup) setup (rest here) w₁ fun used w' =>
          ∀ other ∈ part :: parts, w.package.hasPart other = true → w'.Tallied used other := by
      simp -zeta only [rest]
      apply Ends.of_then (ih sound₁ direct_parts)
      intro later w₂ serves₂ tallied₂
      apply Ends.of_pure
      intro other member held
      rcases List.mem_cons.mp member with rfl | member
      · exact ((tallied held).serves sound₁ direct_part serves₂).mono
          (List.subset_append_left _ _)
      · have held₁ := (Serves.moves setup Scope.all serves₁).legs.hasPart sound held
        exact (tallied₂ other member held₁).mono (List.subset_append_right _ _)
    split
    · next root =>
      have knows := known root rfl
      apply Ends.of_look_forest
      apply Ends.of_given
      intro here drawn
      refine ends_rest here fun _ => ⟨⟨root,knows⟩,?_⟩
      rintro id k ⟨_,numbered,r,⟨t,read,rfl⟩,path⟩
      obtain ⟨t',read',rfl⟩ := knows
      obtain rfl := Option.some.inj (read'.symm.trans read)
      have inside := (Forest.mem_tree_iff sound₁.sorted).mpr path
      exact List.mem_map_of_mem (mem_drawingNumbers drawn inside numbered)
    · refine ends_rest [] fun held => ?_
      simp [missing rfl] at held

/-- The number of the next watermark is free, as there are more numbers than are taken. -/
theorem freeWatermark_free (base : Int) (used : List Int) (start : Nat) :
    base + freeWatermark base used (used.length + 1) start ∉ used := by
  have some_free : ∃ n, start ≤ n ∧ n < start + (used.length + 1) ∧
      used.contains (base + n) = false := by
    by_contra none_free
    push Not at none_free
    have taken : ∀ n ∈ List.range' start (used.length + 1), base + (n : Int) ∈ used := by
      intro n member
      obtain ⟨least,most⟩ := List.mem_range'_1.mp member
      simpa using none_free n least most
    have length_le := Embed.length_le_of_named List.nodup_range' (fun n : Nat => base + (n : Int))
      (fun a b same => Int.ofNat.inj (Int.add_left_cancel same)) taken
    rw [List.length_range'] at length_le
    omega
  have free := Embed.firstFree_free (fun n => used.contains (base + n)) _ start some_free
  simpa [freeWatermark] using free

/-- The document and the headers are read and the numbers of their drawings are listed. -/
def AllTallied (w : World) (s : Settings) (used : List Int) : Prop :=
  ∀ part ∈ w.package.numberedParts s, w.Tallied used part

/-- The numbers of drawings that may get a place are listed as well. -/
structure AllListed (w : World) (s : Settings) (used : List Int) : Prop where
  read : ∀ part ∈ w.package.numberedParts s, ∃ root, w.Knows part root
  listed : ∀ part ∈ w.package.numberedParts s, ∀ id k, w.Live part id k → (k : Int) ∈ used

theorem AllListed.tallied {s : Settings} (listed : AllListed w s used) : AllTallied w s used :=
  fun part member => ⟨listed.read part member,fun id k bears =>
    listed.listed part member id k bears.live⟩

namespace AllTallied

variable {s : Settings}

/-- The next number that is not listed is free. -/
theorem free (tallied : AllTallied w s used) {n : Nat} (more : 1 ≤ n)
    (new : s.watermarkBase + n ∉ used) : w.Free s (s.watermarkBase + n) where
  beyond := Int.lt_add_of_pos_right _ (by omega)
  read part member := (tallied part member).read
  new part member id k bears same := new (same ▸ (tallied part member).listed id k bears)

/-- The number of a watermark that is planted is listed. -/
theorem plant (tallied : AllTallied w s used) (sorted : w.grove.Sorted) {text : Value}
    {number : Int} {e : Xml.Element} (drawn : watermark s text (toString number) = .ok e) :
    AllListed (w.withGrove (w.grove.plant w.session.part e)) s (number :: used) where
  read part member := (tallied part member).read
  listed part member id k live := by
    rcases Grove.Bears.of_plant sorted live fun r => Or.inl with former | ⟨_,_,counts⟩
    · exact List.mem_cons_of_mem _ ((tallied part member).listed id k former)
    · rw [numbersBy_watermark drawn,Option.mem_toList] at counts
      exact List.mem_cons.mpr (Or.inl (eq_of_numeral?_toString counts))

end AllTallied

section
variable (usual : setup.settings.headerPattern = ({} : Settings).headerPattern)
include usual

theorem AllTallied.serves (tallied : AllTallied w setup.settings used) (sound : w.Sound)
    (steps : Serves w w') : AllTallied w' setup.settings used := by
  intro part member
  rw [(Serves.moves setup Scope.all steps).legs.numberedParts_eq usual sound] at member
  exact (tallied part member).serves sound (isDirect_of_mem_numberedParts usual member) steps

theorem AllListed.serves (listed : AllListed w setup.settings used) (sound : w.Sound)
    (steps : Serves w w') : AllListed w' setup.settings used := by
  have parts_eq := (Serves.moves setup Scope.all steps).legs.numberedParts_eq usual sound
  refine ⟨?_,?_⟩ <;> intro part member <;> rw [parts_eq] at member
  · exact (listed.read part member).imp fun _ knows => knows.serves sound steps
  · intro id k live
    have direct := isDirect_of_mem_numberedParts usual member
    exact listed.listed part member id k
      (Serves.live sound direct (listed.read part member) steps live)

theorem ends_watermarkPart (sound : w.Sound) (tallied : AllTallied w setup.settings used)
    (text : Value) {part : String} (direct : IsDirect part) :
    Ends (Stage setup) setup (watermarkPart text used part) w fun used w' =>
      w'.Sound ∧ AllTallied w' setup.settings used := by
  unfold watermarkPart
  apply Ends.of_then ((tracks_root? sound (Or.inl direct)).retain (serve_le_leg setup))
  rintro found w₁ - ⟨⟨known,-⟩,serves₁⟩
  have sound₁ := Serves.sound serves₁ sound
  have tallied₁ := tallied.serves usual sound serves₁
  split
  · exact Ends.of_pure ⟨sound₁,tallied₁⟩
  · next root =>
    obtain ⟨t,read,rfl⟩ := known root rfl
    -- work goes on in the header
    let w₂ : World := { w₁ with session := { w₁.session with part := part } }
    have leg₂ : Leg setup w₁ w₂ := Leg.goTo part
    apply Ends.of_then (Ends.of_modify (fun _ w' => w' = w₂) w₂ rfl
      (.of_beside leg₂ (.of_same rfl rfl rfl)) rfl)
    rintro _ _ - rfl
    apply Ends.of_look_setup
    apply Ends.of_look
    extract_lets n number
    let w₃ : World := { w₂ with session := { w₂.session with watermarks := n } }
    have leg₃ : Leg setup w₂ w₃ :=
      serve_le_leg setup _ _ (Serve.note w₂.package.journal w₂.session.outcomes n)
    apply Ends.of_then (Ends.of_modify (fun _ w' => w' = w₃) w₃ rfl
      (.of_beside leg₃ (.of_same rfl rfl rfl)) rfl)
    rintro _ _ - rfl
    have placed₃ : w₃.Placed := ⟨(sound₁.leg leg₂).leg leg₃,direct,t,read⟩
    have tallied₃ : AllTallied w₃ setup.settings used := fun part member =>
      ⟨(tallied₁ part member).read,(tallied₁ part member).listed⟩
    have owned₃ : w₃.Owned t.root := (placed₃.sound.tree part t read).1
    -- the watermark is planted
    have new : number ∉ used := freeWatermark_free setup.settings.watermarkBase used _
    have more : 1 ≤ n := Nat.le_trans (Nat.le_add_left 1 _)
      (Embed.le_firstFree _ _ (w₂.session.watermarks + 1))
    apply Ends.of_given
    intro element drawn
    let w₄ : World := w₃.withGrove (w₃.grove.plant part element)
    have mark : Leg setup w₃ w₄ := Leg.mark direct drawn (tallied₃.free more new)
    have stage : Stage setup w₃ w₄ := .of_beside mark (beside_plant placed₃.sound mark rfl)
    have plants : Ends (Stage setup) setup (plant element) w₃ fun id w' =>
        w' = w₄ ∧ id = (w₃.package.forest.plant element).1 :=
      ⟨w₄,rfl,ReflTransGen.single stage,rfl,rfl⟩
    apply Ends.of_then plants
    rintro id _ - ⟨rfl,rfl⟩
    have planted : w₃.Planted w₄ _ element := planted_plant placed₃ element rfl rfl
    have sound₄ := placed₃.sound.leg mark
    have listed₄ : AllListed w₄ setup.settings (number :: used) :=
      tallied₃.plant placed₃.sound.sorted drawn
    apply Ends.of_then ((tracks_log _ _).retain (serve_le_leg setup))
    rintro _ w₅ - ⟨logged,serves₅⟩
    have moves₅ : Moves setup Scope.all w₄ w₅ := Serves.moves setup Scope.all serves₅
    have placed₅ := (⟨sound₄,direct,t,read⟩ : w₄.Placed).moves moves₅
    have listed₅ := listed₄.serves usual sound₄ serves₅
    have owned₄ : w₄.Owned t.root := (sound₄.tree part t read).1
    have loose : w₅.package.forest.Loose (w₃.package.forest.plant element).1 := by
      rw [logged]
      exact planted.loose
    have last : (w₃.package.forest.plant element).1 + 1 = w₅.package.forest.nodes.size := by
      rw [logged]
      exact planted.last
    -- it is put in front of the header
    apply Ends.of_then (ends_putFirst placed₅ (owned₄.moves moves₅) (planted.owned.moves moves₅)
      (moves₅.legs.later.deeper owned₄ planted.owned (planted.deeper _ owned₃)) loose last)
    rintro _ w₆ - ⟨placed₆,-,-,g,put,rfl⟩
    have listed₆ : AllListed (w₅.withGrove g) setup.settings (number :: used) :=
      ⟨listed₅.read,fun part member id k live =>
        listed₅.listed part member id k (put.live placed₅.sound.sorted live)⟩
    apply Ends.of_then ((ends_recording _ _ _ _).retain (serve_le_leg setup))
    rintro _ w₇ - ⟨-,serves₇⟩
    exact Ends.of_pure ⟨Serves.sound serves₇ placed₆.sound,
      (listed₆.serves usual placed₆.sound serves₇).tallied⟩

theorem ends_watermarks (sound : w.Sound) (read : ∃ root, w.Knows documentPart root)
    (text : Value) :
    Ends (Stage setup) setup (watermarks text) w fun _ w' => w'.Sound := by
  unfold watermarks
  apply Ends.of_look
  apply Ends.of_look_setup
  apply Ends.of_given
  intro parts found
  have direct := isDirect_of_mem_find (Or.inl usual) found
  split
  · exact ends_noPart sound _ _ _ _
  · apply Ends.of_then ((ends_usedNumbers sound
      (List.forall_mem_cons.mpr ⟨isDirect_document,direct⟩)).retain (serve_le_leg setup))
    rintro used w₁ - ⟨tallied,serves₁⟩
    have parts_eq : w.package.numberedParts setup.settings = documentPart :: parts := by
      rw [numberedParts,show w.package.find setup.settings.headerPattern = .ok parts from found]
      rfl
    have tallied₁ : AllTallied w₁ setup.settings used := by
      intro part member
      rw [(Serves.moves setup Scope.all serves₁).legs.numberedParts_eq usual sound] at member
      refine tallied part (parts_eq ▸ member) ?_
      by_cases document : part = documentPart
      · obtain ⟨_,t,known,_⟩ := read
        exact document ▸ (sound.tree documentPart t known).2.2
      · exact hasPart_of_mem_numberedParts usual member document
    apply Ends.of_then (Ends.of_loop (fun used w' => w'.Sound ∧ AllTallied w' setup.settings used)
      ⟨Serves.sound serves₁ sound,tallied₁⟩ ?_)
    · rintro used' w₂ - ⟨sound₂,-⟩
      apply (ends_moved Scope.all (ends_log _ _)).mono
      rintro _ w₃ - ⟨_,moves₃⟩
      exact (Moves.legs moves₃).sound sound₂
    · rintro part member used' w' - ⟨sound',tallied'⟩
      apply Ends.of_then (ends_watermarkPart usual sound' tallied' text (direct part member))
      intro used'' w'' _ holds
      exact Ends.of_pure ⟨_,rfl,holds⟩

end

end Fill
end MailMerge
