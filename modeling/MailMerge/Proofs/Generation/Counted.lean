import MailMerge.Proofs.Generation.Confined
import MailMerge.Proofs.Generation.Numbered
import MailMerge.Proofs.Generation.Tacit
import MailMerge.Proofs.Package.Relations

/-! The numbers of images and charts. Each gets the least number after the last one whose part and whose key are
free, under which it becomes a part and gets a relationship; nothing else happens to parts and relationships,
manifests apart that were missing. Numbers grow during a run, whichever part is at work.
-/
namespace MailMerge
open Xml Docx Package Relation Generation Forest

variable {setup : Setup} {s : Session} {α β : Type} {wanted opened : String → Prop} {p q : Package}

namespace Generation

/-- A step that works on the package only, and there does no more than provide manifests. -/
def Supplying (setup : Setup) (wanted opened : String → Prop) (step : Generation α) (s : Session)
    (post : α → Package → Prop) : Prop :=
  ∃ p, ending (step setup s) = { s with package := p } ∧ Provides wanted opened s.package p ∧
    ∀ a s', step setup s = .ok a s' → post a p

namespace Supplying

variable {post : α → Package → Prop}

theorem of_bind {step : Generation α} {next : α → Generation β} {mid : α → Package → Prop}
    {post : β → Package → Prop} (first : Supplying setup wanted opened step s mid)
    (second : ∀ a p, p.Coherent → mid a p →
      Supplying setup wanted opened (next a) { s with package := p } post) :
    Supplying setup wanted opened (step >>= next) s post := by
  obtain ⟨p,ended,provides,holds⟩ := first
  unfold Supplying
  rw [bind_apply]
  cases ran : step setup s with
  | ok a s₁ =>
    rw [ran] at ended
    obtain rfl : s₁ = { s with package := p } := ended
    obtain ⟨q,ended',provides',holds'⟩ := second a p provides.coherent (holds a _ ran)
    exact ⟨q,ended',provides.trans provides',holds'⟩
  | error fault s₁ =>
    rw [ran] at ended
    exact ⟨p,ended,provides,nofun⟩

theorem of_onPackage {operation : Packaging α} (providing : Providing wanted opened operation s.package post) :
    Supplying setup wanted opened (onPackage operation) s post := by
  unfold Supplying onPackage
  unfold Providing at providing
  cases ran : operation s.package with
  | ok a q =>
    rw [ran] at providing
    refine ⟨q,rfl,providing.1,fun a' s' same => ?_⟩
    obtain ⟨rfl,-⟩ := EStateM.Result.ok.inj same
    exact providing.2
  | error fault q =>
    rw [ran] at providing
    exact ⟨q,rfl,providing,nofun⟩

theorem of_pure (coherent : s.package.Coherent) (a : α) :
    Supplying setup wanted opened (pure a) s fun _ _ => True :=
  ⟨s.package,rfl,.refl coherent,fun _ _ _ => trivial⟩

theorem of_throw (coherent : s.package.Coherent) (fault : Fault) :
    Supplying setup wanted opened (throw fault) s post :=
  ⟨s.package,rfl,.refl coherent,nofun⟩

theorem of_ofExcept (coherent : s.package.Coherent) (result : Except Fault α) :
    Supplying setup wanted opened (ofExcept result) s fun _ _ => True := by
  cases result with
  | ok a => exact of_pure coherent a
  | error fault => exact of_throw coherent fault

end Supplying
end Generation

/-- A package in which data was embedded for the part at work of a session, under the least number after the
last one that is free. -/
structure Session.Embeds (s : Session) (last : Nat) (part key target : Nat → String) (kind : String)
    (data : ByteArray) (n : Nat) (q : Package) : Prop where
  least : IsLeast {m | last < m ∧ s.package.hasPart (part m) = false ∧ some (key m) ∉ s.package.keys s.part} n
  names_eq : ∃ before after : List String, q.names = s.package.names ++ before ++ part n :: after ∧
    (before ++ after).Nodup ∧ ∀ name ∈ before ++ after, s.package.hasPart name = false ∧
      (name = Path.relationships s.part ∨ name = typesPart)
  stored : q.part? (part n) = some data
  part?_eq : ∀ name, s.package.hasPart name = true → q.part? name = s.package.part? name
  relations_eq : q.relations s.part = s.package.relations s.part ++ [link (key n) kind (target n)]
  others : ∀ other, Path.relationships other ≠ Path.relationships s.part →
    Path.relationships other ≠ part n → q.relations other = s.package.relations other

section
variable {links : NodeId} {part key target : Nat → String} {name kind : String} {data : ByteArray} {n : Nat}

/-- The manifests that are made for a part. -/
abbrev Manifests (part : String) (name : String) : Prop :=
  name = Path.relationships part ∨ name = typesPart

private theorem relations_write {other : String} (apart : Path.relationships other ≠ name) :
    (p.write name data).relations other = p.relations other :=
  relations_congr rfl ((p.lookup_trees_write name _ data).trans (if_neg apart))
    ((p.part?_write name _ data).trans (if_neg apart)) fun _ _ => rfl

/-- A package with one more relationship. -/
private def Package.linked (p : Package) (links : NodeId) (key kind target : String) : Package :=
  { p with forest := p.forest.relate links key kind target }

/-- A new key is added to the relationships of one part. -/
private theorem relations_linked (coherent : p.Coherent) {part : String} {key : String}
    (used : p.manifest? (Path.relationships part) = some links)
    (new : some key ∉ p.forest.relationshipIds links) (kind target : String) :
    (p.linked links key kind target).relations part = p.relations part ++ [link key kind target] ∧
      ∀ other, Path.relationships other ≠ Path.relationships part →
        (p.linked links key kind target).relations other = p.relations other := by
  have coherent' : (p.linked links key kind target).Coherent :=
    (coherent.amended_relate (Or.inr used) key kind target).coherent
  have used' : (p.linked links key kind target).manifest? (Path.relationships part) = some links := used
  refine ⟨?_,fun other apart => ?_⟩
  · obtain ⟨owner,level,arranged⟩ := coherent
    obtain ⟨_,_,arranged'⟩ := coherent'
    have entered : (p.linked links key kind target).forest = _ := relate_of_new p.forest links new kind target
    have sorted' := arranged'.sorted
    rw [entered] at sorted'
    rw [relations_of_manifest used,relations_of_manifest used',Forest.links,entered,
      entries_addEntry arranged.sorted (arranged.seat (Or.inr used)).inside sorted',if_pos rfl,Forest.links]
  · obtain ⟨owner,level,arranged⟩ := coherent
    have seat := arranged.seat (Or.inr used)
    obtain ⟨_,_,reshaped⟩ := reshaped_relate arranged.sorted seat.inside seat.nodup key kind target
    refine relations_congr rfl rfl rfl fun root seated => ?_
    have seat' := arranged.seat seated
    have different : owner root ≠ owner links := by
      rw [seat'.owned,seat.owned]
      exact fun same => apart (Prod.mk.inj same).1
    exact entries_congr arranged.sorted reshaped.sorted
      (fun m inside owned => reshaped.node_eq m inside (owned ▸ different)) seat'.inside rfl _

/-- The manifest of the part at work is found. -/
private theorem provides_found (coherent : s.package.Coherent)
    (found : Packaging.relationshipsOf s.part s.package = .ok links p) :
    Provides (Manifests s.part) (fun _ => True) s.package p ∧
      p.manifest? (Path.relationships s.part) = some links := by
  have providing : Providing (Manifests s.part) (fun _ => True) (Packaging.relationshipsOf s.part) s.package _ :=
    providing_relationshipsOf coherent s.part (Or.inl rfl) (Or.inr rfl) trivial trivial
  unfold Providing at providing
  rw [found] at providing
  exact providing

private theorem coherent_linked (coherent : s.package.Coherent)
    (found : Packaging.relationshipsOf s.part s.package = .ok links p) (name : String) (data : ByteArray)
    (key kind target : String) : ((p.write name data).linked links key kind target).Coherent := by
  obtain ⟨first,used⟩ := provides_found coherent found
  have used' : (p.write name data).manifest? (Path.relationships s.part) = some links := used
  exact ((first.coherent.write name data).1.amended_relate (Or.inr used') key kind target).coherent

/-- Data is stored and linked, and what else is done provides manifests. -/
private theorem embeds (coherent : s.package.Coherent)
    (found : Packaging.relationshipsOf s.part s.package = .ok links p) (last : Nat)
    (part_injective : Function.Injective part) (key_injective : Function.Injective key)
    (aside : ∀ n, part n ≠ Path.relationships s.part ∧ part n ≠ typesPart)
    (chosen : n = Embed.nextNumber p links last part key)
    (rest : Provides (Manifests s.part) opened
      ((p.write (part n) data).linked links (key n) kind (target n)) q) :
    s.Embeds last part key target kind data n q := by
  obtain ⟨first,used⟩ := provides_found coherent found
  obtain ⟨before,names₁,nodup₁,missing₁⟩ := first.names_eq
  obtain ⟨after,names₃,nodup₃,missing₃⟩ := rest.names_eq
  have held {name : String} (apart : name ≠ Path.relationships s.part ∧ name ≠ typesPart) :
      p.hasPart name = s.package.hasPart name := by
    rw [Bool.eq_iff_iff,hasPart_eq_true_iff,hasPart_eq_true_iff,names₁,List.mem_append]
    refine or_iff_left fun member => ?_
    rcases (missing₁ name member).2 with same | same
    · exact apart.1 same
    · exact apart.2 same
  have keys_eq : p.forest.relationshipIds links = s.package.keys s.part := by
    rw [relationshipIds_eq,← relations_of_manifest used,first.relations_eq,Package.keys]
  have least := Embed.isLeast_nextNumber p links last part_injective key_injective
  simp only [keys_eq,held (aside _),← chosen] at least
  obtain ⟨-,absent,new⟩ := least.1
  have absent' : p.hasPart (part n) = false := (held (aside n)).trans absent
  obtain ⟨written,-⟩ := first.coherent.write (part n) data
  have new' : some (key n) ∉ (p.write (part n) data).forest.relationshipIds links := keys_eq ▸ new
  have used' : (p.write (part n) data).manifest? (Path.relationships s.part) = some links := used
  obtain ⟨related,others⟩ := relations_linked written used' new' kind (target n)
  generalize linked_eq : (p.write (part n) data).linked links (key n) kind (target n) = r
    at rest related others names₃ missing₃
  have names₂ : r.names = p.names ++ [part n] := by
    rw [← linked_eq]
    exact map_store_of_missing data (notMem_names absent')
  have content (name : String) : r.part? name = if name = part n then some data else p.part? name := by
    rw [← linked_eq]
    exact p.part?_write (part n) name data
  have stored : r.part? (part n) = some data := (content _).trans (if_pos rfl)
  have held₂ {name : String} (here : p.hasPart name = true) : r.hasPart name = true ∧ r.part? name = p.part? name := by
    have different : name ≠ part n := by
      rintro rfl
      simp [absent'] at here
    have same := (content name).trans (if_neg different)
    exact ⟨(hasPart_congr same).trans here,same⟩
  refine ⟨least,⟨before,after,?_,?_,?_⟩,?_,fun name here => ?_,?_,fun other apart apart' => ?_⟩
  · rw [names₃,names₂,names₁]
    simp
  · refine List.nodup_append.mpr ⟨nodup₁,nodup₃,fun name here other there same => ?_⟩
    refine notMem_names (missing₃ other there).1 ?_
    rw [names₂,names₁,← same]
    exact List.mem_append_left _ (List.mem_append_right _ here)
  · intro name member
    rcases List.mem_append.mp member with here | there
    · exact missing₁ name here
    · obtain ⟨gone,asked⟩ := missing₃ name there
      refine ⟨Bool.eq_false_iff.mpr fun here => ?_,asked⟩
      exact Bool.false_ne_true (gone.symm.trans (held₂ (first.hasPart here)).1)
  · exact (rest.part?_eq _ (hasPart_iff.mpr ⟨data,stored⟩)).trans stored
  · obtain ⟨present,same⟩ := held₂ (first.hasPart here)
    exact (rest.part?_eq name present).trans (same.trans (first.part?_eq name here))
  · rw [rest.relations_eq,related,relations_of_manifest used',← first.relations_eq,relations_of_manifest used]
    rfl
  · rw [rest.relations_eq,others other apart,relations_write apart',first.relations_eq]

section
variable (coherent : s.package.Coherent)
  (found : Packaging.relationshipsOf s.part s.package = .ok links p) (last : Nat)
  (part_injective : Function.Injective part) (key_injective : Function.Injective key)
  (aside : ∀ n, part n ≠ Path.relationships s.part ∧ part n ≠ typesPart)
  {step : Generation Element} {rest : Nat → Generation Element} (counted : Nat → Session)
  (ran : ∀ n, n = Embed.nextNumber p links last part key → step setup s = rest n setup
    { counted n with package := (p.write (part n) data).linked links (key n) kind (target n) })
  (supplying : ∀ n (s' : Session), s'.package.Coherent →
    Supplying setup (Manifests s.part) (fun _ => True) (rest n) s' fun _ _ => True)
include coherent found part_injective key_injective aside ran supplying

/-- The same for a step, with the session that counts what is embedded. -/
private theorem exists_coherent_embeds : ∃ n q, ending (step setup s) = { counted n with package := q } ∧
    q.Coherent ∧ s.Embeds last part key target kind data n q := by
  obtain ⟨n,chosen⟩ : ∃ n, n = Embed.nextNumber p links last part key := ⟨_,rfl⟩
  have linked := coherent_linked coherent found (part n) data (key n) kind (target n)
  obtain ⟨q,ended,provides,-⟩ := supplying n
    { counted n with package := (p.write (part n) data).linked links (key n) kind (target n) } linked
  rw [← ran n chosen] at ended
  exact ⟨n,q,ended,provides.coherent,
    embeds coherent found last part_injective key_injective aside chosen provides⟩

private theorem exists_embeds : ∃ n q, ending (step setup s) = { counted n with package := q } ∧
    s.Embeds last part key target kind data n q := by
  obtain ⟨n,q,ended,-,embedded⟩ := exists_coherent_embeds coherent found last part_injective key_injective
    aside counted ran supplying
  exact ⟨n,q,ended,embedded⟩

end

end

namespace Embed

variable {links : NodeId}

/-- The key under which something is linked. -/
def keyOf (base : Int) (n : Nat) : String := s!"rId{base + n}"

section
variable {part : String} (coherent : s.package.Coherent)
include coherent

private theorem supplying_show (level : Level) (message : String) (extent : Except Fault Extent)
    (shown : Extent → Element) : Supplying setup (Manifests part) (fun _ => True) (do
      log level message
      let extent ← Generation.ofExcept extent
      return shown extent) s fun _ _ => True := by
  refine .of_bind (.of_onPackage (.of_log coherent)) fun _ q coherent _ => ?_
  exact .of_bind (.of_ofExcept (s := { s with package := q }) coherent extent) fun extent q coherent _ =>
    .of_pure (s := { s with package := q }) coherent (shown extent)

private theorem supplying_types : Supplying setup (Manifests part) (fun _ => True)
    (onPackage Packaging.contentTypes) s fun root q => q.Seated typesPart root :=
  .of_onPackage (providing_contentTypes coherent (Or.inr rfl) trivial)

/-- What is done after an image was stored and linked. -/
private def showImage (setup : Setup) (extension : String) (width height : Value) (n : Nat) :
    Generation Element := do
  let types ← onPackage Packaging.contentTypes
  match setup.settings.imageTypes.lookup extension with
  | some type => let _ ← onPackage (Packaging.ensureDefault types extension type)
  | none => throw (.breakdown .entry)
  log .info s!"Image added: {imageFile extension n}, ID: {keyOf setup.settings.imageBase n}"
  let extent ← Generation.ofExcept (extent setup.settings width height)
  return pictureParagraph (keyOf setup.settings.imageBase n) extent (toString (setup.settings.imageBase + n))

private theorem supplying_showImage (extension : String) (width height : Value) (n : Nat) :
    Supplying setup (Manifests part) (fun _ => True) (showImage setup extension width height n) s
      fun _ _ => True := by
  unfold showImage
  refine .of_bind (supplying_types coherent) fun types q coherent seated => ?_
  split
  · refine .of_bind (.of_onPackage (providing_ensureDefault coherent seated _ _)) fun _ q coherent _ => ?_
    exact supplying_show (s := { s with package := q }) coherent _ _ _ _
  · have stopped : Supplying setup (Manifests part) (fun _ => True) (throw (.breakdown .entry) : Generation PUnit)
        { s with package := q } fun _ _ => False := .of_throw coherent _
    exact .of_bind stopped fun _ _ _ holds => holds.elim

/-- What is done after a chart was stored and linked. -/
private def showChart (setup : Setup) (title : Option String) (width height : Value) (n : Nat) :
    Generation Element := do
  let s := setup.settings
  let types ← onPackage Packaging.contentTypes
  let _ ← onPackage (Packaging.ensureOverride types (chartPart n) chartType)
  log .info s!"Chart added: {chartPart n}, ID: {keyOf s.chartBase n}"
  let extent ← Generation.ofExcept (extent s (sizeOr width s.chartWidth) (sizeOr height s.chartHeight))
  return chartParagraph (keyOf s.chartBase n) extent ⟨toString (s.chartBase + n),s!"Chart {n}",titleOf s title⟩

private theorem supplying_showChart (title : Option String) (width height : Value) (n : Nat) :
    Supplying setup (Manifests part) (fun _ => True) (showChart setup title width height n) s
      fun _ _ => True := by
  unfold showChart
  refine .of_bind (supplying_types coherent) fun types q coherent seated => ?_
  refine .of_bind (.of_onPackage (providing_ensureOverride coherent seated _ _)) fun _ q coherent _ => ?_
  exact supplying_show (s := { s with package := q }) coherent _ _ _ _

end

section
variable (found : Packaging.relationshipsOf s.part s.package = .ok links p)
include found

private theorem linking : onPackage (Packaging.relationshipsOf s.part) setup s =
    .ok links { s with package := p } := by
  rw [onPackage,found]

private theorem storeImage_apply (data : ByteArray) (stored : String) (width height : Value) {n : Nat}
    (chosen : n = nextNumber p links s.images (imagePart s.part stored) (keyOf setup.settings.imageBase)) :
    storeImage setup.settings data stored width height setup s = showImage setup stored width height n setup { s with
      images := n
      package := (p.write (imagePart s.part stored n) data).linked links (keyOf setup.settings.imageBase n)
        imageRelation ("media/" ++ imageFile stored n) } := by
  subst chosen
  unfold storeImage
  refine (bind_ok (a := s) rfl).trans ?_
  exact bind_ok (linking found)

private theorem image_apply {extension : String}
    (known : (setup.settings.imageTypes.lookup extension).isSome = true) (data : ByteArray) (width height : Value)
    {n : Nat} (chosen : n = nextNumber p links s.images (imagePart s.part extension) (keyOf setup.settings.imageBase)) :
    image data extension width height setup s = showImage setup extension width height n setup { s with
      images := n
      package := (p.write (imagePart s.part extension n) data).linked links (keyOf setup.settings.imageBase n)
        imageRelation ("media/" ++ imageFile extension n) } := by
  have stored : Generation.ofExcept (imageExtension setup.settings data extension) setup s =
      .ok (extension,false) s := by
    rw [imageExtension,if_pos known]
    rfl
  rw [image_eq]
  refine (bind_ok (a := setup) rfl).trans ?_
  refine (bind_ok stored).trans ?_
  dsimp only
  rw [if_neg Bool.false_ne_true]
  exact storeImage_apply found data extension width height chosen

private theorem chart_apply {kind : String} {rows : Value} {title : Option String} {root : Element}
    (drawn : chartOf setup.settings kind rows title = .ok root) (width height : Value)
    {n : Nat} (chosen : n = nextNumber p links s.charts chartPart (keyOf setup.settings.chartBase)) :
    chart kind rows title width height setup s = showChart setup title width height n setup { s with
      charts := n
      package := (p.write (chartPart n) (Text.encode (chartText s.package root))).linked links
        (keyOf setup.settings.chartBase n) chartRelation (Path.relative (chartPart n) (Path.folder s.part)) } := by
  have built : Generation.ofExcept (chartOf setup.settings kind rows title) setup s = .ok root s := by
    rw [drawn]
    rfl
  subst chosen
  unfold chart
  refine (bind_ok (a := setup) rfl).trans ?_
  refine (bind_ok built).trans ?_
  refine (bind_ok (a := s) rfl).trans ?_
  refine (bind_ok (a := s) rfl).trans ?_
  exact bind_ok (linking found)

end

private theorem image_aside (part stored : String) (n : Nat) :
    imagePart part stored n ≠ Path.relationships part ∧ imagePart part stored n ≠ typesPart :=
  ⟨imagePart_ne_relationships part stored n,imagePart_ne_typesPart part stored n⟩

private theorem chart_aside (part : String) (n : Nat) :
    chartPart n ≠ Path.relationships part ∧ chartPart n ≠ typesPart :=
  ⟨chartPart_ne_relationships part n,chartPart_ne_typesPart n⟩

/-- Without its manifest nothing is embedded in a part. -/
private theorem provides_unfound (coherent : s.package.Coherent) {fault : Fault}
    (failed : Packaging.relationshipsOf s.part s.package = .error fault p) :
    Provides (Manifests s.part) (fun _ => True) s.package p := by
  have providing : Providing (Manifests s.part) (fun _ => True) (Packaging.relationshipsOf s.part) s.package _ :=
    providing_relationshipsOf coherent s.part (Or.inl rfl) (Or.inr rfl) trivial trivial
  unfold Providing at providing
  rw [failed] at providing
  exact providing

/-- An image is stored under the next free number, unless the manifest of the part at work cannot be had. -/
theorem storeImage_cases (coherent : s.package.Coherent) (data : ByteArray) (stored : String)
    (width height : Value) :
    (∃ q, ending (storeImage setup.settings data stored width height setup s) = { s with package := q } ∧
      Provides (Manifests s.part) (fun _ => True) s.package q) ∨
    ∃ n q, ending (storeImage setup.settings data stored width height setup s) =
        { s with images := n, package := q } ∧ q.Coherent ∧
      s.Embeds s.images (imagePart s.part stored) (keyOf setup.settings.imageBase)
        ("media/" ++ imageFile stored ·) imageRelation data n q := by
  cases found : Packaging.relationshipsOf s.part s.package with
  | error fault p =>
    have ran : storeImage setup.settings data stored width height setup s =
        .error fault { s with package := p } := by
      unfold storeImage
      exact (bind_ok (a := s) rfl).trans (bind_error (onPackage_error found))
    exact Or.inl ⟨p,congrArg ending ran,provides_unfound coherent found⟩
  | ok links p =>
    exact Or.inr (exists_coherent_embeds coherent found s.images (image_part_injective _ stored)
      (key_injective setup.settings.imageBase) (image_aside s.part stored) (fun n => { s with images := n })
      (fun _ chosen => storeImage_apply found data stored width height chosen)
      fun n s' coherent => supplying_showImage coherent stored width height n)

/-- A chart is stored under the next free number, unless it cannot be drawn or the manifest of the part at work
cannot be had. -/
theorem chart_cases (coherent : s.package.Coherent) (kind : String) (rows : Value) (title : Option String)
    (width height : Value) :
    (∃ q, ending (chart kind rows title width height setup s) = { s with package := q } ∧
      Provides (Manifests s.part) (fun _ => True) s.package q) ∨
    ∃ data n q, ending (chart kind rows title width height setup s) = { s with charts := n, package := q } ∧
      q.Coherent ∧ s.Embeds s.charts chartPart (keyOf setup.settings.chartBase)
        (fun n => Path.relative (chartPart n) (Path.folder s.part)) chartRelation data n q := by
  cases drawn : chartOf setup.settings kind rows title with
  | error fault =>
    have undrawn : Generation.ofExcept (chartOf setup.settings kind rows title) setup s = .error fault s := by
      rw [drawn]
      rfl
    have ran : chart kind rows title width height setup s = .error fault s := by
      unfold chart
      exact (bind_ok (a := setup) rfl).trans (bind_error undrawn)
    exact Or.inl ⟨s.package,congrArg ending ran,.refl coherent⟩
  | ok root =>
    cases found : Packaging.relationshipsOf s.part s.package with
    | error fault p =>
      have built : Generation.ofExcept (chartOf setup.settings kind rows title) setup s = .ok root s := by
        rw [drawn]
        rfl
      have ran : chart kind rows title width height setup s = .error fault { s with package := p } := by
        unfold chart
        refine (bind_ok (a := setup) rfl).trans ((bind_ok built).trans ?_)
        refine (bind_ok (a := s) rfl).trans ((bind_ok (a := s) rfl).trans ?_)
        exact bind_error (onPackage_error found)
      exact Or.inl ⟨p,congrArg ending ran,provides_unfound coherent found⟩
    | ok links p =>
      exact Or.inr ⟨_,exists_coherent_embeds coherent found s.charts chartPart_injective
        (key_injective setup.settings.chartBase) (chart_aside s.part) (fun n => { s with charts := n })
        (fun _ chosen => chart_apply found drawn width height chosen)
        fun n s' coherent => supplying_showChart coherent title width height n⟩

/-- The counts never go back, whatever is done in a run and in whatever part. -/
theorem counts_le {w w' : World} (steps : Legs setup w w') (sound : w.Sound) :
    w.session.images ≤ w'.session.images ∧ w.session.charts ≤ w'.session.charts := by
  induction steps with
  | refl => exact ⟨Nat.le_refl _,Nat.le_refl _⟩
  | tail steps step ih =>
    have onward := step.onward (Legs.sound steps sound)
    exact ⟨Nat.le_trans ih.1 onward.images_le,Nat.le_trans ih.2 onward.charts_le⟩

/-- The numbers of an image of a known kind and of a chart that can be drawn, once the manifest of the part at
work is found. Earlier in the same run all numbers were smaller. -/
theorem numbered_least (coherent : s.package.Coherent)
    (found : Packaging.relationshipsOf s.part s.package = .ok links p) :
    (∀ (data : ByteArray) (extension : String) (width height : Value),
      (setup.settings.imageTypes.lookup extension).isSome = true → ∃ n q,
        ending (image data extension width height setup s) = { s with images := n, package := q } ∧
          s.Embeds s.images (imagePart s.part extension) (keyOf setup.settings.imageBase)
            ("media/" ++ imageFile extension ·) imageRelation data n q ∧
              ∀ w w' : World, w.Sound → Legs setup w w' → w'.session = s → w.session.images < n) ∧
    ∀ (kind : String) (rows : Value) (title : Option String) (width height : Value) (root : Element),
      chartOf setup.settings kind rows title = .ok root → ∃ n q,
        ending (chart kind rows title width height setup s) = { s with charts := n, package := q } ∧
          s.Embeds s.charts chartPart (keyOf setup.settings.chartBase)
            (fun n => Path.relative (chartPart n) (Path.folder s.part)) chartRelation
              (Text.encode (chartText s.package root)) n q ∧
                ∀ w w' : World, w.Sound → Legs setup w w' → w'.session = s → w.session.charts < n := by
  refine ⟨fun data extension width height known => ?_,fun kind rows title width height root drawn => ?_⟩
  · have injective : Function.Injective (imagePart s.part extension) := image_part_injective _ extension
    have aside (n : Nat) : imagePart s.part extension n ≠ Path.relationships s.part ∧
        imagePart s.part extension n ≠ typesPart :=
      ⟨imagePart_ne_relationships s.part extension n,imagePart_ne_typesPart s.part extension n⟩
    obtain ⟨n,q,ended,embedded⟩ := exists_embeds coherent found s.images injective
      (key_injective setup.settings.imageBase) aside (fun n => { s with images := n })
      (fun n chosen => image_apply found known data width height chosen)
      fun n s' coherent => supplying_showImage coherent extension width height n
    refine ⟨n,q,ended,embedded,fun w w' sound steps same => ?_⟩
    exact Nat.lt_of_le_of_lt (counts_le steps sound).1 (same ▸ embedded.least.1.1)
  · have aside (n : Nat) : chartPart n ≠ Path.relationships s.part ∧ chartPart n ≠ typesPart :=
      ⟨chartPart_ne_relationships s.part n,chartPart_ne_typesPart n⟩
    obtain ⟨n,q,ended,embedded⟩ := exists_embeds coherent found s.charts chartPart_injective
      (key_injective setup.settings.chartBase) aside (fun n => { s with charts := n })
      (fun n chosen => chart_apply found drawn width height chosen)
      fun n s' coherent => supplying_showChart coherent title width height n
    refine ⟨n,q,ended,embedded,fun w w' sound steps same => ?_⟩
    exact Nat.lt_of_le_of_lt (counts_le steps sound).2 (same ▸ embedded.least.1.1)

/-- A document whose first image and second key are taken. -/
private def takenParts : Archive.Entries :=
  [(documentPart,.empty),("word/media/image1.png",.empty),
    ("word/_rels/document.xml.rels",Text.encode ("<Relationships xmlns=\"" ++ relationshipsSpace ++
      "\"><Relationship Id=\"rId1002\"/></Relationships>"))]

private def takenSession : Session := { package := { parts := takenParts } }

private theorem taken_run : ((ending (image .empty "png" (.int 1) (.int 1) {} takenSession)).images,
    (ending (image .empty "png" (.int 1) (.int 1) {} takenSession)).package.names) =
      (3,[documentPart,"word/media/image1.png","word/_rels/document.xml.rels","word/media/image3.png",typesPart]) := by
  decide +kernel

private def takenRows : Value := .list [.map [(.text "a",.text "b"),(.text "c",.int 1)]]

theorem numbered_least_taken : ∃ links p root, takenSession.package.Coherent ∧
    Packaging.relationshipsOf takenSession.part takenSession.package = .ok links p ∧
      (({} : Setup).settings.imageTypes.lookup "png").isSome = true ∧ chartOf {} "bar" takenRows none = .ok root ∧
        (ending (image .empty "png" (.int 1) (.int 1) {} takenSession)).images = 3 ∧
          (∃ n q, ending (image .empty "png" (.int 1) (.int 1) {} takenSession) =
            { takenSession with images := n, package := q } ∧
              takenSession.Embeds 0 (imagePart documentPart "png") (keyOf 1000) ("media/" ++ imageFile "png" ·)
                imageRelation .empty n q ∧ (World.initial takenSession.package).session.images < n) ∧
            ∃ n q, ending (chart "bar" takenRows none .null .null {} takenSession) =
              { takenSession with charts := n, package := q } ∧
                takenSession.Embeds 0 chartPart (keyOf 2000)
                  (fun n => Path.relative (chartPart n) (Path.folder documentPart)) chartRelation
                    (Text.encode (chartText takenSession.package root)) n q ∧
                      (World.initial takenSession.package).session.charts < n := by
  have fresh : takenSession.package.Fresh := ⟨rfl,rfl,rfl,rfl,rfl⟩
  have sound := World.sound_initial fresh
  have opens : (final? (Packaging.relationshipsOf takenSession.part takenSession.package)).isSome = true := by
    decide +kernel
  obtain ⟨p,opened⟩ := Option.isSome_iff_exists.mp opens
  obtain ⟨links,found⟩ := exists_of_final? opened
  obtain ⟨root,drawn⟩ := exists_of_isOk
    (show (chartOf {} "bar" takenRows none).isOk = true by decide +kernel)
  have known : (({} : Setup).settings.imageTypes.lookup "png").isSome = true := by decide
  obtain ⟨images,charts⟩ := numbered_least (s := takenSession) sound.coherent found
  obtain ⟨n,q,ended,embedded,later⟩ := images .empty "png" (.int 1) (.int 1) known
  obtain ⟨m,r,ended',embedded',later'⟩ := charts "bar" takenRows none .null .null root drawn
  exact ⟨links,p,root,sound.coherent,found,known,drawn,(Prod.mk.inj taken_run).1,
    ⟨n,q,ended,embedded,later _ _ sound .refl rfl⟩,m,r,ended',embedded',later' _ _ sound .refl rfl⟩

/-- A document whose manifest cannot be read. -/
private def tornSession : Session :=
  { package := { parts := [(documentPart,.empty),("word/_rels/document.xml.rels",Text.encode "<")] } }

/-- No number is picked then: the image is given up before it is counted or stored. -/
theorem image_unread : ∃ s', image .empty "png" (.int 1) (.int 1) {} tornSession =
    .error (.breakdown .markup) s' ∧ s'.images = 0 ∧ s'.package.names = tornSession.package.names := by
  have checked : (match image .empty "png" (.int 1) (.int 1) {} tornSession with
      | .ok _ _ => false
      | .error fault s' => fault == .breakdown .markup && s'.images == 0 &&
        s'.package.names == tornSession.package.names) = true := by
    decide +kernel
  cases ran : image .empty "png" (.int 1) (.int 1) {} tornSession with
  | ok e s' =>
    rw [ran] at checked
    exact nomatch checked
  | error fault s' =>
    rw [ran] at checked
    obtain ⟨both,names⟩ := Bool.and_eq_true_iff.mp checked
    obtain ⟨same,images⟩ := Bool.and_eq_true_iff.mp both
    exact ⟨s',by rw [eq_of_beq same],eq_of_beq images,eq_of_beq names⟩

end Embed
end MailMerge
