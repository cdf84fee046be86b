import MailMerge.Proofs.Generation.Counted
import MailMerge.Proofs.Generation.Drawings

/-! How many images a run has embedded. The count of a session goes up to the number that the last image got,
so it counts the images of the run together with the numbers that were passed over. Those were taken before
the run, or by its charts; where there are none, the limit of images is reached when as many were embedded.
-/
namespace MailMerge
open Xml Docx Package Relation Generation Forest

variable {setup : Setup} {s s' : Session} {template p q : Package} {n : Nat} {embedded : List (String × Nat)}
  {passed : List Nat}

/-- The part with the image of an extension and a number. -/
def Embed.imageName (extension : String) (n : Nat) : String :=
  "word/media/" ++ imageFile extension n

namespace Package

/-- A number that no image gets: an image has it, whatever its extension, or a relationship has its key. -/
def Takes (p : Package) (settings : Settings) (n : Nat) : Prop :=
  (∃ extension, Embed.imageName extension n ∈ p.media) ∨
    ∃ part, IsDirect part ∧ some (Embed.keyOf settings.imageBase n) ∈ p.keys part

theorem isMedia_imageName (extension : String) (n : Nat) : isMedia (Embed.imageName extension n) = true := by
  rw [isMedia,Embed.imageName,String.toList_append]
  exact List.isPrefixOf_iff_prefix.mpr (List.prefix_append _ _)

theorem isMedia_chartPart (n : Nat) : isMedia (Embed.chartPart n) = false := by
  rw [isMedia,Embed.toList_chartPart]
  rfl

theorem mem_media_of_hasPart {extension : String} (held : p.hasPart (Embed.imageName extension n) = true) :
    Embed.imageName extension n ∈ p.media :=
  List.mem_filter.mpr ⟨hasPart_eq_true_iff.mp held,isMedia_imageName extension n⟩

theorem Manifests.isManifest {part name : String} (direct : IsDirect part) (made : Manifests part name) :
    IsManifest name :=
  made.elim (fun links => Or.inr ⟨part,direct,links⟩) Or.inl

/-- Parts with one manifest have the same keys. -/
theorem keys_congr {part other : String} (same : Path.relationships part = Path.relationships other) :
    p.keys part = p.keys other := by
  rw [keys,keys,relations,relations,links?,links?,same]

end Package

namespace Embed

theorem number_eq_of_imageName {extension extension' : String} {m n : Nat}
    (same : imageName extension m = imageName extension' n) : m = n := by
  have lists := congrArg String.toList ((String.append_right_inj _).mp same)
  rw [toList_imageFile,toList_imageFile,List.append_assoc,List.append_assoc,List.append_cancel_left_eq,
    Nat.toList_repr,Nat.toList_repr] at lists
  obtain ⟨digits,-⟩ := Text.eq_of_append_cons (notMem_toDigits m (by decide)) (notMem_toDigits n (by decide)) lists
  exact Nat.repr_inj.mp (String.toList_inj.mp (by rw [Nat.toList_repr,Nat.toList_repr,digits]))

theorem keyOf_eq_iff {base base' : Int} {m n : Nat} : keyOf base m = keyOf base' n ↔ base + m = base' + n := by
  refine ⟨fun same => ?_,fun same => by rw [keyOf,keyOf,same]⟩
  have shape (k : Int) : s!"rId{k}" = "rId" ++ k.repr := rfl
  have lists := congrArg String.toList same
  simp only [keyOf,shape,String.toList_append,List.append_cancel_left_eq] at lists
  exact Int.repr_inj.mp (String.toList_inj.mp lists)

end Embed

/-- The key of a number that would be an image's is one of the charts' keys. -/
def Settings.Charted (settings : Settings) (charts n : Nat) : Prop :=
  ∃ m : Nat, 0 < m ∧ m ≤ charts ∧ settings.chartBase + m = settings.imageBase + n

/-- What a run has counted: the images that it embedded, in order and with their numbers, and the numbers that were
passed over. Together these are all numbers up to the count. -/
structure Session.Tally (s : Session) (settings : Settings) (template : Package) (embedded : List (String × Nat))
    (passed : List Nat) : Prop where
  coherent : s.package.Coherent
  numbers : (embedded.map (·.2) ++ passed).Perm (List.range' 1 s.images)
  media_eq : s.package.media = template.media ++ embedded.map fun image => Embed.imageName image.1 image.2
  keys : ∀ part, IsDirect part → ∀ key ∈ s.package.keys part, key ∈ template.keys part ∨
    (∃ image ∈ embedded, key = some (Embed.keyOf settings.imageBase image.2)) ∨
      ∃ n, 0 < n ∧ n ≤ s.charts ∧ key = some (Embed.keyOf settings.chartBase n)
  taken : ∀ n ∈ passed, template.Takes settings n ∨ settings.Charted s.charts n

namespace Session.Tally

variable {settings : Settings}

theorem start (coherent : template.Coherent) :
    Session.Tally { package := template } settings template [] [] where
  coherent := coherent
  numbers := .nil
  media_eq := (List.append_nil _).symm
  keys _ _ _ member := Or.inl member
  taken := nofun

theorem le_of_mem (tally : s.Tally settings template embedded passed) {image : String × Nat}
    (member : image ∈ embedded) : image.2 ≤ s.images := by
  have counted := tally.numbers.subset (List.mem_append_left _ (List.mem_map_of_mem (f := (·.2)) member))
  have bounds := List.mem_range'_1.mp counted
  omega

theorem beside (tally : s.Tally settings template embedded passed) (beside : s.Beside s') :
    s'.Tally settings template embedded passed where
  coherent := beside.coherent tally.coherent
  numbers := beside.images_eq ▸ tally.numbers
  media_eq := beside.media_eq.trans tally.media_eq
  keys part direct := by
    rw [beside.keys_eq part direct,beside.charts_eq]
    exact tally.keys part direct
  taken := beside.charts_eq ▸ tally.taken

/-- A number after the count that an image cannot get is taken by the template or by a chart. -/
theorem taken_of_large (tally : s.Tally settings template embedded passed) (direct : IsDirect s.part) (stored : String)
    (large : s.images < n) (taken : s.package.hasPart (Embed.imageName stored n) = true ∨
      some (Embed.keyOf settings.imageBase n) ∈ s.package.keys s.part) :
    template.Takes settings n ∨ settings.Charted s.charts n := by
  rcases taken with held | listed
  · have member := mem_media_of_hasPart held
    rw [tally.media_eq,List.mem_append] at member
    rcases member with former | made
    · exact Or.inl (Or.inl ⟨stored,former⟩)
    · obtain ⟨image,counted,same⟩ := List.mem_map.mp made
      obtain rfl := Embed.number_eq_of_imageName same
      exact absurd (tally.le_of_mem counted) (Nat.not_le.mpr large)
  · rcases tally.keys s.part direct _ listed with former | ⟨image,counted,same⟩ | ⟨m,positive,small,same⟩
    · exact Or.inl (Or.inr ⟨s.part,direct,former⟩)
    · obtain rfl := Embed.key_injective settings.imageBase (Option.some.inj same)
      exact absurd (tally.le_of_mem counted) (Nat.not_le.mpr large)
    · exact Or.inr ⟨m,positive,small,(Embed.keyOf_eq_iff.mp (Option.some.inj same)).symm⟩

/-- The numbers up to a new one: those up to the count, those between, and the new one. -/
private theorem numbers_of_image {numbers : List Nat} {last n : Nat}
    (counted : (numbers ++ passed).Perm (List.range' 1 last)) (large : last < n) :
    ((numbers ++ [n]) ++ (passed ++ List.range' (last + 1) (n - last - 1))).Perm (List.range' 1 n) := by
  have split : List.range' 1 n = List.range' 1 last ++ (List.range' (last + 1) (n - last - 1) ++ [n]) := by
    obtain ⟨k,rfl⟩ := Nat.exists_eq_add_of_lt large
    have between : last + k + 1 - last - 1 = k := by omega
    have new : [last + k + 1] = List.range' (last + 1 + k) 1 := by
      rw [List.range'_one,Nat.add_right_comm]
    rw [between,new,List.range'_append_1,Nat.add_comm last 1,List.range'_append_1,Nat.add_assoc]
  rw [split]
  refine List.Perm.trans ?_ (counted.append_right _)
  refine List.perm_iff_count.mpr fun k => ?_
  simp only [List.count_append]
  omega

section
variable {last : Nat} {part key target : Nat → String} {kind : String} {data : ByteArray}
  (embeds : s.Embeds last part key target kind data n q)
include embeds

/-- Embedding adds a key to the part at work. -/
private theorem keys_of_embeds (inside : IsEmbedded (part n)) {other : String} (direct : IsDirect other)
    {k : Option String} (member : k ∈ q.keys other) : k ∈ s.package.keys other ∨ k = some (key n) := by
  by_cases same : Path.relationships other = Path.relationships s.part
  · rw [keys_congr same,Package.keys,embeds.relations_eq,List.map_append,List.mem_append] at member
    rw [keys_congr same]
    exact member.imp_right List.mem_singleton.mp
  · have apart : Path.relationships other ≠ part n := fun here =>
      direct.relationships_not_isEmbedded (here ▸ inside)
    rw [Package.keys,embeds.others other same apart] at member
    exact Or.inl member

/-- Embedding adds one part beside manifests. -/
private theorem media_of_embeds (direct : IsDirect s.part) :
    q.media = s.package.media ++ [part n].filter isMedia := by
  obtain ⟨before,after,names_eq,-,manifests⟩ := embeds.names_eq
  have aside : ∀ name ∈ before ++ after, ¬ isMedia name = true := fun name member =>
    isMedia_of_markup (Or.inr (Manifests.isManifest direct (manifests name member).2))
  have first : before.filter isMedia = [] :=
    List.filter_eq_nil_iff.mpr fun name member => aside name (List.mem_append_left _ member)
  have last : after.filter isMedia = [] :=
    List.filter_eq_nil_iff.mpr fun name member => aside name (List.mem_append_right _ member)
  rw [media,names_eq,← List.singleton_append,List.filter_append,List.filter_append,List.filter_append,first,last,
    List.append_nil,List.append_nil]
  rfl

end

/-- An image was embedded. The numbers between the count and its number are passed over. -/
theorem image (tally : s.Tally settings template embedded passed) (direct : IsDirect s.part) (coherent : q.Coherent)
    {stored kind : String}
    {target : Nat → String} {data : ByteArray}
    (embeds : s.Embeds s.images (Embed.imagePart s.part stored) (Embed.keyOf settings.imageBase) target kind data n q) :
    Session.Tally { s with images := n, package := q } settings template (embedded ++ [(stored,n)])
      (passed ++ List.range' (s.images + 1) (n - s.images - 1)) := by
  have name_eq (m : Nat) : Embed.imagePart s.part stored m = Embed.imageName stored m :=
    Embed.imagePart_eq direct stored m
  have inside : IsEmbedded (Embed.imagePart s.part stored n) := Embed.isEmbedded_imagePart direct stored n
  obtain ⟨⟨large,-,-⟩,least⟩ := embeds.least
  refine ⟨coherent,?_,?_,fun part direct key member => ?_,fun m member => ?_⟩
  · rw [List.map_append]
    exact numbers_of_image tally.numbers large
  · refine (media_of_embeds embeds direct).trans ?_
    simp [tally.media_eq,name_eq,isMedia_imageName]
  · rcases keys_of_embeds embeds inside direct member with former | new
    · refine (tally.keys part direct key former).imp_right fun later => later.imp_left ?_
      exact fun ⟨image,counted,same⟩ => ⟨image,List.mem_append_left _ counted,same⟩
    · exact Or.inr (Or.inl ⟨(stored,n),by simp,new⟩)
  · rcases List.mem_append.mp member with former | between
    · exact tally.taken m former
    · obtain ⟨beyond,small⟩ := List.mem_range'_1.mp between
      refine tally.taken_of_large direct stored beyond ?_
      rw [← name_eq]
      by_contra free
      obtain ⟨absent,new⟩ := not_or.mp free
      have bound : n ≤ m := least ⟨beyond,by simpa using absent,new⟩
      omega

/-- A chart was embedded. -/
theorem chart (tally : s.Tally settings template embedded passed) (direct : IsDirect s.part) (coherent : q.Coherent)
    {kind : String}
    {target : Nat → String} {data : ByteArray}
    (embeds : s.Embeds s.charts Embed.chartPart (Embed.keyOf settings.chartBase) target kind data n q) :
    Session.Tally { s with charts := n, package := q } settings template embedded passed := by
  have inside : IsEmbedded (Embed.chartPart n) := Embed.isEmbedded_chartPart n
  have large : s.charts < n := embeds.least.1.1
  have later {m : Nat} (small : m ≤ s.charts) : m ≤ n := Nat.le_trans small (Nat.le_of_lt large)
  refine ⟨coherent,tally.numbers,?_,fun part direct key member => ?_,fun m member => ?_⟩
  · refine (media_of_embeds embeds direct).trans ?_
    simp [tally.media_eq,isMedia_chartPart]
  · rcases keys_of_embeds embeds inside direct member with former | new
    · refine (tally.keys part direct key former).imp_right fun listed => listed.imp_right ?_
      exact fun ⟨m,positive,small,same⟩ => ⟨m,positive,later small,same⟩
    · exact Or.inr (Or.inr ⟨n,Nat.lt_of_le_of_lt (Nat.zero_le _) large,Nat.le_refl n,new⟩)
  · refine (tally.taken m member).imp_right ?_
    exact fun ⟨k,positive,small,same⟩ => ⟨k,positive,later small,same⟩

end Session.Tally

/-- What a session has counted is accounted for. -/
def Session.Tallied (s : Session) (settings : Settings) (template : Package) : Prop :=
  ∃ embedded passed, s.Tally settings template embedded passed

/-- In a part that is filled, a step keeps account of what it counts, whether it ends or not. -/
def Counting {α : Type} (setup : Setup) (template : Package) (step : Generation α) : Prop :=
  ∀ s : Session, IsDirect s.part → s.Tallied setup.settings template →
    IsDirect (ending (step setup s)).part ∧ (ending (step setup s)).Tallied setup.settings template

namespace Counting

variable {α β : Type}

theorem of_bind {step : Generation α} {next : α → Generation β} (first : Counting setup template step)
    (second : ∀ a, Counting setup template (next a)) : Counting setup template (step >>= next) := by
  intro s direct tallied
  have here := first s direct tallied
  rw [bind_apply]
  cases ran : step setup s <;> rw [ran] at here
  · exact second _ _ here.1 here.2
  · exact here

theorem of_look {next : Session → Generation α} (all : ∀ s, Counting setup template (next s)) :
    Counting setup template (get >>= next) :=
  fun s => all s s

theorem of_look_setup {next : Setup → Generation α} (same : Counting setup template (next setup)) :
    Counting setup template (read >>= next) :=
  same

theorem of_stop (fault : Fault) (next : α → Generation β) : Counting setup template (throw fault >>= next) :=
  fun _ direct tallied => ⟨direct,tallied⟩

theorem of_ofExcept (result : Except Fault α) : Counting setup template (Generation.ofExcept result) := by
  cases result with
  | ok a => exact fun _ direct tallied => ⟨direct,tallied⟩
  | error fault => exact fun _ direct tallied => ⟨direct,tallied⟩

theorem of_log (level : Level) (message : String) : Counting setup template (log level message) := by
  rintro s direct ⟨embedded,passed,tally⟩
  exact ⟨direct,embedded,passed,tally.beside (.of_same rfl rfl rfl)⟩

end Counting

namespace Embed

theorem counting_storeImage (data : ByteArray) (stored : String) (width height : Value) :
    Counting setup template (storeImage setup.settings data stored width height) := by
  rintro s direct ⟨embedded,passed,tally⟩
  rcases storeImage_cases tally.coherent data stored width height with
    ⟨q,ended,provides⟩ | ⟨n,q,ended,coherent,embeds⟩
  · rw [ended]
    exact ⟨direct,embedded,passed,tally.beside (.of_provides provides fun _ => Manifests.isManifest direct)⟩
  · rw [ended]
    exact ⟨direct,_,_,tally.image direct coherent embeds⟩

theorem counting_image (data : ByteArray) (extension : String) (width height : Value) :
    Counting setup template (image data extension width height) := by
  rw [image_eq]
  refine .of_look_setup (.of_bind (.of_ofExcept _) fun found => ?_)
  have stores : Counting setup template (storeImage setup.settings data found.1 width height) :=
    counting_storeImage data found.1 width height
  dsimp only
  split
  · exact .of_bind (.of_log _ _) fun _ => stores
  · exact stores

theorem counting_fetched (address : String) (width height : Value) :
    Counting setup template (fetched address width height) := by
  refine .of_look_setup (.of_look fun s => ?_)
  dsimp only
  split
  · exact .of_stop _ _
  · exact .of_bind (.of_ofExcept _) fun data => .of_bind (.of_log _ _) fun _ =>
      .of_bind (.of_ofExcept _) fun extension => counting_image data extension width height

theorem counting_chart (kind : String) (rows : Value) (title : Option String) (width height : Value) :
    Counting setup template (Embed.chart kind rows title width height) := by
  rintro s direct ⟨embedded,passed,tally⟩
  rcases chart_cases tally.coherent kind rows title width height with
    ⟨q,ended,provides⟩ | ⟨data,n,q,ended,coherent,embeds⟩
  · rw [ended]
    exact ⟨direct,embedded,passed,tally.beside (.of_provides provides fun _ => Manifests.isManifest direct)⟩
  · rw [ended]
    exact ⟨direct,embedded,passed,tally.chart direct coherent embeds⟩

/-- Every deed keeps account. -/
theorem Deed.tallied (deed : Deed setup s s') (tallied : s.Tallied setup.settings template) :
    s'.Tallied setup.settings template := by
  cases deed with
  | image direct data extension width height =>
    exact (counting_image data extension width height s direct tallied).2
  | fetched direct address width height => exact (counting_fetched address width height s direct tallied).2
  | chart direct kind rows title width height =>
    exact (counting_chart kind rows title width height s direct tallied).2
  | beside beside =>
    obtain ⟨embedded,passed,tally⟩ := tallied
    exact ⟨embedded,passed,tally.beside beside⟩

/-- A run keeps account of all its images. -/
theorem tallied_of_deeds (coherent : template.Coherent)
    (deeds : Deeds setup { package := template } s) : s.Tallied setup.settings template := by
  induction deeds with
  | refl => exact ⟨[],[],.start coherent⟩
  | tail _ deed ih => exact deed.tallied ih

private theorem fetch_ne_imageLimit {network : Network} {settings : Settings} {address : String} {limit : Int} :
    network.fetch settings address ≠ .error (.imageLimit limit) := by
  intro failed
  unfold Network.fetch at failed
  repeat' split at failed
  all_goals exact nomatch failed

private theorem extension_ne_imageLimit {address usual : String} {limit : Int} :
    Address.extension address usual ≠ .error (.imageLimit limit) := by
  intro failed
  unfold Address.extension at failed
  repeat' split at failed
  all_goals exact nomatch failed

private theorem eq_error_of_ofExcept {α : Type} {result : Except Fault α} {fault : Fault}
    (failed : Generation.ofExcept result setup s = .error fault s') : result = .error fault := by
  cases result with
  | ok a => exact nomatch failed
  | error other => exact congrArg _ (EStateM.Result.error.inj failed).1

theorem image_ne_imageLimit (data : ByteArray) (extension : String) (width height : Value) (limit : Int) :
    image data extension width height setup s ≠ .error (.imageLimit limit) s' := by
  intro failed
  rw [image_eq] at failed
  rcases cases_of_bind_error failed with failed | ⟨setup',s₁,ran,failed⟩
  · exact nomatch failed
  obtain ⟨rfl,rfl⟩ := EStateM.Result.ok.inj ran
  rcases cases_of_bind_error failed with failed | ⟨found,s₂,ran,failed⟩
  · have unsupported := eq_error_of_ofExcept failed
    unfold imageExtension at unsupported
    repeat' split at unsupported
    all_goals exact nomatch unsupported
  have stores (s : Session) : storeImage setup.settings data found.1 width height setup s ≠
      .error (.imageLimit limit) s' := fun failed =>
    nomatch steady_storeImage setup.settings data found.1 width height setup s _ _ failed
  dsimp only at failed
  split at failed
  · rcases cases_of_bind_error failed with failed | ⟨_,s₃,ran,failed⟩
    · exact nomatch failed
    · exact stores s₃ failed
  · exact stores s₂ failed

/-- An image is refused for the limit exactly when the count has reached it. -/
theorem refused_iff {address : String} {width height : Value} :
    (∃ s', fetched address width height setup s = .error (.imageLimit setup.settings.maxImages) s') ↔
      setup.settings.maxImages ≤ s.images := by
  constructor
  · rintro ⟨s',failed⟩
    by_contra few
    unfold fetched at failed
    have reads : (read : Generation Setup) setup s = .ok setup s := rfl
    have gets : (get : Generation Session) setup s = .ok s s := rfl
    replace failed := (bind_ok reads).symm.trans failed
    replace failed := (bind_ok gets).symm.trans failed
    rw [if_neg few] at failed
    rcases cases_of_bind_error failed with failed | ⟨data,s₁,ran,failed⟩
    · exact fetch_ne_imageLimit (eq_error_of_ofExcept failed)
    rcases cases_of_bind_error failed with failed | ⟨_,s₂,ran,failed⟩
    · exact nomatch failed
    rcases cases_of_bind_error failed with failed | ⟨extension,s₃,ran,failed⟩
    · exact extension_ne_imageLimit (eq_error_of_ofExcept failed)
    · exact image_ne_imageLimit data extension width height _ failed
  · intro reached
    refine ⟨s,?_⟩
    unfold fetched
    refine (bind_ok (a := setup) rfl).trans ((bind_ok (a := s) rfl).trans ?_)
    dsimp only
    rw [if_pos reached]
    rfl

/-- A run that comes to its end, or stops for a fault of the engine's own family, is a run of deeds. -/
theorem deeds_of_document (fresh : template.Fresh) (usual : Fill.Usual setup.settings) {o : Options}
    (ran : Fill.document o setup { package := template } = .ok () s ∨
      ∃ fault, fault.isOwn = true ∧ Fill.document o setup { package := template } = .error fault s) :
    Deeds setup { package := template } s := by
  have ends := Fill.ends_document (World.sound_initial fresh) usual o
  rcases ran with filled | ⟨fault,own,failed⟩
  · obtain ⟨w,rfl,stages,-⟩ := ends.of_ok filled
    exact Tracked.deeds stages
  · unfold Ends at ends
    rw [show Fill.document o setup (World.initial template).session = .error fault s from failed] at ends
    obtain ⟨w,rfl,stages⟩ := ends own
    exact Tracked.deeds stages

/-- At every point of a run, the count is the number of images that were embedded together with that of the numbers
passed over, and decides alone about the limit. Only numbers are passed over that the template takes, or a
chart. -/
theorem images_counted (fresh : template.Fresh) :
    (Fill.Usual setup.settings → ∀ o s, (Fill.document o setup { package := template } = .ok () s ∨
      ∃ fault, fault.isOwn = true ∧ Fill.document o setup { package := template } = .error fault s) →
        Deeds setup { package := template } s) ∧
    ∀ s, Deeds setup { package := template } s → ∃ (embedded : List (String × Nat)) (passed : List Nat),
      s.package.media = template.media ++ embedded.map (fun image => imageName image.1 image.2) ∧
        (embedded.map (·.2) ++ passed).Perm (List.range' 1 s.images) ∧
          (∀ n ∈ passed, template.Takes setup.settings n ∨ setup.settings.Charted s.charts n) ∧
            s.images = embedded.length + passed.length ∧
              ((∀ n, 0 < n → n ≤ s.images →
                ¬ template.Takes setup.settings n ∧ ¬ setup.settings.Charted s.charts n) →
                  s.images = embedded.length) ∧
                ∀ address width height, (∃ s', fetched address width height setup s =
                  .error (.imageLimit setup.settings.maxImages) s') ↔
                    setup.settings.maxImages ≤ embedded.length + passed.length := by
  refine ⟨fun usual o s ran => deeds_of_document fresh usual ran,fun s run => ?_⟩
  obtain ⟨embedded,passed,tally⟩ := tallied_of_deeds fresh.coherent run
  have total : s.images = embedded.length + passed.length := by
    have lengths := tally.numbers.length_eq
    simp only [List.length_append,List.length_map,List.length_range'] at lengths
    exact lengths.symm
  refine ⟨embedded,passed,tally.media_eq,tally.numbers,tally.taken,total,fun untaken => ?_,
    fun address width height => ?_⟩
  · have unpassed : passed = [] := by
      refine List.eq_nil_iff_forall_not_mem.mpr fun n member => ?_
      have bounds := List.mem_range'_1.mp (tally.numbers.subset (List.mem_append_right _ member))
      obtain ⟨free,uncharted⟩ := untaken n (by omega) (by omega)
      exact (tally.taken n member).elim free uncharted
    rw [total,unpassed,List.length_nil,Nat.add_zero]
  · rw [refused_iff,total]
    push_cast
    rfl

/-- A template that asks for an image and brings one, and a run that may embed two. -/
private def adornedTemplate : Package where
  parts := pictureParts ++ [("word/media/image1.png",.empty)]

private def adornedSetup : Setup := { pictureSetup with settings := { maxImages := 2 } }

private theorem adorned_run : (final? (Fill.document {} adornedSetup { package := adornedTemplate })).any (fun s =>
    decide ((s.images,s.package.media) = (2,["word/media/image1.png","word/media/image2.png"]))) = true := by
  decide +kernel

/-- One image was embedded, and a second one would be refused. -/
theorem images_counted_adorned : ∃ s, adornedTemplate.Fresh ∧ Fill.Usual adornedSetup.settings ∧
    Fill.document {} adornedSetup { package := adornedTemplate } = .ok () s ∧
      Deeds adornedSetup { package := adornedTemplate } s ∧ s.images = 2 ∧
        ∃ (embedded : List (String × Nat)) (passed : List Nat), embedded.length = 1 ∧ passed.length = 1 ∧
          (∀ n ∈ passed, adornedTemplate.Takes adornedSetup.settings n ∨
            adornedSetup.settings.Charted s.charts n) ∧
              ∃ s', fetched "http://x/a.png" (.int 1) (.int 1) adornedSetup s = .error (.imageLimit 2) s' := by
  have fresh : adornedTemplate.Fresh := ⟨rfl,rfl,rfl,rfl,rfl⟩
  have usual : Fill.Usual adornedSetup.settings := ⟨rfl,rfl⟩
  obtain ⟨s,filled,checked⟩ := (Option.any_eq_true _ _).mp adorned_run
  obtain ⟨images,media⟩ := Prod.mk.inj (of_decide_eq_true checked)
  obtain ⟨_,filled⟩ := exists_of_final? filled
  obtain ⟨deeds,counted⟩ : (Fill.Usual adornedSetup.settings → _) ∧ _ := images_counted fresh
  have run : Deeds adornedSetup { package := adornedTemplate } s := deeds usual {} s (Or.inl filled)
  obtain ⟨embedded,passed,media_eq,-,taken,total,-,refused⟩ := counted s run
  have one : embedded.length = 1 := by
    have lengths := congrArg List.length (media.symm.trans media_eq)
    have former : adornedTemplate.media.length = 1 := by decide
    simp only [List.length_append,List.length_map,List.length_cons,List.length_nil,former] at lengths
    omega
  have other : passed.length = 1 := by omega
  refine ⟨s,fresh,usual,filled,run,images,embedded,passed,one,other,taken,(refused _ _ _).mpr ?_⟩
  rw [one,other]
  decide

end Embed
end MailMerge
