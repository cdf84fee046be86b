import MailMerge.Fill.Paragraph
import MailMerge.Proofs.Embedding.Places
import MailMerge.Proofs.Generation.Fates

/-! Steps that only take notes. They write to the journal and to the outcomes, and leave the package, the
elements and the counters alone. An image or a chart that is not embedded for a fault of the engine's own
family has come no further than that: all such faults are found before anything is stored.
-/
namespace MailMerge
open Generation

/-- A later session has the part at work, the parts, trees and manifests of the package and the counters of
an earlier one. The elements, the index, the outcomes and the journal may be others. -/
structure Session.Keeps (s s' : Session) : Prop where
  package_eq : s'.package =
    { s.package with forest := s'.package.forest, journal := s'.package.journal }
  part_eq : s'.part = s.part
  images_eq : s'.images = s.images
  charts_eq : s'.charts = s.charts
  watermarks_eq : s'.watermarks = s.watermarks

/-- A later session differs in the outcomes and the journal only. -/
structure Session.Notes (s s' : Session) : Prop extends s.Keeps s' where
  forest_eq : s'.package.forest = s.package.forest
  index_eq : s'.index = s.index

variable {setup : Setup} {s s' s'' : Session} {α β : Type}

theorem Session.Keeps.refl (s : Session) : s.Keeps s :=
  ⟨rfl,rfl,rfl,rfl,rfl⟩

theorem Session.Keeps.trans (first : s.Keeps s') (second : s'.Keeps s'') : s.Keeps s'' where
  package_eq := by rw [second.package_eq,first.package_eq]
  part_eq := second.part_eq.trans first.part_eq
  images_eq := second.images_eq.trans first.images_eq
  charts_eq := second.charts_eq.trans first.charts_eq
  watermarks_eq := second.watermarks_eq.trans first.watermarks_eq

/-- Two states have the part at work and the number of images in common. -/
structure Session.Aligned (s t : Session) : Prop where
  part_eq : t.part = s.part
  images_eq : t.images = s.images

theorem Session.Aligned.refl (s : Session) : s.Aligned s :=
  ⟨rfl,rfl⟩

/-- A state with more outcomes and a longer journal. -/
def Session.noted (s : Session) (news : List Outcome) (notes : Journal) : Session :=
  { s with
    outcomes := s.outcomes ++ news
    package := { s.package with journal := s.package.journal ++ notes } }

theorem Session.noted_nil (s : Session) : s.noted [] #[] = s := by
  simp [noted]

theorem Session.noted_noted (s : Session) (news news' : List Outcome) (notes notes' : Journal) :
    (s.noted news notes).noted news' notes' = s.noted (news ++ news') (notes ++ notes') := by
  simp [noted]

theorem Session.Aligned.noted {s t : Session} (aligned : s.Aligned t) (news : List Outcome) (notes : Journal) :
    (s.noted news notes).Aligned (t.noted news notes) :=
  ⟨aligned.part_eq,aligned.images_eq⟩

theorem Session.notes_noted (s : Session) (news : List Outcome) (notes : Journal) :
    s.Notes (s.noted news notes) :=
  ⟨⟨rfl,rfl,rfl,rfl,rfl⟩,rfl,rfl⟩

theorem Session.Notes.refl (s : Session) : s.Notes s :=
  ⟨.refl s,rfl,rfl⟩

/-- What notes are taken changes the outcomes and the journal. -/
theorem Session.Notes.eq (notes : s.Notes s') : s' = { s with
    outcomes := s'.outcomes
    package := { s.package with journal := s'.package.journal } } := by
  obtain ⟨⟨package_eq,part_eq,images_eq,charts_eq,watermarks_eq⟩,forest_eq,index_eq⟩ := notes
  rw [forest_eq] at package_eq
  cases s'
  exact Session.mk.injEq .. ▸ ⟨package_eq,part_eq,index_eq,images_eq,charts_eq,watermarks_eq,rfl⟩

theorem Session.Notes.trans (first : s.Notes s') (second : s'.Notes s'') : s.Notes s'' :=
  ⟨first.toKeeps.trans second.toKeeps,second.forest_eq.trans first.forest_eq,
    second.index_eq.trans first.index_eq⟩

namespace Generation

theorem exists_of_bind_ok {step : Generation α} {next : α → Generation β} {b : β}
    (ran : (step >>= next) setup s = .ok b s'') :
    ∃ a s', step setup s = .ok a s' ∧ next a setup s' = .ok b s'' := by
  rw [bind_apply] at ran
  split at ran
  · next a s' first => exact ⟨a,s',first,ran⟩
  · exact nomatch ran

theorem cases_of_bind_error {step : Generation α} {next : α → Generation β} {fault : Fault}
    (failed : (step >>= next) setup s = .error fault s'') : step setup s = .error fault s'' ∨
      ∃ a s', step setup s = .ok a s' ∧ next a setup s' = .error fault s'' := by
  rw [bind_apply] at failed
  split at failed
  · next a s' first => exact Or.inr ⟨a,s',first,failed⟩
  · next other s' first =>
    obtain ⟨rfl,rfl⟩ := EStateM.Result.error.inj failed
    exact Or.inl first

/-- Whatever a step gives, it and the state after the step satisfy a condition. -/
def Gives (setup : Setup) (step : Generation α) (s : Session) (post : α → Session → Prop) : Prop :=
  ∀ a s', step setup s = .ok a s' → post a s'

namespace Gives

theorem of_pure {a : α} {post : α → Session → Prop} (holds : post a s) :
    Gives setup (pure a) s post := by
  intro b s' ran
  obtain ⟨rfl,rfl⟩ := EStateM.Result.ok.inj ran
  exact holds

theorem of_bind {step : Generation α} {next : α → Generation β} {post : β → Session → Prop}
    (gives : ∀ a s', step setup s = .ok a s' → Gives setup (next a) s' post) :
    Gives setup (step >>= next) s post := by
  intro b s'' ran
  obtain ⟨a,s',first,ran⟩ := exists_of_bind_ok ran
  exact gives a s' first b s'' ran

theorem of_look_setup {next : Setup → Generation α} {post : α → Session → Prop}
    (gives : Gives setup (next setup) s post) : Gives setup (read >>= next) s post :=
  gives

theorem of_look_forest {next : Forest → Generation α} {post : α → Session → Prop}
    (gives : Gives setup (next s.package.forest) s post) : Gives setup (forest >>= next) s post :=
  gives

end Gives

theorem guarded_cases {step : Generation α} {result : Except Fault α}
    (ran : guarded step setup s = .ok result s') :
    (∃ a, result = .ok a ∧ step setup s = .ok a s') ∨
      ∃ fault, result = .error fault ∧ fault.isOwn = true ∧ step setup s = .error fault s' := by
  unfold guarded at ran
  split at ran
  · next a _ first =>
    obtain ⟨rfl,rfl⟩ := EStateM.Result.ok.inj ran
    exact Or.inl ⟨a,rfl,first⟩
  · next fault _ failed =>
    split at ran
    · next own =>
      obtain ⟨rfl,rfl⟩ := EStateM.Result.ok.inj ran
      exact Or.inr ⟨fault,rfl,own,failed⟩
    · exact nomatch ran

theorem eq_ok_of_ofExcept {result : Except Fault α} {a : α}
    (ran : ofExcept result setup s = .ok a s') : result = .ok a ∧ s' = s := by
  cases result with
  | ok b =>
    obtain ⟨rfl,rfl⟩ := EStateM.Result.ok.inj ran
    exact ⟨rfl,rfl⟩
  | error fault => exact nomatch ran

/-- A step that fails with a fault of the engine's own family has at most taken notes, and fails alike in every
aligned state. -/
def Cautious (step : Generation α) : Prop :=
  ∀ setup s fault s', step setup s = .error fault s' → fault.isOwn = true → ∃ news notes,
    ∀ t, s.Aligned t → step setup t = .error fault (t.noted news notes)

/-- A step only takes notes, also before a fault of the engine's own family, and takes the same notes in every
aligned state. -/
structure Noting (step : Generation α) : Prop where
  repeats : ∀ {setup s a s'}, step setup s = .ok a s' → ∃ news notes,
    ∀ t, s.Aligned t → step setup t = .ok a (t.noted news notes)
  cautious : Cautious step

theorem Cautious.notes {step : Generation α} (cautious : Cautious step) {fault : Fault}
    (failed : step setup s = .error fault s') (own : fault.isOwn = true) : s.Notes s' := by
  obtain ⟨news,notes,again⟩ := cautious setup s fault s' failed own
  obtain ⟨-,rfl⟩ := EStateM.Result.error.inj (failed.symm.trans (again s (.refl s)))
  exact s.notes_noted news notes

namespace Noting

theorem of_ok {step : Generation α} (noting : Noting step) {a : α} (ran : step setup s = .ok a s') :
    s.Notes s' := by
  obtain ⟨news,notes,again⟩ := noting.repeats ran
  obtain ⟨-,rfl⟩ := EStateM.Result.ok.inj (ran.symm.trans (again s (.refl s)))
  exact s.notes_noted news notes

/-- A step that never fails. -/
theorem of_always {step : Generation α} (always : ∀ setup (s : Session), ∃ a news notes, ∀ t, s.Aligned t →
    step setup t = .ok a (t.noted news notes)) : Noting step := by
  refine ⟨fun {setup s a s'} ran => ?_,fun setup s fault s' failed => ?_⟩
  · obtain ⟨_,news,notes,again⟩ := always setup s
    obtain ⟨rfl,-⟩ := EStateM.Result.ok.inj ((again s (.refl s)).symm.trans ran)
    exact ⟨news,notes,again⟩
  · obtain ⟨_,_,_,again⟩ := always setup s
    exact nomatch (again s (.refl s)).symm.trans failed

theorem of_pure (a : α) : Noting (pure a) :=
  of_always fun _ _ => ⟨a,[],#[],fun t _ => by rw [t.noted_nil]; rfl⟩

theorem of_bind {step : Generation α} {next : α → Generation β} (first : Noting step)
    (second : ∀ a, Noting (next a)) : Noting (step >>= next) := by
  refine ⟨fun {setup s b s''} ran => ?_,fun setup s fault s'' failed own => ?_⟩
  · obtain ⟨a,s',ran,later⟩ := exists_of_bind_ok ran
    obtain ⟨news,notes,again⟩ := first.repeats ran
    obtain ⟨-,rfl⟩ := EStateM.Result.ok.inj (ran.symm.trans (again s (.refl s)))
    obtain ⟨news',notes',again'⟩ := (second a).repeats later
    refine ⟨news ++ news',notes ++ notes',fun t aligned => ?_⟩
    rw [bind_ok (again t aligned),again' _ (aligned.noted news notes),Session.noted_noted]
  · rcases cases_of_bind_error failed with failed | ⟨a,s',ran,failed⟩
    · obtain ⟨news,notes,again⟩ := first.cautious setup s fault s'' failed own
      exact ⟨news,notes,fun t aligned => bind_error (again t aligned)⟩
    · obtain ⟨news,notes,again⟩ := first.repeats ran
      obtain ⟨-,rfl⟩ := EStateM.Result.ok.inj (ran.symm.trans (again s (.refl s)))
      obtain ⟨news',notes',again'⟩ := (second a).cautious setup _ fault s'' failed own
      refine ⟨news ++ news',notes ++ notes',fun t aligned => ?_⟩
      rw [bind_ok (again t aligned),again' _ (aligned.noted news notes),Session.noted_noted]

theorem of_ofExcept (result : Except Fault α) : Noting (ofExcept result) := by
  cases result with
  | ok a => exact of_pure a
  | error fault =>
    refine ⟨fun ran => (nomatch ran),fun _ s other _ failed _ => ⟨[],#[],fun t _ => ?_⟩⟩
    obtain ⟨rfl,-⟩ := EStateM.Result.error.inj failed
    rw [t.noted_nil]
    rfl

theorem of_look_setup {next : Setup → Generation α} (all : ∀ setup, Noting (next setup)) :
    Noting (read >>= next) :=
  ⟨fun {setup _ _ _} ran => (all setup).repeats ran,fun setup => (all setup).cautious setup⟩

theorem of_mapM {step : α → Generation β} (each : ∀ a, Noting (step a)) (items : List α) :
    Noting (items.mapM step) := by
  induction items with
  | nil => exact of_pure []
  | cons a items ih =>
    rw [List.mapM_cons]
    exact of_bind (each a) fun _ => of_bind ih fun _ => of_pure _

theorem of_log (level : Level) (message : String) : Noting (log level message) :=
  of_always fun _ _ => ⟨(),[],#[⟨level,message⟩],fun t _ => by simp [Session.noted]; rfl⟩

/-- What is recorded names the part at work. -/
theorem of_record (kind : Directive.Kind) (key : Value) (status : Status) (reason : String) :
    Noting (record kind key status reason) := by
  refine of_always fun setup s => ?_
  let o : Outcome := ⟨kind,key,status,reason,s.part⟩
  suffices all : ∃ notes, ∀ t, t.part = s.part →
      record kind key status reason setup t = .ok () (t.noted [o] notes) from
    all.elim fun notes again => ⟨(),[o],notes,fun t aligned => again t aligned.part_eq⟩
  cases status with
  | applied => exact ⟨#[],fun t same => by simp only [o,← same]; rfl⟩
  | failed => exact ⟨#[⟨.warning,o.line⟩],fun t same => by simp only [o,← same]; rfl⟩
  | skipped =>
    by_cases silent : reason = ""
    · subst silent
      exact ⟨#[],fun t same => by simp only [o,← same]; rfl⟩
    · refine ⟨#[⟨.debug,o.line⟩],fun t same => ?_⟩
      have told : (reason != "") = true := by simpa using silent
      simp only [o,← same]
      unfold record
      simp only [told]
      rfl

/-- Faults of the engine's own family are caught. -/
theorem of_guarded {step : Generation α} (noting : Noting step) : Noting (guarded step) := by
  refine ⟨fun {setup s result s'} ran => ?_,fun setup s fault s' failed own => ?_⟩
  · rcases guarded_cases ran with ⟨a,rfl,first⟩ | ⟨fault,rfl,own,failed⟩
    · obtain ⟨news,notes,again⟩ := noting.repeats first
      exact ⟨news,notes,fun t aligned => by simp only [guarded,again t aligned]⟩
    · obtain ⟨news,notes,again⟩ := noting.cautious setup s fault s' failed own
      exact ⟨news,notes,fun t aligned => by simp only [guarded,again t aligned,own,if_true]⟩
  · unfold guarded at failed
    split at failed
    · exact nomatch failed
    · split at failed
      · exact nomatch failed
      · next other =>
        obtain ⟨rfl,-⟩ := EStateM.Result.error.inj failed
        exact absurd own other

end Noting

namespace Cautious

theorem of_bind {step : Generation α} {next : α → Generation β} (first : Noting step)
    (second : ∀ a, Cautious (next a)) : Cautious (step >>= next) := by
  intro setup s fault s'' failed own
  rcases cases_of_bind_error failed with failed | ⟨a,s',ran,failed⟩
  · obtain ⟨news,notes,again⟩ := first.cautious setup s fault s'' failed own
    exact ⟨news,notes,fun t aligned => bind_error (again t aligned)⟩
  · obtain ⟨news,notes,again⟩ := first.repeats ran
    obtain ⟨-,rfl⟩ := EStateM.Result.ok.inj (ran.symm.trans (again s (.refl s)))
    obtain ⟨news',notes',again'⟩ := second a setup _ fault s'' failed own
    refine ⟨news ++ news',notes ++ notes',fun t aligned => ?_⟩
    rw [bind_ok (again t aligned),again' _ (aligned.noted news notes),Session.noted_noted]

theorem of_stop (fault : Fault) (next : α → Generation β) : Cautious (throw fault >>= next) :=
  fun _ _ _ _ failed _ => ⟨[],#[],fun t _ => by
    obtain ⟨rfl,-⟩ := EStateM.Result.error.inj failed
    rw [t.noted_nil]
    rfl⟩

/-- What is looked at is the same in every aligned state. -/
theorem of_look {next : Session → Generation α} (same : ∀ s t, s.Aligned t → next t = next s)
    (all : ∀ s, Cautious (next s)) : Cautious (get >>= next) := by
  intro setup s fault s' failed own
  obtain ⟨news,notes,again⟩ := all s setup s fault s' failed own
  exact ⟨news,notes,fun t aligned => (congrFun (congrFun (same s t aligned) setup) t).trans (again t aligned)⟩

theorem of_look_setup {next : Setup → Generation α} (all : ∀ setup, Cautious (next setup)) :
    Cautious (read >>= next) :=
  fun setup s => all setup setup s

end Cautious

end Generation

namespace Fill
open Directive

theorem noting_valueAt (key : String) : Noting (valueAt key) :=
  .of_look_setup fun _ => .of_pure _

theorem noting_holds (condition : String) : Noting (holds condition) := by
  refine .of_look_setup fun setup => .of_bind (.of_ofExcept _) fun verdict => ?_
  cases verdict with
  | holds b => exact .of_pure b
  | invalid reason => exact .of_bind (.of_log _ _) fun _ => .of_pure false

/-- What is recorded at the end of a step is a note. -/
theorem gives_recorded {kind : Kind} {key : Value} {status : Status} {reason : String} {a : α}
    {post : α → Session → Prop} (holds : ∀ s', s.Notes s' → post a s') : Gives setup (do
      record kind key status reason
      return a) s post :=
  .of_bind fun _ s' recorded => .of_pure (holds s' ((Noting.of_record _ _ _ _).of_ok recorded))

/-- A length is a whole number. -/
theorem exists_of_lengthAt {key : String} {usual : Int} {length : Value}
    (ran : lengthAt key usual setup s = .ok length s') : ∃ n, length = .int n := by
  obtain ⟨_,_,-,ran⟩ := exists_of_bind_ok ran
  obtain ⟨found,_,-,ran⟩ := exists_of_bind_ok ran
  cases found <;> exact ⟨_,(EStateM.Result.ok.inj ran).1.symm⟩

theorem noting_lengthAt (key : String) (usual : Int) : Noting (lengthAt key usual) := by
  refine .of_bind (noting_valueAt key) fun value => .of_bind (.of_ofExcept _) fun length => ?_
  cases length <;> exact .of_pure _

theorem noting_formatAll (text : List Char) (tags : List (Found FormatTag)) :
    Noting (formatAll text tags) := by
  induction tags generalizing text with
  | nil => exact .of_pure text
  | cons found rest ih =>
    exact .of_bind (noting_valueAt _) fun value => .of_bind (.of_ofExcept _) fun new =>
      .of_bind (.of_record _ _ _ _) fun _ => ih _

theorem noting_placeholderText (found : Found Placeholder) : Noting (placeholderText found) := by
  refine .of_bind (noting_valueAt _) fun value => .of_bind (.of_ofExcept _) fun new => ?_
  dsimp only
  split <;> exact .of_bind (.of_record _ _ _ _) fun _ => .of_pure _

end Fill

/-- No fault of a step belongs to the engine's own family. -/
def Steady {σ : Type} (step : EStateM Fault σ α) : Prop :=
  ∀ s fault s', step s = .error fault s' → fault.isOwn = false

namespace Steady

section
variable {σ : Type}

theorem of_always {step : EStateM Fault σ α} (always : ∀ s, ∃ a s', step s = .ok a s') :
    Steady step := by
  intro s fault s' failed
  obtain ⟨_,_,ran⟩ := always s
  exact nomatch ran.symm.trans failed

theorem of_pure (a : α) : Steady (pure a : EStateM Fault σ α) :=
  of_always fun s => ⟨a,s,rfl⟩

theorem of_modify (change : σ → σ) : Steady (modify change : EStateM Fault σ PUnit) :=
  of_always fun s => ⟨⟨⟩,change s,rfl⟩

theorem of_breakdown (cause : Breakdown) :
    Steady (throw (.breakdown cause) : EStateM Fault σ α) :=
  fun _ _ _ failed => (EStateM.Result.error.inj failed).1 ▸ rfl

theorem of_bind {first : EStateM Fault σ α} {next : α → EStateM Fault σ β} (steady : Steady first)
    (steady' : ∀ a, Steady (next a)) : Steady (first >>= next) := by
  intro s fault s'' failed
  simp only [bind,EStateM.bind] at failed
  split at failed
  · next a s' ran => exact steady' a s' fault s'' failed
  · next other s' ran =>
    obtain ⟨rfl,rfl⟩ := EStateM.Result.error.inj failed
    exact steady s other s' ran

theorem of_get {next : σ → EStateM Fault σ α} (steady : ∀ s, Steady (next s)) :
    Steady (get >>= next) :=
  of_bind (of_always fun s => ⟨s,s,rfl⟩) steady

end
end Steady

namespace Packaging
open Package

theorem steady_grow (change : Forest → α × Forest) : Steady (grow change) :=
  .of_always fun _ => ⟨_,_,rfl⟩

theorem steady_log (level : Level) (message : String) : Steady (log level message) :=
  .of_modify _

theorem steady_edit (change : Forest → Forest) : Steady (edit change) :=
  .of_modify _

theorem steady_root? (name : String) : Steady (root? name) := by
  refine .of_get fun p => ?_
  split
  · exact .of_bind (.of_modify _) fun _ => .of_pure _
  · refine .of_get fun p => ?_
    split
    · exact .of_pure none
    · next data _ =>
      have read : Steady (readTree data) := by
        refine .of_bind (.of_modify _) fun _ => ?_
        split
        · exact .of_breakdown _
        · exact .of_bind (steady_grow _) fun _ => .of_pure _
      exact .of_bind read fun _ => .of_bind (.of_modify _) fun _ => .of_pure _

theorem steady_ensureDefault (root : NodeId) (extension type : String) :
    Steady (ensureDefault root extension type) := by
  refine .of_get fun p => ?_
  split
  · exact .of_pure false
  · exact .of_bind (steady_edit _) fun _ => .of_bind (steady_log _ _) fun _ => .of_pure true

theorem steady_ensureOverride (root : NodeId) (part type : String) :
    Steady (ensureOverride root part type) :=
  steady_grow _

theorem steady_newManifest (part space stem : String) : Steady (newManifest part space stem) :=
  .of_bind (steady_grow _) fun _ => .of_modify _

/-- A part is asked for that must be there. -/
private theorem steady_use (name : String) (keep : NodeId → Package → Package) : Steady (do
    match ← root? name with
    | some root =>
      modify (keep root)
      return root
    | none => throw (.breakdown .operation)) := by
  refine .of_bind (steady_root? name) fun found => ?_
  cases found with
  | none => exact .of_breakdown _
  | some root => exact .of_bind (.of_modify _) fun _ => .of_pure root

theorem steady_contentTypes : Steady contentTypes := by
  have use := steady_use typesPart fun root p => { p with types := some root }
  refine .of_get fun p => ?_
  split
  · exact .of_pure _
  · refine .of_get fun p => ?_
    dsimp only
    split
    · refine .of_bind (steady_log _ _) fun _ => .of_bind (steady_newManifest _ _ _) fun _ =>
        .of_bind (steady_root? _) fun found => ?_
      split
      · exact .of_bind (steady_ensureDefault _ _ _) fun _ => .of_bind (steady_ensureDefault _ _ _)
          fun _ => .of_bind (steady_ensureOverride _ _ _) fun _ => use
      · exact use
    · exact use

theorem steady_relationshipsOf (part : String) : Steady (relationshipsOf part) := by
  have use := steady_use (Path.relationships part) fun root p =>
    { p with manifests := Package.store p.manifests (Path.relationships part) root }
  refine .of_get fun p => ?_
  split
  · exact .of_pure _
  · refine .of_get fun p => ?_
    dsimp only
    split
    · exact .of_bind (steady_log _ _) fun _ => .of_bind (steady_newManifest _ _ _) fun _ =>
        .of_bind steady_contentTypes fun _ => .of_bind (steady_ensureDefault _ _ _) fun _ => use
    · exact use

end Packaging

namespace Steady

theorem of_step {first : Generation α} {next : α → Generation β} (steady : Steady (first setup))
    (steady' : ∀ a, Steady (next a setup)) : Steady ((first >>= next) setup) :=
  of_bind steady steady'

theorem of_look {next : Session → Generation α} (steady : ∀ s, Steady (next s setup)) :
    Steady ((get >>= next) setup) :=
  fun s => steady s s

theorem of_stop (cause : Breakdown) (next : α → Generation β) :
    Steady (((throw (.breakdown cause) : Generation α) >>= next) setup) :=
  fun _ _ _ failed => (EStateM.Result.error.inj failed).1 ▸ rfl

theorem of_onPackage {operation : Packaging α} (steady : Steady operation) (setup : Setup) :
    Steady (onPackage operation setup) := by
  intro s fault s' failed
  unfold onPackage at failed
  split at failed
  · exact nomatch failed
  · next p ran => exact (EStateM.Result.error.inj failed).1 ▸ steady _ _ _ ran

theorem of_ofExcept {result : Except Fault α}
    (foreign : ∀ fault, result = .error fault → fault.isOwn = false) (setup : Setup) :
    Steady (ofExcept result setup) := by
  cases result with
  | ok a => exact of_pure a
  | error other =>
    exact fun _ _ _ failed => (EStateM.Result.error.inj failed).1 ▸ foreign other rfl

theorem cautious {step : Generation α} (steady : ∀ setup, Steady (step setup)) : Cautious step := by
  intro setup s fault s' failed own
  simp [steady setup s fault s' failed] at own

end Steady

namespace Embed
open Xml Docx

private theorem isOwn_of_float {x : Binary64} {fault : Fault} (failed : x.whole = .error fault) :
    fault.isOwn = false := by
  unfold Binary64.whole at failed
  split at failed
  · exact Except.error.inj failed ▸ rfl
  · exact Except.error.inj failed ▸ rfl
  · exact nomatch failed

private theorem isOwn_of_whole {length : Value} {fault : Fault} (failed : length.whole = .error fault) :
    fault.isOwn = false := by
  unfold Value.whole at failed
  split at failed
  · exact nomatch failed
  · exact nomatch failed
  · exact isOwn_of_float failed
  · split at failed
    · exact nomatch failed
    · exact Except.error.inj failed ▸ rfl
  · exact Except.error.inj failed ▸ rfl

/-- A size leads to a breakdown at most. -/
theorem isOwn_of_extent {s : Settings} {width height : Value} {fault : Fault}
    (failed : extent s width height = .error fault) : fault.isOwn = false := by
  have text {length : Int} {fault : Fault} (failed : Number.digits length = .error fault) :
      fault.isOwn = false := by
    unfold Number.digits at failed
    split at failed
    · exact nomatch failed
    · exact Except.error.inj failed ▸ rfl
  rcases cases_of_bind_eq_error failed with failed | ⟨w,-,failed⟩
  · exact isOwn_of_whole failed
  rcases cases_of_bind_eq_error failed with failed | ⟨h,-,failed⟩
  · exact isOwn_of_whole failed
  rcases cases_of_bind_eq_error failed with failed | ⟨_,-,failed⟩
  · exact text failed
  rcases cases_of_bind_eq_error failed with failed | ⟨_,-,failed⟩
  · exact text failed
  · exact nomatch failed

theorem cautious_chart (kind : String) (rows : Value) (title : Option String) :
    Cautious (Embed.chart kind rows title .null .null) := by
  refine .of_look_setup fun setup => .of_bind (.of_ofExcept _) fun root => Steady.cautious fun _ => ?_
  refine .of_look fun s => .of_look fun s => .of_step (.of_onPackage (Packaging.steady_relationshipsOf _) _) fun links =>
    .of_look fun s => .of_look fun s => .of_step (.of_modify _) fun _ => .of_look fun s => ?_
  exact .of_step (.of_onPackage (Packaging.steady_edit _) _) fun _ =>
    .of_step (.of_onPackage Packaging.steady_contentTypes _) fun types =>
      .of_step (.of_onPackage (Packaging.steady_ensureOverride _ _ _) _) fun _ =>
        .of_step (.of_onPackage (Packaging.steady_log _ _) _) fun _ =>
          .of_step (.of_ofExcept (fun _ => isOwn_of_extent) _) fun _ => .of_pure _

/-- Stores an image under a known extension and gives the paragraph that shows it. -/
def storeImage (s : Settings) (data : ByteArray) (stored : String) (width height : Value) :
    Generation Element := do
  let links ← Generation.onPackage (Packaging.relationshipsOf (← get).part)
  let part := imagePart (← get).part stored
  let key (n : Nat) : String := s!"rId{s.imageBase + n}"
  let n := nextNumber (← get).package links (← get).images part key
  modify fun state => { state with images := n, package := state.package.write (part n) data }
  Generation.edit (·.relate links (key n) imageRelation ("media/" ++ imageFile stored n))
  let types ← Generation.onPackage Packaging.contentTypes
  match s.imageTypes.lookup stored with
  | some type => let _ ← Generation.onPackage (Packaging.ensureDefault types stored type)
  | none => throw (.breakdown .entry)
  Generation.log .info s!"Image added: {imageFile stored n}, ID: {key n}"
  let extent ← Generation.ofExcept (extent s width height)
  return pictureParagraph (key n) extent (toString (s.imageBase + n))

/-- An image is stored once its extension is known. -/
theorem image_eq (data : ByteArray) (extension : String) (width height : Value) :
    image data extension width height = (do
      let s := (← read).settings
      let found ← Generation.ofExcept (imageExtension s data extension)
      if found.2 then
        Generation.log .debug s!"URL extension '.{extension}' unknown; Pillow detected '.{found.1}'"
      storeImage s data found.1 width height) := by
  refine bind_congr fun setup => bind_congr fun found => ?_
  obtain ⟨stored,detected⟩ := found
  cases detected
  · rfl
  · rfl

theorem steady_storeImage (s : Settings) (data : ByteArray) (stored : String) (width height : Value)
    (setup : Setup) : Steady (storeImage s data stored width height setup) := by
  refine .of_look fun _ => .of_step (.of_onPackage (Packaging.steady_relationshipsOf _) _)
    fun links => .of_look fun _ => .of_look fun _ => .of_look fun _ =>
      .of_step (.of_modify _) fun _ => .of_step (.of_onPackage (Packaging.steady_edit _) _) fun _ =>
        .of_step (.of_onPackage Packaging.steady_contentTypes _) fun types => ?_
  cases s.imageTypes.lookup stored with
  | some type =>
    exact .of_step (.of_onPackage (Packaging.steady_ensureDefault _ _ _) _) fun _ =>
      .of_step (.of_onPackage (Packaging.steady_log _ _) _) fun _ =>
        .of_step (.of_ofExcept (fun _ => isOwn_of_extent) _) fun _ => .of_pure _
  | none => exact .of_stop _ _

theorem cautious_image (data : ByteArray) (extension : String) (width height : Value) :
    Cautious (Embed.image data extension width height) := by
  rw [image_eq]
  refine .of_look_setup fun setup => .of_bind (.of_ofExcept _) fun found => ?_
  have stores : Cautious (storeImage setup.settings data found.1 width height) :=
    Steady.cautious (steady_storeImage _ data found.1 width height)
  dsimp only
  split
  · exact .of_bind (.of_log _ _) fun _ => stores
  · exact stores

theorem cautious_fetched (address : String) (width height : Value) :
    Cautious (Embed.fetched address width height) := by
  refine .of_look_setup fun setup => ?_
  refine .of_look (fun s t aligned => by rw [aligned.images_eq]) fun s => ?_
  dsimp only
  split
  · exact .of_stop _ _
  · exact .of_bind (.of_ofExcept _) fun data => .of_bind (.of_log _ _) fun _ =>
      .of_bind (.of_ofExcept _) fun extension => cautious_image _ _ _ _

end Embed
end MailMerge
