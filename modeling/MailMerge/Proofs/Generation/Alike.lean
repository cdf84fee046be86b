import MailMerge.Fill.Paragraph
import MailMerge.Proofs.Embedding.Places
import MailMerge.Proofs.Package.Agreement

/-! Generations side by side. Two of them are at the same point when their trees look the same and everything else
in their states is the same. A step taken in both then ends alike, and they are at the same point again.
-/
namespace MailMerge
open Xml Docx Forest Package

/-- A state of a generation without its trees. -/
def Session.bare (s : Session) : Session :=
  { s with package := s.package.bare, index := { root := 0 } }

/-- Two states of which only the trees differ, and these look the same. -/
structure Session.Twins (scene : Scene) (pair : Pairing) (s t : Session) : Prop where
  package : Package.Twins scene s.part s.index t.index pair s.package t.package
  rest : s.bare = t.bare
  direct : IsDirect s.part

theorem Session.Twins.loosen {scene : Scene} {pair : Pairing} {s t : Session} (twins : Session.Twins scene pair s t) :
    Session.Twins scene.loose pair s t where
  __ := twins
  package := twins.package.loosen

/-- The state after an element was made. -/
def Session.planted (s : Session) (e : Element) : Session :=
  { s with package := { s.package with forest := (s.package.forest.plant e).2 } }

namespace Generation

section
variable {α β γ δ : Type}

/-- From states that look the same two steps end alike. -/
def Alike (scene : Scene) (setup : Setup) (pair : Pairing) (step : Generation α) (step' : Generation β)
    (s t : Session) (post : Pairing → α → β → Prop) : Prop :=
  Agree (Session.Twins scene) pair (step setup) (step' setup) s t post

variable {scene : Scene} {setup : Setup} {pair : Pairing} {s t : Session} {a b c d : NodeId}

namespace Alike

theorem of_pure {a : α} {b : β} {post : Pairing → α → β → Prop} (twins : Session.Twins scene pair s t)
    (holds : post pair a b) : Alike scene setup pair (pure a) (pure b) s t post :=
  Agree.of_pure twins holds

theorem of_throw {fault : Fault} {post : Pairing → α → β → Prop} (twins : Session.Twins scene pair s t) :
    Alike scene setup pair (throw fault) (throw fault) s t post :=
  Agree.of_throw twins

theorem of_bind {step : Generation α} {step' : Generation β} {next : α → Generation γ} {next' : β → Generation δ}
    {mid : Pairing → α → β → Prop} {post : Pairing → γ → δ → Prop}
    (first : Alike scene setup pair step step' s t mid)
    (second : ∀ {pair' a b s' t'}, pair ≤ pair' → Session.Twins scene pair' s' t' → mid pair' a b →
      Alike scene setup pair' (next a) (next' b) s' t' post) :
    Alike scene setup pair (step >>= next) (step' >>= next') s t post :=
  Agree.of_bind first fun _ _ _ _ _ => second

theorem of_ran {step : Generation α} {step' : Generation β} {next : α → Generation γ} {next' : β → Generation δ}
    {mid : Pairing → α → β → Prop} {post : Pairing → γ → δ → Prop}
    (first : Alike scene setup pair step step' s t mid)
    (second : ∀ {pair' a b s' t'}, step setup s = .ok a s' → step' setup t = .ok b t' → pair ≤ pair' →
      Session.Twins scene pair' s' t' → mid pair' a b → Alike scene setup pair' (next a) (next' b) s' t' post) :
    Alike scene setup pair (step >>= next) (step' >>= next') s t post :=
  Agree.of_ran first fun _ _ _ _ _ => second

theorem loosen {step : Generation α} {step' : Generation β} {post : Pairing → α → β → Prop}
    (alike : Alike scene setup pair step step' s t post) : Alike scene.loose setup pair step step' s t post :=
  Agree.widen alike fun _ _ _ => Session.Twins.loosen

theorem of_look {next : Session → Generation α} {next' : Session → Generation β} {post : Pairing → α → β → Prop}
    (alike : Alike scene setup pair (next s) (next' t) s t post) :
    Alike scene setup pair (get >>= next) (get >>= next') s t post :=
  alike

theorem of_read {next : Setup → Generation α} {next' : Setup → Generation β} {post : Pairing → α → β → Prop}
    (alike : Alike scene setup pair (next setup) (next' setup) s t post) :
    Alike scene setup pair (read >>= next) (read >>= next') s t post :=
  alike

theorem of_forest {next : Forest → Generation α} {next' : Forest → Generation β} {post : Pairing → α → β → Prop}
    (alike : Alike scene setup pair (next s.package.forest) (next' t.package.forest) s t post) :
    Alike scene setup pair (forest >>= next) (forest >>= next') s t post :=
  alike

theorem of_parent {next next' : Option NodeId → Generation α} {post : Pairing → α → α → Prop}
    (alike : Alike scene setup pair (next (s.index.parent? a)) (next' (t.index.parent? b)) s t post) :
    Alike scene setup pair (parent? a >>= next) (parent? b >>= next') s t post :=
  alike

theorem of_change {change change' : Session → Session} {next : Unit → Generation α} {next' : Unit → Generation β}
    {post : Pairing → α → β → Prop} (alike : Alike scene setup pair (next ()) (next' ()) (change s) (change' t) post) :
    Alike scene setup pair (modify change >>= next) (modify change' >>= next') s t post :=
  alike

/-- Loops over lists whose members belong together. -/
theorem of_forIn (r : Pairing → α → β → Prop) (mono : ∀ {pair pair' a b}, pair ≤ pair' → r pair a b → r pair' a b)
    {step : α → PUnit → Generation (ForInStep PUnit)} {step' : β → PUnit → Generation (ForInStep PUnit)}
    (each : ∀ {pair s t a b}, Session.Twins scene pair s t → r pair a b →
      Alike scene setup pair (step a ⟨⟩) (step' b ⟨⟩) s t fun _ x y => x = .yield ⟨⟩ ∧ y = .yield ⟨⟩)
    (twins : Session.Twins scene pair s t) {as : List α} {bs : List β} (met : List.Forall₂ (r pair) as bs) :
    Alike scene setup pair (forIn as ⟨⟩ step) (forIn bs ⟨⟩ step') s t fun _ _ _ => True := by
  induction as generalizing pair s t bs with
  | nil =>
    cases met
    rw [List.forIn_nil,List.forIn_nil]
    exact of_pure twins trivial
  | cons a as ih =>
    cases met with
    | cons here rest =>
      rw [List.forIn_cons,List.forIn_cons]
      refine of_bind (each twins here) ?_
      rintro pair' _ _ s t more twins ⟨rfl,rfl⟩
      exact ih twins (rest.imp fun _ _ => mono more)

theorem of_plant (twins : Session.Twins scene pair s t) (e : Element) {next next' : NodeId → Generation α}
    {post : Pairing → α → α → Prop}
    (second : ∀ {pair'}, pair ≤ pair' → Session.Twins scene pair' (s.planted e) (t.planted e) →
      (∀ k, pair' k (s.package.forest.plant e).1 (t.package.forest.plant e).1) →
        Alike scene setup pair' (next (s.package.forest.plant e).1) (next' (t.package.forest.plant e).1)
          (s.planted e) (t.planted e) post) :
    Alike scene setup pair (plant e >>= next) (plant e >>= next') s t post := by
  obtain ⟨pair',followed,new⟩ := twins.package.forests.plant e
  have later : Session.Twins scene pair' (s.planted e) (t.planted e) :=
    ⟨twins.package.follow followed,twins.rest,twins.direct⟩
  exact Agree.earlier (second followed.more later new) followed.more

end Alike

namespace Alike

variable (twins : Session.Twins scene pair s t)
include twins

theorem onPackage {step : Packaging α} {step' : Packaging β} {post : Pairing → α → β → Prop}
    (agree : Agree (Package.Twins scene s.part s.index t.index) pair step step' s.package t.package post) :
    Alike scene setup pair (onPackage step) (onPackage step') s t post := by
  unfold Alike Agree Generation.onPackage
  unfold Agree at agree
  have beside {p q : Package} {pair' : Pairing} (here : Package.Twins scene s.part s.index t.index pair' p q) :
      Session.Twins scene pair' { s with package := p } { t with package := q } := by
    refine ⟨here,?_,twins.direct⟩
    change { s.bare with package := p.bare } = { t.bare with package := q.bare }
    rw [twins.rest,here.rest]
  generalize step s.package = r,step' t.package = r' at agree
  cases agree with
  | ok pair' more here holds => exact .ok pair' more (beside here) holds
  | error pair' more here => exact .error pair' more (beside here)

theorem log (level : Level) (message : String) :
    Alike scene setup pair (Generation.log level message) (Generation.log level message) s t fun _ _ _ => True :=
  onPackage twins (twins.package.log level message)

theorem edit {change change' : Forest → Forest}
    (followed : ∃ pair', Followed scene pair s.package.forest t.package.forest pair' (change s.package.forest)
      (change' t.package.forest)) :
    Alike scene setup pair (Generation.edit change) (Generation.edit change') s t fun _ _ _ => True :=
  onPackage twins (twins.package.edit followed)

theorem ofExcept (result : Except Fault α) :
    Alike scene setup pair (Generation.ofExcept result) (Generation.ofExcept result) s t fun _ a b => a = b := by
  cases result with
  | ok a => exact of_pure twins rfl
  | error fault => exact of_throw twins

theorem record (kind : Directive.Kind) (key : Value) (status : Status) (reason : String) :
    Alike scene setup pair (Generation.record kind key status reason) (Generation.record kind key status reason) s t
      fun _ _ _ => True := by
  refine of_look ?_
  have part_eq : t.part = s.part := (congrArg (·.part) twins.rest).symm
  rw [part_eq]
  let o : Outcome := ⟨kind,key,status,reason,s.part⟩
  have later : Session.Twins scene pair { s with outcomes := s.outcomes ++ [o] }
      { t with outcomes := t.outcomes ++ [o] } :=
    ⟨twins.package,congrArg (fun u : Session => { u with outcomes := u.outcomes ++ [o] }) twins.rest,
      twins.direct⟩
  refine of_change ?_
  cases status with
  | failed => exact log later _ _
  | skipped =>
    dsimp only
    split
    · exact log later _ _
    · exact of_pure later trivial
  | applied => exact of_pure later trivial

omit twins in
theorem guarded {step step' : Generation α} (alike : Alike scene setup pair step step' s t fun _ a b => a = b) :
    Alike scene setup pair (Generation.guarded step) (Generation.guarded step') s t fun _ a b => a = b := by
  unfold Alike Agree Generation.guarded
  unfold Alike Agree at alike
  generalize step setup s = r,step' setup t = r' at alike
  cases alike with
  | ok pair' more here same => exact .ok pair' more here (congrArg Except.ok same)
  | @error fault _ _ pair' more here =>
    dsimp only
    split
    · exact .ok pair' more here rfl
    · exact .error pair' more here

/-- A change of the trees through the indices. -/
theorem change {step step' : Index → Forest → Except Fault (Bool × Index × Forest)}
    (changes : Index.Twins.Changes scene pair s.package.forest t.package.forest (step s.index s.package.forest)
      (step' t.index t.package.forest)) :
    Alike scene setup pair (Generation.change step) (Generation.change step') s t fun _ a b => a = b := by
  unfold Generation.change
  refine of_look ?_
  generalize step s.index s.package.forest = r,step' t.index t.package.forest = r' at changes
  cases changes with
  | fault fault => exact of_throw twins
  | done followed index =>
    have here := twins.package.follow followed
    exact .ok pair (le_refl pair) ⟨{ here with index := index },twins.rest,twins.direct⟩ rfl

end Alike
end
end Generation
end MailMerge
