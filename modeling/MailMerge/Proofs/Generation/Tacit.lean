import MailMerge.Proofs.Generation.Noted

/-! Steps that record nothing. Work on the package and its trees, and even an image or a chart that is given
up halfway, adds no outcome and stays in the part at work; whatever a paragraph has to tell is told by the
rules themselves.
-/
namespace MailMerge
open Generation

variable {setup : Setup} {s s' s'' : Session} {α β : Type}

/-- A later session has the part at work and the outcomes of an earlier one. -/
structure Session.Mute (s s' : Session) : Prop where
  outcomes_eq : s'.outcomes = s.outcomes
  part_eq : s'.part = s.part

theorem Session.Mute.refl (s : Session) : s.Mute s :=
  ⟨rfl,rfl⟩

theorem Session.Mute.trans (first : s.Mute s') (second : s'.Mute s'') : s.Mute s'' :=
  ⟨second.outcomes_eq.trans first.outcomes_eq,second.part_eq.trans first.part_eq⟩

namespace Generation

/-- A step records nothing, also when it fails. -/
def Tacit (step : Generation α) : Prop :=
  ∀ (setup : Setup) (s : Session), s.Mute (ending (step setup s))

namespace Tacit

theorem mute {step : Generation α} {a : α} (tacit : Tacit step) (ran : step setup s = .ok a s') :
    s.Mute s' := by
  have here := tacit setup s
  rwa [ran] at here

theorem of_bind {step : Generation α} {next : α → Generation β} (first : Tacit step)
    (second : ∀ a, Tacit (next a)) : Tacit (step >>= next) := by
  intro setup s
  have here := first setup s
  rw [bind_apply]
  cases ran : step setup s <;> rw [ran] at here
  · exact here.trans (second _ setup _)
  · exact here

theorem of_pure (a : α) : Tacit (pure a) :=
  fun _ _ => ⟨rfl,rfl⟩

theorem of_throw (fault : Fault) : Tacit (throw fault : Generation α) :=
  fun _ _ => ⟨rfl,rfl⟩

theorem of_ofExcept (result : Except Fault α) : Tacit (ofExcept result) := by
  cases result with
  | ok a => exact of_pure a
  | error fault => exact of_throw fault

theorem of_look {next : Session → Generation α} (all : ∀ s, Tacit (next s)) : Tacit (get >>= next) :=
  fun setup s => all s setup s

theorem of_look_setup {next : Setup → Generation α} (all : ∀ setup, Tacit (next setup)) :
    Tacit (read >>= next) :=
  fun setup s => all setup setup s

theorem of_modify {change : Session → Session} (mute : ∀ s : Session, s.Mute (change s)) :
    Tacit (modify change) :=
  fun _ s => mute s

theorem of_onPackage (operation : Packaging α) : Tacit (onPackage operation) := by
  intro setup s
  unfold onPackage
  cases operation s.package <;> exact ⟨rfl,rfl⟩

theorem of_change (step : Index → Forest → Except Fault (Bool × Index × Forest)) :
    Tacit (change step) := by
  intro setup s
  rw [change_apply]
  cases step s.index s.package.forest <;> exact ⟨rfl,rfl⟩

theorem of_guarded {step : Generation α} (tacit : Tacit step) : Tacit (guarded step) := by
  intro setup s
  have here := tacit setup s
  unfold guarded
  cases ran : step setup s <;> rw [ran] at here
  · exact here
  · dsimp only
    split <;> exact here

end Tacit
end Generation

namespace Embed

private theorem tacit_image (data : ByteArray) (extension : String) (width height : Value) :
    Tacit (Embed.image data extension width height) := by
  refine .of_look_setup fun setup => .of_bind (.of_ofExcept _) fun found => ?_
  obtain ⟨stored,detected⟩ := found
  dsimp -zeta only
  extract_lets file key store
  have tacit_store : Tacit (store ()) := by
    refine .of_look fun s => .of_bind (.of_onPackage _) fun links => .of_look fun s => .of_look fun s =>
      .of_look fun s => .of_bind (.of_modify fun s => ⟨rfl,rfl⟩) fun _ =>
        .of_bind (.of_onPackage _) fun _ => .of_bind (.of_onPackage _) fun types => ?_
    cases setup.settings.imageTypes.lookup stored with
    | some type =>
      exact .of_bind (.of_onPackage _) fun _ => .of_bind (.of_onPackage _) fun _ =>
        .of_bind (.of_ofExcept _) fun _ => .of_pure _
    | none => exact .of_bind (.of_throw _) fun _ => .of_bind (.of_onPackage _) fun _ =>
        .of_bind (.of_ofExcept _) fun _ => .of_pure _
  split
  · exact .of_bind (.of_onPackage _) fun _ => tacit_store
  · exact tacit_store

theorem tacit_fetched (address : String) (width height : Value) :
    Tacit (Embed.fetched address width height) := by
  refine .of_look_setup fun setup => .of_look fun s => ?_
  dsimp only
  have fetch : Tacit (do
      let data ← Generation.ofExcept (setup.network.fetch setup.settings address)
      Generation.log .debug s!"Fetched {address} ({data.size} bytes)"
      let extension ← Generation.ofExcept (Address.extension address setup.settings.imageExtension)
      image data extension width height) :=
    .of_bind (.of_ofExcept _) fun data => .of_bind (.of_onPackage _) fun _ =>
      .of_bind (.of_ofExcept _) fun extension => tacit_image _ _ _ _
  split
  · exact .of_bind (.of_throw _) fun _ => fetch
  · exact fetch

theorem tacit_chart (kind : String) (rows : Value) (title : Option String) (width height : Value) :
    Tacit (Embed.chart kind rows title width height) := by
  refine .of_look_setup fun setup => .of_bind (.of_ofExcept _) fun root => .of_look fun s => ?_
  refine .of_look fun s => .of_bind (.of_onPackage _) fun links => .of_look fun s => .of_look fun s =>
    .of_bind (.of_modify fun s => ⟨rfl,rfl⟩) fun _ => .of_look fun s => ?_
  exact .of_bind (.of_onPackage _) fun _ => .of_bind (.of_onPackage _) fun types =>
    .of_bind (.of_onPackage _) fun _ => .of_bind (.of_onPackage _) fun _ =>
      .of_bind (.of_ofExcept _) fun _ => .of_pure _

end Embed

namespace Fill

theorem tacit_write (t : Target) (text : List Char) : Tacit (t.write text) := by
  unfold Target.write
  exact .of_onPackage _

theorem tacit_removeParagraph (paragraph : NodeId) : Tacit (removeParagraph paragraph) := by
  refine .of_look fun s => .of_bind (.of_change _) fun _ => ?_
  cases s.index.parent? paragraph with
  | none => exact .of_pure ()
  | some cell =>
    refine .of_look fun s => ?_
    split
    · exact .of_bind (.of_onPackage _) fun _ => .of_onPackage _
    · exact .of_pure ()

theorem tacit_putTable (paragraph table : NodeId) : Tacit (putTable paragraph table) := by
  refine .of_look fun s => .of_bind (.of_change _) fun _ => ?_
  cases s.index.parent? paragraph with
  | none => exact .of_pure ()
  | some cell =>
    refine .of_look fun s => ?_
    split
    · exact .of_bind (.of_onPackage _) fun _ => .of_bind (.of_change _) fun _ => .of_pure ()
    · exact .of_pure ()

end Fill
end MailMerge
