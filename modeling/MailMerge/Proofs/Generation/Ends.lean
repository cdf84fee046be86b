import MailMerge.Proofs.Generation.World

/-! How the steps of a generation end: a step that gives a result has come there by moves; a step
that fails with a fault of the engine's own family, after which work goes on, has too.
-/
namespace MailMerge
open Relation

/-- One step after another. -/
theorem Generation.bind_apply {α β : Type} (step : Generation α) (next : α → Generation β)
    (setup : Setup) (s : Session) : (step >>= next) setup s = match step setup s with
      | .ok a s => next a setup s
      | .error fault s => .error fault s := by
  simp only [bind,ReaderT.bind,EStateM.bind]
  cases step setup s <;> rfl

/-- From a world, a step makes moves of a kind, and if it gives a result, result and world
satisfy a condition. -/
def Ends {α : Type} (r : World → World → Prop) (setup : Setup) (step : Generation α) (w : World)
    (post : α → World → Prop) : Prop :=
  match step setup w.session with
  | .ok a s => ∃ w' : World, w'.session = s ∧ ReflTransGen r w w' ∧ post a w'
  | .error fault s => fault.isOwn = true → ∃ w' : World, w'.session = s ∧ ReflTransGen r w w'

namespace Ends

variable {α β : Type} {r r' : World → World → Prop} {setup : Setup} {w : World}

section
variable {step : Generation α} {post post' : α → World → Prop}

theorem mono (ends : Ends r setup step w post)
    (implies : ∀ a w', ReflTransGen r w w' → post a w' → post' a w') :
    Ends r setup step w post' := by
  unfold Ends at *
  split
  · next ran =>
    rw [ran] at ends
    obtain ⟨w',session_eq,moves,holds⟩ := ends
    exact ⟨w',session_eq,moves,implies _ w' moves holds⟩
  · next ran =>
    rw [ran] at ends
    exact ends

/-- Moves of a kind are moves of a wider kind. -/
theorem widen (ends : Ends r setup step w post) (wider : r ≤ r') : Ends r' setup step w post := by
  unfold Ends at *
  split
  · next ran =>
    rw [ran] at ends
    obtain ⟨w',session_eq,moves,holds⟩ := ends
    exact ⟨w',session_eq,ReflTransGen.mono wider _ _ moves,holds⟩
  · next ran =>
    rw [ran] at ends
    intro own
    obtain ⟨w',session_eq,moves⟩ := ends own
    exact ⟨w',session_eq,ReflTransGen.mono wider _ _ moves⟩

/-- Moves of a kind are remembered where they are seen as moves of a wider kind. -/
theorem remember (ends : Ends r setup step w post) (wider : r ≤ r') :
    Ends r' setup step w fun a w' => post a w' ∧ ReflTransGen r w w' :=
  (ends.mono fun _ _ moves holds => ⟨holds,moves⟩).widen wider

/-- What a step that came to its end shows. -/
theorem of_ok (ends : Ends r setup step w post) {a : α} {s : Session}
    (ran : step setup w.session = .ok a s) :
    ∃ w' : World, w'.session = s ∧ ReflTransGen r w w' ∧ post a w' := by
  unfold Ends at ends
  rwa [ran] at ends

end

theorem of_pure {a : α} {post : α → World → Prop} (holds : post a w) :
    Ends r setup (pure a) w post :=
  ⟨w,rfl,ReflTransGen.refl,holds⟩

theorem of_bind {step : Generation α} {next : α → Generation β} {mid : α → World → Prop}
    {post : β → World → Prop} (first : Ends r setup step w mid)
    (second : ∀ a w', ReflTransGen r w w' → mid a w' → Ends r setup (next a) w' post) :
    Ends r setup (step >>= next) w post := by
  unfold Ends at *
  rw [Generation.bind_apply]
  cases ran : step setup w.session with
  | error fault s =>
    rw [ran] at first
    exact first
  | ok a s =>
    rw [ran] at first
    obtain ⟨w',rfl,moves,holds⟩ := first
    have rest := second a w' moves holds
    simp only
    split
    · next ran' =>
      rw [ran'] at rest
      obtain ⟨w'',session_eq,moves',holds'⟩ := rest
      exact ⟨w'',session_eq,moves.trans moves',holds'⟩
    · next ran' =>
      rw [ran'] at rest
      intro own
      obtain ⟨w'',session_eq,moves'⟩ := rest own
      exact ⟨w'',session_eq,moves.trans moves'⟩

/-- Looking at the session. -/
theorem of_look {next : Session → Generation α} {post : α → World → Prop}
    (ends : Ends r setup (next w.session) w post) : Ends r setup (get >>= next) w post :=
  ends

/-- Looking at what does not change. -/
theorem of_look_setup {next : Setup → Generation α} {post : α → World → Prop}
    (ends : Ends r setup (next setup) w post) : Ends r setup (read >>= next) w post :=
  ends

theorem of_look_forest {next : Forest → Generation α} {post : α → World → Prop}
    (ends : Ends r setup (next w.package.forest) w post) :
    Ends r setup (Generation.forest >>= next) w post :=
  ends

theorem of_modify {change : Session → Session} (post : Unit → World → Prop) (w' : World)
    (same : w'.session = change w.session) (move : r w w') (holds : post () w') :
    Ends r setup (modify change) w post :=
  ⟨w',same,ReflTransGen.single move,holds⟩

theorem of_throw {fault : Fault} {post : α → World → Prop} :
    Ends r setup (throw fault) w post :=
  fun _ => ⟨w,rfl,ReflTransGen.refl⟩

/-- Nothing comes after a fault. -/
theorem of_stop {fault : Fault} {next : α → Generation β} {post : β → World → Prop} :
    Ends r setup (throw fault >>= next) w post :=
  fun _ => ⟨w,rfl,ReflTransGen.refl⟩

theorem of_ofExcept {result : Except Fault α} {post : α → World → Prop}
    (holds : ∀ a, result = .ok a → post a w) :
    Ends r setup (Generation.ofExcept result) w post := by
  cases result with
  | ok a => exact of_pure (holds a rfl)
  | error fault => exact of_throw

/-- The result of an operation that may fail is used. -/
theorem of_given {result : Except Fault α} {next : α → Generation β} {post : β → World → Prop}
    (ends : ∀ a, result = .ok a → Ends r setup (next a) w post) :
    Ends r setup (Generation.ofExcept result >>= next) w post := by
  cases result with
  | ok a => exact ends a rfl
  | error fault => exact fun _ => ⟨w,rfl,ReflTransGen.refl⟩

/-- A guarded step goes on after a fault of the engine's own family. -/
theorem of_guarded (post : Except Fault α → World → Prop) {step : Generation α}
    (ends : Ends r setup step w fun a w' => post (.ok a) w')
    (failed : ∀ fault w', ReflTransGen r w w' → post (.error fault) w') :
    Ends r setup (Generation.guarded step) w post := by
  unfold Ends Generation.guarded at *
  cases ran : step setup w.session with
  | ok a s =>
    rw [ran] at ends
    exact ends
  | error fault s =>
    rw [ran] at ends
    by_cases own : fault.isOwn = true
    · obtain ⟨w',session_eq,moves⟩ := ends own
      simp only [own,if_true]
      exact ⟨w',session_eq,moves,failed fault w' moves⟩
    · simp only [own]
      exact fun impossible => absurd impossible own

/-- A loop over a list keeps what its body keeps. -/
theorem of_forIn {σ : Type} (kept : σ → World → Prop) {items : List α}
    {body : α → σ → Generation (ForInStep σ)} {init : σ} (begun : kept init w)
    (each : ∀ a ∈ items, ∀ b w', ReflTransGen r w w' → kept b w' →
      Ends r setup (body a b) w' fun next w'' => ∃ b', next = .yield b' ∧ kept b' w'') :
    Ends r setup (forIn items init body) w kept := by
  induction items generalizing init w with
  | nil => exact of_pure begun
  | cons a items ih =>
    rw [List.forIn_cons]
    apply of_bind (each a List.mem_cons_self init w ReflTransGen.refl begun)
    rintro _ w' moves ⟨b,rfl,holds⟩
    apply ih holds
    intro a' member b' w'' moves' holds'
    exact each a' (List.mem_cons_of_mem a member) b' w'' (moves.trans moves') holds'

end Ends
end MailMerge
