import MailMerge.Proofs.Package.Outline

/-! Finding manifests. A manifest that is put to use follows the draft of its part, and that draft is
written by the next flush. A manifest in use is not looked for again, so its draft is left alone:
relations between outlines that mind no other draft last while manifests are found.
-/
namespace MailMerge
open Xml Docx Package

namespace Outlining

theorem touched_of_root? {name : String} {o o' : Outline} (ran : root? name o = .ok true o') :
    name ∈ o'.touched := by
  have touched (o : Outline) : name ∈ (o.touch name).touched := by
    simp only [Outline.touch]
    split
    · next present => simpa using present
    · simp
  rw [root?_run] at ran
  split at ran
  · obtain ⟨_,rfl⟩ := EStateM.Result.ok.inj ran
    exact touched _
  · split at ran
    · simp at ran
    · dsimp only at ran
      split at ran
      · simp at ran
      · obtain ⟨_,rfl⟩ := EStateM.Result.ok.inj ran
        exact touched _

/-- A manifest that was put to use follows its draft, which will be written. -/
private theorem used_of_rootUse {name : String} {o o' : Outline}
    (ran : (do if ← root? name then modify (·.use name) else throw () : Outlining Unit) o =
      .ok () o') : o'.manifests name = some true ∧ name ∈ o'.touched := by
  obtain ⟨known,q,found,ran⟩ := exists_of_bind_eq_result ran
  cases known with
  | false => simp [run_throw] at ran
  | true =>
    obtain ⟨_,rfl⟩ := EStateM.Result.ok.inj ran
    have touched : name ∈ q.touched := touched_of_root? found
    exact ⟨if_pos rfl,touched⟩

/-- Finding a manifest that is in use does nothing; another one is put to use. -/
theorem used_of_contentTypes {o o' : Outline} (ran : contentTypes o = .ok () o') :
    o' = o ∧ (o.manifests typesPart).isSome ∨
      o'.manifests typesPart = some true ∧ typesPart ∈ o'.touched := by
  unfold contentTypes at ran
  obtain ⟨_,_,looked,ran⟩ := exists_of_bind_eq_result ran
  obtain ⟨rfl,rfl⟩ := EStateM.Result.ok.inj looked
  cases used : o.manifests typesPart with
  | some following =>
    rw [used] at ran
    obtain ⟨_,rfl⟩ := EStateM.Result.ok.inj ran
    exact Or.inl ⟨rfl,rfl⟩
  | none =>
    rw [used] at ran
    obtain ⟨_,_,looked,ran⟩ := exists_of_bind_eq_result ran
    obtain ⟨rfl,rfl⟩ := EStateM.Result.ok.inj looked
    right
    split at ran
    · obtain ⟨_,_,_,ran⟩ := exists_of_bind_eq_result ran
      obtain ⟨known,_,_,ran⟩ := exists_of_bind_eq_result ran
      cases known with
      | false => exact used_of_rootUse ran
      | true =>
        obtain ⟨_,_,_,ran⟩ := exists_of_bind_eq_result ran
        obtain ⟨_,_,_,ran⟩ := exists_of_bind_eq_result ran
        obtain ⟨_,_,_,ran⟩ := exists_of_bind_eq_result ran
        exact used_of_rootUse ran
    · exact used_of_rootUse ran

theorem used_of_relationshipsOf {part : String} {o o' : Outline}
    (ran : relationshipsOf part o = .ok () o') :
    o' = o ∧ (o.manifests (Path.relationships part)).isSome ∨
      o'.manifests (Path.relationships part) = some true ∧
        Path.relationships part ∈ o'.touched := by
  unfold relationshipsOf at ran
  obtain ⟨_,_,looked,ran⟩ := exists_of_bind_eq_result ran
  obtain ⟨rfl,rfl⟩ := EStateM.Result.ok.inj looked
  simp only at ran
  cases used : o.manifests (Path.relationships part) with
  | some following =>
    rw [used] at ran
    obtain ⟨_,rfl⟩ := EStateM.Result.ok.inj ran
    exact Or.inl ⟨rfl,rfl⟩
  | none =>
    rw [used] at ran
    obtain ⟨_,_,looked,ran⟩ := exists_of_bind_eq_result ran
    obtain ⟨rfl,rfl⟩ := EStateM.Result.ok.inj looked
    right
    split at ran
    · obtain ⟨_,_,_,ran⟩ := exists_of_bind_eq_result ran
      obtain ⟨_,_,_,ran⟩ := exists_of_bind_eq_result ran
      obtain ⟨_,_,_,ran⟩ := exists_of_bind_eq_result ran
      exact used_of_rootUse ran
    · exact used_of_rootUse ran

end Outlining

/-- From two outlines, a step gives the same result and outlines that are related. -/
def Lasts (r : Outline → Outline → Prop) (step : Outlining α) (o o' : Outline) : Prop :=
  match step o, step o' with
  | .ok a q, .ok b q' => a = b ∧ r q q'
  | .error _ q, .error _ q' => r q q'
  | _, _ => False

namespace Lasts

variable {r : Outline → Outline → Prop} {o o' : Outline}

theorem of_bind {step : Outlining α} {next : α → Outlining β} (first : Lasts r step o o')
    (second : ∀ a q q', r q q' → Lasts r (next a) q q') : Lasts r (step >>= next) o o' := by
  unfold Lasts at first ⊢
  simp only [bind,EStateM.bind]
  cases ran : step o <;> cases ran' : step o' <;> rw [ran,ran'] at first
  · obtain ⟨rfl,related⟩ := first
    exact second _ _ _ related
  · exact first.elim
  · exact first.elim
  · exact first

theorem of_pure {a : α} (related : r o o') : Lasts r (pure a) o o' :=
  ⟨rfl,related⟩

theorem of_throw (related : r o o') : Lasts r (throw () : Outlining α) o o' :=
  related

theorem of_modify {change : Outline → Outline} (related : r (change o) (change o')) :
    Lasts r (modify change) o o' :=
  ⟨rfl,related⟩

/-- Looking at what is the same in both outlines. -/
theorem of_look {next : Outline → Outlining α} (same : next o' = next o)
    (lasts : Lasts r (next o) o o') : Lasts r (get >>= next) o o' := by
  have unfolded (o : Outline) : (get >>= next) o = next o o := rfl
  unfold Lasts at lasts ⊢
  rw [unfolded,unfolded,same]
  exact lasts

/-- The outlines after an operation. -/
theorem after {op : Operation} (lasts : Lasts r op.sketch o o') : r (o.after op) (o'.after op) := by
  unfold Lasts at lasts
  unfold Outline.after
  cases ran : op.sketch o <;> cases ran' : op.sketch o' <;> rw [ran,ran'] at lasts
  · exact lasts.2
  · exact lasts.elim
  · exact lasts.elim
  · exact lasts

end Lasts

/-- A relation between outlines in which a manifest is in use and follows its draft. The outlines
have the same parts and the same drafts of other parts, and the relation does not mind what becomes
of those. -/
structure Lasting (name : String) (r : Outline → Outline → Prop) : Prop where
  parts : ∀ {o o'}, r o o' → o'.parts = o.parts
  manifests : ∀ {o o'}, r o o' → o'.manifests = o.manifests
  prefixes : ∀ {o o'}, r o o' → o'.prefixes = o.prefixes
  drafts : ∀ {o o'}, r o o' → ∀ other, other ≠ name → o'.drafts other = o.drafts other
  follows : ∀ {o o'}, r o o' → o.manifests name = some true
  touch : ∀ {o o'}, r o o' → ∀ other, other ≠ name → r (o.touch other) (o'.touch other)
  enter : ∀ {o o'}, r o o' → ∀ prefixes,
    r { o with prefixes := prefixes } { o' with prefixes := prefixes }
  draw : ∀ {o o'}, r o o' → ∀ other d, other ≠ name → r (o.draw other d) (o'.draw other d)
  create : ∀ {o o'}, r o o' → ∀ other d, other ≠ name → r (o.create other d) (o'.create other d)
  use : ∀ {o o'}, r o o' → ∀ other, other ≠ name → r (o.use other) (o'.use other)
  amend : ∀ {o o'}, r o o' → ∀ other change, other ≠ name →
    r (o.amend other change) (o'.amend other change)
  ensureDefault : ∀ {o o'}, r o o' → ∀ extension type,
    r (o.amend name (·.ensureDefault extension type)) (o'.amend name (·.ensureDefault extension type))

namespace Lasting

variable {name : String} {r : Outline → Outline → Prop} {o o' : Outline}

/-- A manifest that is not in use is another one. -/
private theorem other_of_unused (lasting : Lasting name r) (related : r o o') {other : String}
    (unused : o.manifests other = none) : other ≠ name := by
  rintro rfl
  simp [lasting.follows related] at unused

/-- A change of a manifest in use. -/
theorem change (lasting : Lasting name r) (related : r o o') (other : String)
    (f : Element → Element) (here : other = name → r (o.amend name f) (o'.amend name f)) :
    r (o.change other f) (o'.change other f) := by
  unfold Outline.change
  rw [lasting.manifests related]
  split
  · by_cases same : other = name
    · exact same ▸ here same
    · exact lasting.amend related other f same
  · exact related

theorem root? (lasting : Lasting name r) (related : r o o') {other : String}
    (different : other ≠ name) : Lasts r (Outlining.root? other) o o' := by
  have drafts := lasting.drafts related other different
  unfold Outlining.root?
  apply Lasts.of_look (by simp only [drafts])
  cases o.drafts other with
  | some d =>
    apply Lasts.of_bind (Lasts.of_modify (lasting.touch related other different))
    intro _ q q' related
    exact Lasts.of_pure related
  | none =>
    apply Lasts.of_look (by simp only [lasting.parts related])
    cases o.parts.lookup other with
    | none => exact Lasts.of_pure related
    | some data =>
      apply Lasts.of_bind (Lasts.of_modify (by
        rw [lasting.prefixes related]
        exact lasting.enter related _))
      intro _ q q' related
      cases (readBytes data).root with
      | error problem => exact Lasts.of_throw related
      | ok e =>
        apply Lasts.of_bind (Lasts.of_modify
          (lasting.touch (lasting.draw related other _ different) other different))
        intro _ q q' related
        exact Lasts.of_pure related

private theorem rootUse (lasting : Lasting name r) (related : r o o') {other : String}
    (different : other ≠ name) : Lasts r
      (do if ← Outlining.root? other then modify (·.use other) else throw ()) o o' := by
  apply Lasts.of_bind (lasting.root? related different)
  intro known q q' related
  cases known with
  | true => exact Lasts.of_modify (lasting.use related other different)
  | false => exact Lasts.of_throw related

theorem contentTypes (lasting : Lasting name r) (related : r o o') :
    Lasts r Outlining.contentTypes o o' := by
  unfold Outlining.contentTypes
  apply Lasts.of_look (by simp only [lasting.manifests related])
  cases unused : o.manifests typesPart with
  | some following => exact Lasts.of_pure related
  | none =>
    have different := lasting.other_of_unused related unused
    apply Lasts.of_look (by simp only [lasting.parts related])
    split
    · apply Lasts.of_bind (Lasts.of_modify (lasting.create related _ _ different))
      intro _ q q' related
      apply Lasts.of_bind (lasting.root? related different)
      intro known q q' related
      cases known with
      | false => exact lasting.rootUse related different
      | true =>
        apply Lasts.of_bind (Lasts.of_modify (lasting.amend related _ _ different))
        intro _ q q' related
        apply Lasts.of_bind (Lasts.of_modify (lasting.amend related _ _ different))
        intro _ q q' related
        apply Lasts.of_bind (Lasts.of_modify (lasting.amend related _ _ different))
        intro _ q q' related
        exact lasting.rootUse related different
    · exact lasting.rootUse related different

theorem relationshipsOf (lasting : Lasting name r) (related : r o o') (part : String) :
    Lasts r (Outlining.relationshipsOf part) o o' := by
  unfold Outlining.relationshipsOf
  apply Lasts.of_look (by simp only [lasting.manifests related])
  simp only
  cases unused : o.manifests (Path.relationships part) with
  | some following => exact Lasts.of_pure related
  | none =>
    have different := lasting.other_of_unused related unused
    apply Lasts.of_look (by simp only [lasting.parts related])
    split
    · apply Lasts.of_bind (Lasts.of_modify (lasting.create related _ _ different))
      intro _ q q' related
      apply Lasts.of_bind (lasting.contentTypes related)
      intro _ q q' related
      apply Lasts.of_bind (Lasts.of_modify
        (lasting.change related _ _ fun _ => lasting.ensureDefault related _ _))
      intro _ q q' related
      exact lasting.rootUse related different
    · exact lasting.rootUse related different

end Lasting
end MailMerge
