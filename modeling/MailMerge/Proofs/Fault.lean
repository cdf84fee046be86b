import MailMerge.Fault

/-! Results of steps that may fail. -/
namespace MailMerge

theorem exists_of_bind_eq_ok {first : Except ε α} {next : α → Except ε β} {b : β}
    (ok : (first >>= next) = .ok b) : ∃ a, first = .ok a ∧ next a = .ok b := by
  cases first with
  | error fault => simp [bind,Except.bind] at ok
  | ok a => exact ⟨a,rfl,ok⟩

theorem cases_of_bind_eq_error {first : Except ε α} {next : α → Except ε β} {fault : ε}
    (failed : (first >>= next) = .error fault) :
    first = .error fault ∨ ∃ a, first = .ok a ∧ next a = .error fault := by
  cases first with
  | error other => exact Or.inl (congrArg _ (Except.error.inj failed))
  | ok a => exact Or.inr ⟨a,rfl,failed⟩

theorem eq_ok_of_toOption {e : Except ε α} {a : α} (found : e.toOption = some a) : e = .ok a := by
  cases e with
  | error fault => simp [Except.toOption] at found
  | ok b => exact congrArg Except.ok (Option.some.inj found)

theorem exists_of_isOk {e : Except ε α} (ok : e.isOk = true) : ∃ a, e = .ok a := by
  cases e with
  | error fault => exact nomatch ok
  | ok a => exact ⟨a,rfl⟩

/-- The state that an operation ends in if it does not fail. -/
def final? (r : EStateM.Result ε σ α) : Option σ :=
  match r with
  | .ok _ s => some s
  | .error _ _ => none

theorem exists_of_final? {r : EStateM.Result ε σ α} {s : σ} (found : final? r = some s) :
    ∃ a, r = .ok a s := by
  cases r with
  | ok a t => exact ⟨a,congrArg (EStateM.Result.ok a) (Option.some.inj found)⟩
  | error fault t => simp [final?] at found

theorem exists_of_bind_eq_result {first : EStateM ε σ α} {next : α → EStateM ε σ β} {s t : σ}
    {b : β} (ok : (first >>= next) s = .ok b t) :
    ∃ a u, first s = .ok a u ∧ next a u = .ok b t := by
  simp only [bind,EStateM.bind] at ok
  cases ran : first s with
  | ok a u => exact ⟨a,u,rfl,by simpa only [ran] using ok⟩
  | error fault u => simp [ran] at ok

/-! Single steps of an operation on a state. -/

section
variable {ε σ α : Type}

theorem run_get_bind (next : σ → EStateM ε σ α) (s : σ) : (get >>= next) s = next s s := rfl

theorem run_modify_bind (change : σ → σ) (next : PUnit → EStateM ε σ α) (s : σ) :
    (modify change >>= next) s = next ⟨⟩ (change s) := rfl

theorem run_throw (fault : ε) (s : σ) :
    (throw fault : EStateM ε σ α) s = .error fault s := rfl

end

/-- What the results of a step on some items share with the items. -/
theorem map_of_mapM_eq_ok {step : α → Except ε β} {items : List α} {results : List β}
    (ok : items.mapM step = .ok results) {f : β → γ} {g : α → γ}
    (each : ∀ a b, step a = .ok b → f b = g a) : results.map f = items.map g := by
  induction items generalizing results with
  | nil =>
    obtain rfl := Except.ok.inj ok
    rfl
  | cons a items ih =>
    rw [List.mapM_cons] at ok
    obtain ⟨b,first,ok⟩ := exists_of_bind_eq_ok ok
    obtain ⟨rest,later,ok⟩ := exists_of_bind_eq_ok ok
    obtain rfl := Except.ok.inj ok
    rw [List.map_cons,List.map_cons,each a b first,ih later]

theorem mapM_map_eq_ok {step : β → Except ε α} {f : α → β} {items : List α}
    (each : ∀ a ∈ items, step (f a) = .ok a) : (items.map f).mapM step = .ok items := by
  induction items with
  | nil => rfl
  | cons a items ih =>
    rw [List.map_cons,List.mapM_cons,each a List.mem_cons_self,
      ih fun a member => each a (List.mem_cons_of_mem _ member)]
    rfl

/-- A step that gives what a partial function has gives the values of the function. -/
theorem mapM_eq_filterMap {step : α → Except ε β} {f : α → Option β} {items : List α}
    (each : ∀ a ∈ items, ∃ b, f a = some b ∧ step a = .ok b) : items.mapM step = .ok (items.filterMap f) := by
  induction items with
  | nil => rfl
  | cons a items ih =>
    obtain ⟨b,known,given⟩ := each a List.mem_cons_self
    rw [List.mapM_cons,given,ih fun a' member => each a' (List.mem_cons_of_mem a member),
      List.filterMap_cons_some known]
    rfl

/-- What fails on some items fails on one of them. -/
theorem exists_of_mapM_eq_error {step : α → Except ε β} {items : List α} {fault : ε}
    (failed : items.mapM step = .error fault) : ∃ a ∈ items, step a = .error fault := by
  induction items with
  | nil => exact nomatch failed
  | cons a items ih =>
    rw [List.mapM_cons] at failed
    rcases cases_of_bind_eq_error failed with here | ⟨b,-,failed⟩
    · exact ⟨a,List.mem_cons_self,here⟩
    · rcases cases_of_bind_eq_error failed with later | ⟨bs,-,failed⟩
      · obtain ⟨a',member,step_eq⟩ := ih later
        exact ⟨a',List.mem_cons_of_mem a member,step_eq⟩
      · exact nomatch failed

/-- Every item has its result. -/
theorem exists_of_mem_mapM {step : α → Except ε β} {items : List α} {results : List β}
    (ok : items.mapM step = .ok results) {a : α} (member : a ∈ items) :
    ∃ b ∈ results, step a = .ok b := by
  induction items generalizing results with
  | nil => simp at member
  | cons first items ih =>
    rw [List.mapM_cons] at ok
    obtain ⟨b,here,ok⟩ := exists_of_bind_eq_ok ok
    obtain ⟨rest,later,ok⟩ := exists_of_bind_eq_ok ok
    obtain rfl := Except.ok.inj ok
    rcases List.mem_cons.mp member with rfl | member
    · exact ⟨b,List.mem_cons_self,here⟩
    · obtain ⟨b',member',there⟩ := ih later member
      exact ⟨b',List.mem_cons_of_mem b member',there⟩

end MailMerge
