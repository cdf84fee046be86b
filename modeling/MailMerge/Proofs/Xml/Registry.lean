import MailMerge.Xml.Writer
import Mathlib.Data.List.Nodup

/-! Registries of prefixes. What a registry proposes for one namespace changes with each declaration in a
simple way, so what a list of declarations leaves of it depends on little. And what an element is
written as depends on no more of a registry than what it proposes for the namespaces of the element.
-/
namespace MailMerge.Xml

namespace Registry

/-- A prefix can be registered. -/
def admits (label : String) : Bool :=
  !(label == "" || isReserved label)

/-- Registers the prefixes of declarations, except those that cannot be registered. -/
def enter (registry : Registry) (declared : List (String × String)) : Registry :=
  declared.foldl (fun registry d =>
    if d.1 == "" || isReserved d.1 then registry else registry.register d.1 d.2) registry

/-- What a declaration makes of the proposal for a namespace. -/
def adjust (space : String) (proposal : Option String) (d : String × String) : Option String :=
  if !admits d.1 then proposal
  else if d.2 = space then some d.1
  else if proposal = some d.1 then none
  else proposal

/-- There is no more than one proposal for a namespace. -/
def Proper (registry : Registry) : Prop :=
  (registry.map (·.1)).Nodup

variable {registry : Registry}

theorem label?_cons (entry : String × String) (rest : Registry) (space : String) :
    label? (entry :: rest) space = if entry.1 = space then some entry.2 else rest.label? space := by
  unfold label?
  rw [List.find?_cons]
  by_cases same : entry.1 = space
  · simp [same]
  · simp [same,beq_eq_false_iff_ne.mpr same]

theorem label?_eq_none {space : String} (absent : space ∉ registry.map (·.1)) :
    registry.label? space = none := by
  induction registry with
  | nil => rfl
  | cons entry rest ih =>
    rw [List.map_cons,List.mem_cons,not_or] at absent
    rw [label?_cons,if_neg (Ne.symm absent.1),ih absent.2]

theorem label?_append (first second : Registry) (space : String) :
    label? (first ++ second) space = (first.label? space).or (second.label? space) := by
  simp only [label?,List.find?_append]
  cases first.find? (·.1 == space) <;> rfl

theorem Proper.register (proper : registry.Proper) (label space : String) :
    (registry.register label space).Proper := by
  unfold Proper Registry.register
  rw [List.map_append]
  refine List.Nodup.append (proper.sublist (List.filter_sublist.map _))
    (List.nodup_singleton _) ?_
  simp [List.disjoint_singleton]

/-- Dropping the proposals for one namespace and those of one prefix. -/
private theorem label?_dropped (proper : registry.Proper) {label space other : String}
    (different : other ≠ space) :
    label? (registry.filter fun entry => entry.1 != space && entry.2 != label) other =
      if registry.label? other = some label then none else registry.label? other := by
  induction registry with
  | nil => rfl
  | cons entry rest ih =>
    obtain ⟨absent,proper⟩ : entry.1 ∉ rest.map (·.1) ∧ Proper rest := List.nodup_cons.mp proper
    have later := ih proper
    by_cases here : entry.1 = other
    · have gone : label? rest other = none := label?_eq_none (here ▸ absent)
      rw [gone] at later
      by_cases same : entry.2 = label
      · simpa [label?_cons,List.filter_cons,here,same,different] using later
      · simp [label?_cons,here,same,different]
    · rw [label?_cons,if_neg here,List.filter_cons]
      split
      · rw [label?_cons,if_neg here,later]
      · exact later

theorem label?_register (proper : registry.Proper) (label space other : String) :
    (registry.register label space).label? other =
      if space = other then some label
      else if registry.label? other = some label then none else registry.label? other := by
  unfold Registry.register
  rw [label?_append,label?_cons]
  by_cases same : space = other
  · subst same
    have dropped : label? (registry.filter fun entry => entry.1 != space && entry.2 != label)
        space = none := by
      apply label?_eq_none
      simp
    simp [dropped]
  · rw [label?_dropped proper (Ne.symm same),if_neg same,if_neg same]
    exact Option.or_none

private theorem enter_cons (registry : Registry) (d : String × String)
    (declared : List (String × String)) : registry.enter (d :: declared) =
      (if admits d.1 then registry.register d.1 d.2 else registry).enter declared := by
  unfold enter admits
  rw [List.foldl_cons]
  cases d.1 == "" || isReserved d.1 <;> rfl

theorem Proper.enter (proper : registry.Proper) (declared : List (String × String)) :
    (registry.enter declared).Proper := by
  induction declared generalizing registry with
  | nil => exact proper
  | cons d declared ih =>
    rw [enter_cons]
    split
    · exact ih (proper.register d.1 d.2)
    · exact ih proper

/-- Of a list of declarations a namespace sees what each makes of its proposal. -/
theorem label?_enter (proper : registry.Proper) (declared : List (String × String))
    (space : String) :
    (registry.enter declared).label? space =
      declared.foldl (adjust space) (registry.label? space) := by
  induction declared generalizing registry with
  | nil => rfl
  | cons d declared ih =>
    rw [enter_cons,List.foldl_cons]
    split
    · next admitted =>
      rw [ih (proper.register d.1 d.2),label?_register proper]
      simp [adjust,admitted]
    · next refused =>
      rw [ih proper]
      simp [adjust,refused]

/-- A declaration binds the namespace to the proposal and nothing else to it. -/
def Agrees (space : String) (proposal : Option String) (d : String × String) : Prop :=
  admits d.1 = true → (d.2 = space ↔ proposal = some d.1)

/-- Declarations that agree with a proposal keep it. -/
theorem foldl_adjust_of_agrees {space : String} {proposal : Option String}
    {declared : List (String × String)} (agree : ∀ d ∈ declared, Agrees space proposal d) :
    declared.foldl (adjust space) proposal = proposal := by
  induction declared with
  | nil => rfl
  | cons d declared ih =>
    obtain ⟨first,later⟩ := List.forall_mem_cons.mp agree
    have kept : adjust space proposal d = proposal := by
      unfold adjust
      cases admitted : admits d.1 with
      | false => rfl
      | true =>
        have bound := first admitted
        by_cases here : d.2 = space
        · simp [here,bound.mp here]
        · have free : proposal ≠ some d.1 := fun same => here (bound.mpr same)
          simp [here,free]
    rw [List.foldl_cons,kept,ih later]

/-- Declarations of other namespaces keep a proposal or drop it. -/
private theorem foldl_adjust_elsewhere {space : String} {declared : List (String × String)}
    (elsewhere : ∀ d ∈ declared, admits d.1 = true → d.2 ≠ space) (proposal : Option String) :
    declared.foldl (adjust space) proposal = proposal ∨
      declared.foldl (adjust space) proposal = none := by
  induction declared generalizing proposal with
  | nil => exact Or.inl rfl
  | cons d declared ih =>
    obtain ⟨first,later⟩ := List.forall_mem_cons.mp elsewhere
    rw [List.foldl_cons]
    have step : adjust space proposal d = proposal ∨ adjust space proposal d = none := by
      unfold adjust
      cases admitted : admits d.1 with
      | false => exact Or.inl rfl
      | true =>
        rw [if_neg (by simp),if_neg (first admitted)]
        split
        · exact Or.inr rfl
        · exact Or.inl rfl
    rcases step with same | dropped
    · rw [same]
      exact ih later proposal
    · rw [dropped]
      exact Or.inr ((ih later none).elim id id)

/-- What declarations make of the proposal for a namespace: always the same if one of them declares it,
otherwise they keep it or drop it. -/
private theorem foldl_adjust_cases (space : String) (declared : List (String × String)) :
    (∃ outcome, ∀ proposal, declared.foldl (adjust space) proposal = outcome) ∨
      ∀ d ∈ declared, admits d.1 = true → d.2 ≠ space := by
  induction declared with
  | nil => exact Or.inr (by simp)
  | cons d declared ih =>
    rcases ih with ⟨outcome,always⟩ | elsewhere
    · exact Or.inl ⟨outcome,fun proposal => always _⟩
    · by_cases here : admits d.1 = true ∧ d.2 = space
      · refine Or.inl ⟨declared.foldl (adjust space) (some d.1),fun proposal => ?_⟩
        simp [adjust,here.1,here.2]
      · refine Or.inr (List.forall_mem_cons.mpr ⟨fun admitted same => ?_,elsewhere⟩)
        exact here ⟨admitted,same⟩

/-- Declarations that agree with the outcome of others make no difference before them. -/
theorem foldl_adjust_after {space : String} {before : Option String}
    {own others : List (String × String)}
    (agree : ∀ d ∈ others, Agrees space (own.foldl (adjust space) before) d) :
    own.foldl (adjust space) (others.foldl (adjust space) before) =
      own.foldl (adjust space) before := by
  rcases foldl_adjust_cases space own with ⟨outcome,always⟩ | elsewhere
  · rw [always,always]
  · rcases foldl_adjust_elsewhere elsewhere before with kept | dropped
    · -- the others agree with what there was before
      rw [kept] at agree
      rw [foldl_adjust_of_agrees agree]
    · -- the others do not declare the namespace, so they keep its proposal or drop it
      rw [dropped] at agree ⊢
      have apart : ∀ d ∈ others, admits d.1 = true → d.2 ≠ space := by
        intro d member admitted here
        simpa using (agree d member admitted).mp here
      rcases foldl_adjust_elsewhere apart before with same | none
      · rw [same,dropped]
      · rw [none]
        exact (foldl_adjust_elsewhere elsewhere Option.none).elim id id

/-- Between declarations that agree with its outcome, a list of declarations leaves what it leaves
alone. -/
theorem label?_enter_between (proper : registry.Proper) {space : String}
    {before own later : List (String × String)} (agree : ∀ d ∈ before ++ later,
      Agrees space ((registry.enter own).label? space) d) :
    (((registry.enter before).enter own).enter later).label? space =
      (registry.enter own).label? space := by
  have proper₁ := proper.enter before
  have proper₂ := proper₁.enter own
  rw [label?_enter proper] at agree
  have first := foldl_adjust_after fun d member => agree d (List.mem_append_left _ member)
  have second := foldl_adjust_of_agrees fun d member => agree d (List.mem_append_right _ member)
  rw [label?_enter proper₂,label?_enter proper₁,label?_enter proper,first,second,
    label?_enter proper]

end Registry

/-- An element uses a namespace in the name of a tag or of an attribute. -/
def Element.Uses (e : Element) (space : String) : Prop :=
  ∃ name ∈ e.names, name.space = some space

/-- The scope of some names takes from a registry only what it proposes for their namespaces. -/
theorem Scope.ofNames_congr {registry registry' : Registry} {names : List Name}
    (same : ∀ name ∈ names, ∀ space, name.space = some space →
      registry.label? space = registry'.label? space) :
    Scope.ofNames registry names = Scope.ofNames registry' names := by
  unfold Scope.ofNames
  apply List.foldl_ext
  intro scope name member
  cases used : name.space with
  | none => rfl
  | some space => simp only [Scope.add,same name member space used]

/-- An element is written in the same way under registries that propose the same prefixes for its
namespaces. -/
theorem Element.markup_congr {registry registry' : Registry} {e : Element}
    (same : ∀ space, e.Uses space → registry.label? space = registry'.label? space) :
    e.markup registry = e.markup registry' := by
  have scopes := Scope.ofNames_congr fun name member space used => same space ⟨name,member,used⟩
  simp only [markup,scopes]

end MailMerge.Xml
