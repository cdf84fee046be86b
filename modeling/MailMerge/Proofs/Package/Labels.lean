import MailMerge.Proofs.Package.Entry

/-! The elements of a manifest as a list. In document order they are labels, each with a name and
attributes; changing the first entry that fits, or else adding one, is the same for the list.
What is then found under a key is what was put there, and all else is found as before.
-/
namespace MailMerge
open Xml Docx

namespace Label

/-- The identifier in the label of a relationship; it may lack one. -/
def id? (l : Label) : Option (Option String) :=
  if l.1 = .within relationshipsSpace "Relationship" then some (l.2.get? (.bare "Id")) else none

section
variable (test : Label → Bool) (change : Attributes → Attributes)

/-- Changes the first label that passes a test, or adds a new one. -/
def put (new : Label) (ls : List Label) : List Label :=
  (changeFirst? test change ls).getD (ls ++ [new])

end

variable {test : Label → Bool} {change : Attributes → Attributes} {ls ls' : List Label}

theorem changeFirst?_eq_none : changeFirst? test change ls = none ↔ ∀ l ∈ ls, test l = false := by
  induction ls with
  | nil => simp [changeFirst?]
  | cons l ls ih =>
    rw [changeFirst?]
    cases here : test l <;> simp [here,ih]

/-- What is seen of labels whose test fails, and of what is left alone in the others, stays. -/
theorem filterMap_changeFirst? {view : Label → Option β}
    (steady : ∀ l, test l = true → view (l.1,change l.2) = view l)
    (found : changeFirst? test change ls = some ls') : ls'.filterMap view = ls.filterMap view := by
  obtain ⟨first,l,rest,rfl,passed,rfl⟩ := exists_of_changeFirst? found
  rw [List.filterMap_append,List.filterMap_append,List.filterMap_cons,List.filterMap_cons,
    steady l passed]

theorem filterMap_put {view : Label → Option β}
    (steady : ∀ l, test l = true → view (l.1,change l.2) = view l) (new : Label) :
    (put test change new ls).filterMap view = ls.filterMap view ++
      if ls.any test then [] else (view new).toList := by
  rw [put]
  cases found : changeFirst? test change ls with
  | none =>
    have absent : ls.any test = false :=
      List.any_eq_false.mpr fun l member => by simp [changeFirst?_eq_none.mp found l member]
    rw [Option.getD_none,List.filterMap_append,absent,if_neg Bool.false_ne_true]
    cases seen : view new <;> simp [seen]
  | some ls' =>
    have present : ls.any test = true := by
      by_contra absent
      rw [Bool.not_eq_true,List.any_eq_false] at absent
      rw [changeFirst?_eq_none.mpr fun l member => Bool.not_eq_true _ ▸ absent l member] at found
      exact nomatch found
    rw [Option.getD_some,present,if_pos rfl,List.append_nil,filterMap_changeFirst? steady found]

/-- The first label that passes is the one that was changed, or the new one. -/
theorem find?_put (kept : ∀ l, test l = true → test (l.1,change l.2) = true) {new : Label}
    (passed : test new = true) : (put test change new ls).find? test =
      some (((ls.find? test).map fun l => (l.1,change l.2)).getD new) := by
  induction ls with
  | nil => simp [put,changeFirst?,passed]
  | cons l ls ih =>
    rw [put,changeFirst?]
    cases here : test l with
    | true => simp [here,kept l here]
    | false =>
      rw [put] at ih
      rw [if_neg Bool.false_ne_true,List.find?_cons,here,← ih]
      cases changeFirst? test change ls <;> simp [here]

/-- Labels of another kind are found as before. -/
theorem find?_put_other {test' : Label → Bool}
    (apart : ∀ l, test l = true → test' l = false ∧ test' (l.1,change l.2) = false) {new : Label}
    (failed : test' new = false) : (put test change new ls).find? test' = ls.find? test' := by
  have seen : (put test change new ls).filterMap (Option.guard fun l => test' l) = _ :=
    filterMap_put (fun l passed => by simp [Option.guard,apart l passed]) new
  rw [List.filterMap_eq_filter] at seen
  rw [← List.head?_filter,← List.head?_filter,seen]
  simp [Option.guard,failed]

/-- The label is of a kind and has a key in a field. -/
def keyed (name field : Name) (key : String) (l : Label) : Bool :=
  l.1 == name && l.2.get? field == some key

theorem keyed_iff {name field : Name} {key : String} {l : Label} :
    keyed name field key l = true ↔ l.1 = name ∧ l.2.get? field = some key := by
  rw [keyed,Bool.and_eq_true,beq_iff_eq,beq_iff_eq]

/-- What the first label with a key holds in another field, if there is one. -/
def reading (ls : List Label) (name field : Name) (key : String) (value : Name) :
    Option (Option String) :=
  (ls.find? (keyed name field key)).map (·.2.get? value)

section
variable {name field value : Name} {key : String} {new : Attributes}

/-- What was put under a key is read there, and nothing else changes for the others. -/
theorem reading_put {x : String} (keeps : ∀ a, (change a).get? field = a.get? field)
    (sets : ∀ a, (change a).get? value = some x) (known : new.get? field = some key)
    (holds : new.get? value = some x) (key' : String) :
    reading (put (keyed name field key) change (name,new) ls) name field key' value =
      if key' = key then some (some x) else reading ls name field key' value := by
  by_cases same : key' = key
  · subst same
    have kept : ∀ l, keyed name field key' l = true → keyed name field key' (l.1,change l.2) = true := by
      intro l passed
      rw [keyed_iff] at passed ⊢
      exact ⟨passed.1,(keeps l.2).trans passed.2⟩
    rw [reading,find?_put kept (keyed_iff.mpr ⟨rfl,known⟩),if_pos rfl]
    cases ls.find? (keyed name field key') <;> simp [sets,holds]
  · have failed (a : Attributes) (given : a.get? field = some key) (name' : Name) :
        keyed name field key' (name',a) = false := by
      simp [keyed,given,Ne.symm same]
    rw [reading,find?_put_other ?_ (failed new known name),if_neg same,reading]
    intro l passed
    have held := (keyed_iff.mp passed).2
    exact ⟨failed l.2 held l.1,failed _ ((keeps l.2).trans held) l.1⟩

/-- What is put among the labels of one kind does not show in another. -/
theorem reading_put_other {name' field' : Name} (other : name' ≠ name) (key' : String) :
    reading (put (keyed name field key) change (name,new) ls) name' field' key' value =
      reading ls name' field' key' value := by
  have failed (a : Attributes) : keyed name' field' key' (name,a) = false := by
    simp [keyed,Ne.symm other]
  rw [reading,find?_put_other ?_ (failed new),reading]
  intro l passed
  obtain ⟨is,-⟩ := keyed_iff.mp passed
  obtain ⟨name,a⟩ := l
  subst is
  exact ⟨failed a,failed (change a)⟩

theorem filterMap_put_other {name' : Name} (other : name' ≠ name) :
    (put (keyed name field key) change (name,new) ls).filterMap (ofName? name') =
      ls.filterMap (ofName? name') := by
  have unseen (a : Attributes) : ofName? name' (name,a) = none := if_neg (Ne.symm other)
  rw [filterMap_put ?_ (name,new),unseen,Option.toList_none,ite_self,List.append_nil]
  intro l passed
  obtain ⟨is,-⟩ := keyed_iff.mp passed
  obtain ⟨name,a⟩ := l
  subst is
  rw [unseen,unseen]

theorem reading_append {name' : Name} (other : name' ≠ name) (field : Name) (key : String) :
    reading (ls ++ [(name,new)]) name' field key value = reading ls name' field key value := by
  have failed : keyed name' field key (name,new) = false := by simp [keyed,Ne.symm other]
  rw [reading,List.find?_append,reading]
  cases ls.find? (keyed name' field key) <;> simp [failed]

end

end Label

namespace Xml.Element

theorem labels_addEntry (e : Element) (entry : Entry) :
    (e.addEntry entry).labels = e.labels ++ [(entry.name,entry.attributes)] := by
  cases e
  simp [addEntry,labels_mk,Element.name,Element.attributes,Element.children,Element.node]

theorem labels_put (e : Element) (name : Name) (test : Attributes → Bool)
    (change : Attributes → Attributes) (entry : Entry) :
    ((e.changeFirst? name test change).getD (e.addEntry entry)).labels =
      Label.put (fun l => l.1 == name && test l.2) change (entry.name,entry.attributes) e.labels := by
  rw [Label.put,← labels_changeFirst?,← labels_addEntry]
  cases e.changeFirst? name test change <;> rfl

end Xml.Element

end MailMerge
