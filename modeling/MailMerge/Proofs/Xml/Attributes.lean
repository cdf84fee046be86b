import MailMerge.Xml.Basic

/-! Reading attributes after they were set or erased. -/
namespace MailMerge.Xml.Attributes

@[simp] theorem get?_nil (name : Name) : get? [] name = none := rfl

theorem get?_cons (a : Name × String) (rest : Attributes) (name : Name) :
    get? (a :: rest) name = if a.1 = name then some a.2 else rest.get? name := by
  by_cases same : a.1 = name <;> simp [get?,same]

theorem get?_append (first second : Attributes) (name : Name) :
    get? (first ++ second) name = (first.get? name).or (second.get? name) := by
  simp only [get?,List.find?_append]
  cases List.find? (·.1 == name) first <;> simp

theorem get?_erase_of_ne (attributes : Attributes) {name other : Name} (different : name ≠ other) :
    (attributes.erase other).get? name = attributes.get? name := by
  induction attributes with
  | nil => rfl
  | cons a rest ih =>
    by_cases same : a.1 = other
    · simpa [erase,same,get?_cons,Ne.symm different] using ih
    · have kept : erase (a :: rest) other = a :: erase rest other := by simp [erase,same]
      simp only [kept,get?_cons,ih]

private theorem get?_replace (attributes : Attributes) (name other : Name) (value : String) :
    get? (attributes.map fun a => if a.1 == other then (other,value) else a) name =
      if name = other ∧ attributes.any (·.1 == other) then some value
      else attributes.get? name := by
  induction attributes with
  | nil => simp
  | cons a rest ih =>
    by_cases same : a.1 = other
    · by_cases here : name = other
      · simp [get?_cons,same,here]
      · simpa [get?_cons,same,here,Ne.symm here] using ih
    · have kept : (if (a.1 == other) = true then (other,value) else a) = a := by simp [same]
      rw [List.map_cons,kept,get?_cons,ih,get?_cons]
      by_cases here : name = other
      · subst here
        rw [List.any_cons,beq_eq_false_iff_ne.mpr same,Bool.false_or,if_neg same,if_neg same]
      · simp [here]

/-- Setting an attribute changes its value and no other. -/
theorem get?_set (attributes : Attributes) (name other : Name) (value : String) :
    (attributes.set other value).get? name =
      if name = other then some value else attributes.get? name := by
  unfold set
  split
  · next present =>
    rw [get?_replace]
    simp [present]
  · next absent =>
    have missing : attributes.get? other = none := by
      rw [Bool.not_eq_true,List.any_eq_false] at absent
      rw [get?,List.find?_eq_none.mpr absent,Option.map_none]
    rw [get?_append,get?_cons]
    by_cases same : name = other
    · simp [same,missing]
    · simp [same,Ne.symm same]

end MailMerge.Xml.Attributes
