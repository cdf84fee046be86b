import MailMerge.Proofs.Tree.Remains
import Mathlib.Data.List.Induction

/-! How a cell ends while its paragraphs meet their fates. Its children at the beginning fall into a
head, which does not end with a paragraph, and the paragraphs after it. What has become of the head
still ends with the same element, and what has become of these paragraphs ends with a paragraph
unless nothing is left of it; in this case, and only in this case, the cell no longer ends with one.
-/
namespace MailMerge
open Xml Docx Forest

/-- Children of a cell from which on it ends well: paragraphs, and new tables each of which is followed
by a new paragraph. -/
inductive Closing (name : NodeId → Name) (base : Nat) : List NodeId → Prop
  | nil : Closing name base []
  | paragraph {p : NodeId} {ids : List NodeId} (kind : name p = paragraphName)
    (rest : Closing name base ids) : Closing name base (p :: ids)
  | table {t p : NodeId} {ids : List NodeId} (later : base ≤ t) (kind : name p = paragraphName)
    (later' : base ≤ p) (rest : Closing name base ids) : Closing name base (t :: p :: ids)

namespace Closing

variable {name : NodeId → Name} {base : Nat} {ids ids' : List NodeId}

theorem append (closing : Closing name base ids) (rest : Closing name base ids') :
    Closing name base (ids ++ ids') := by
  induction closing with
  | nil => exact rest
  | paragraph kind _ ih => exact .paragraph kind ih
  | table later kind later' _ ih => exact .table later kind later' ih

theorem of_forall (all : ∀ p ∈ ids, name p = paragraphName) : Closing name base ids := by
  induction ids with
  | nil => exact .nil
  | cons p ids ih =>
    obtain ⟨kind,rest⟩ := List.forall_mem_cons.mp all
    exact .paragraph kind (ih rest)

/-- What closes a cell ends with a paragraph. -/
theorem last (closing : Closing name base ids) (some : ids ≠ []) :
    ∃ p, ids.getLast? = Option.some p ∧ name p = paragraphName := by
  induction closing with
  | nil => exact absurd rfl some
  | @paragraph p ids kind rest ih =>
    cases ids with
    | nil => exact ⟨p,rfl,kind⟩
    | cons q ids => simpa using ih (List.cons_ne_nil q ids)
  | @table t p ids later kind later' rest ih =>
    cases ids with
    | nil => exact ⟨p,rfl,kind⟩
    | cons q ids => simpa using ih (List.cons_ne_nil q ids)

/-- An old element there is a paragraph of its own, so what is around it closes too. -/
theorem split {q : NodeId} {before after : List NodeId}
    (closing : Closing name base (before ++ q :: after)) (old : q < base) :
    Closing name base before ∧ Closing name base after := by
  generalize whole : before ++ q :: after = ids at closing
  induction closing generalizing before with
  | nil => simp at whole
  | @paragraph p ids kind rest ih =>
    cases before with
    | nil =>
      obtain ⟨-,rfl⟩ := List.cons.inj whole
      exact ⟨.nil,rest⟩
    | cons p' before =>
      obtain ⟨rfl,whole'⟩ := List.cons.inj whole
      obtain ⟨left,right⟩ := ih whole'
      exact ⟨.paragraph kind left,right⟩
  | @table t p ids later kind later' rest ih =>
    cases before with
    | nil =>
      obtain ⟨rfl,-⟩ := List.cons.inj whole
      exact absurd old (Nat.not_lt.mpr later)
    | cons t' before =>
      obtain ⟨rfl,whole'⟩ := List.cons.inj whole
      cases before with
      | nil =>
        obtain ⟨rfl,-⟩ := List.cons.inj whole'
        exact absurd old (Nat.not_lt.mpr later')
      | cons p' before =>
        obtain ⟨rfl,whole''⟩ := List.cons.inj whole'
        obtain ⟨left,right⟩ := ih whole''
        exact ⟨.table later kind later' left,right⟩

theorem congr {name' : NodeId → Name} (closing : Closing name base ids)
    (same : ∀ c ∈ ids, name' c = name c) : Closing name' base ids := by
  induction closing with
  | nil => exact .nil
  | paragraph kind _ ih =>
    obtain ⟨first,rest⟩ := List.forall_mem_cons.mp same
    exact .paragraph (first.trans kind) (ih rest)
  | table later kind later' _ ih =>
    obtain ⟨-,rest⟩ := List.forall_mem_cons.mp same
    obtain ⟨second,rest⟩ := List.forall_mem_cons.mp rest
    exact .table later (second.trans kind) later' (ih rest)

end Closing

/-- What has become of the children of a cell, its head and the paragraphs after it. -/
structure Division (name : NodeId → Name) (base : Nat) (head tail head' tail' : List NodeId) :
    Prop where
  tail_ne : tail ≠ []
  paragraphs : ∀ p ∈ tail, name p = paragraphName
  last : ∀ x, head.getLast? = some x → name x ≠ paragraphName ∧ head'.getLast? = some x
  known : ∀ c ∈ head', c ∈ head ∨ base ≤ c
  paragraph : (∃ p ∈ head', name p = paragraphName) → ∃ p ∈ head, name p = paragraphName
  closing : Closing name base tail'
  held : tail' = [] → ∃ p ∈ head', name p = paragraphName

/-- The children of a cell have come from the children at the beginning. -/
def Comes (name : NodeId → Name) (base : Nat) (original ids : List NodeId) : Prop :=
  ∃ head tail head' tail', original = head ++ tail ∧ ids = head' ++ tail' ∧
    Division name base head tail head' tail'

section
variable {name : NodeId → Name} {base : Nat} {original ids : List NodeId}

/-- Some elements fall into a head and the paragraphs after it. -/
private theorem exists_division (name : NodeId → Name) (ids : List NodeId) : ∃ head tail,
    ids = head ++ tail ∧ (∀ p ∈ tail, name p = paragraphName) ∧
      ∀ x, head.getLast? = some x → name x ≠ paragraphName := by
  induction ids using List.reverseRecOn with
  | nil => exact ⟨[],[],rfl,by simp,by simp⟩
  | append_singleton ids a ih =>
    by_cases kind : name a = paragraphName
    · obtain ⟨head,tail,rfl,paragraphs,last⟩ := ih
      refine ⟨head,tail ++ [a],List.append_assoc _ _ _,?_,last⟩
      intro p member
      rcases List.mem_append.mp member with member | member
      · exact paragraphs p member
      · exact List.mem_singleton.mp member ▸ kind
    · refine ⟨ids ++ [a],[],(List.append_nil _).symm,by simp,?_⟩
      intro x same
      rw [List.getLast?_concat] at same
      exact Option.some.inj same ▸ kind

theorem comes_self (well : EndsWell (ids.map name)) : Comes name base ids ids := by
  obtain ⟨head,tail,rfl,paragraphs,last⟩ := exists_division name ids
  have tail_ne : tail ≠ [] := by
    rintro rfl
    rw [EndsWell,List.append_nil,List.getLast?_map,Option.map_eq_some_iff] at well
    obtain ⟨x,same,kind⟩ := well
    exact last x same kind
  exact ⟨head,tail,head,tail,rfl,rfl,tail_ne,paragraphs,fun x same => ⟨last x same,same⟩,
    fun _ => Or.inl,id,.of_forall paragraphs,fun none => absurd none tail_ne⟩

private theorem split_middle {q : NodeId} {head' tail' before after : List NodeId}
    (whole : head' ++ tail' = before ++ q :: after) :
    (∃ between, before = head' ++ between ∧ tail' = between ++ q :: after) ∨
      ∃ between, head' = before ++ q :: between ∧ after = between ++ tail' := by
  rcases List.append_eq_append_iff.mp whole with ⟨between,here,rest⟩ | ⟨between,here,rest⟩
  · exact Or.inl ⟨between,here,rest⟩
  · cases between with
    | nil => exact Or.inl ⟨[],by simpa using here.symm,by simpa using rest.symm⟩
    | cons p between =>
      obtain ⟨rfl,rest'⟩ := List.cons.inj rest
      exact Or.inr ⟨between,here,rest'⟩

namespace Division

variable {head tail head' tail' : List NodeId} (division : Division name base head tail head' tail')
include division

/-- The end of a cell changes. -/
theorem retail {tail'' : List NodeId} (closing : Closing name base tail'')
    (held : tail'' = [] → ∃ p ∈ head', name p = paragraphName) :
    Division name base head tail head' tail'' :=
  { division with closing := closing, held := held }

/-- The head of a cell changes where one of its paragraphs was; it still ends as before, as it does
not end with this paragraph. -/
theorem rehead {q : NodeId} {before mid after tail'' : List NodeId}
    (here : head' = before ++ q :: after) (kind : name q = paragraphName)
    (new : ∀ c ∈ mid, base ≤ c) (closing : Closing name base tail'')
    (held : tail'' = [] → ∃ p ∈ before ++ mid ++ after, name p = paragraphName) :
    Division name base head tail (before ++ mid ++ after) tail'' := by
  have paragraph : ∃ p ∈ head, name p = paragraphName :=
    division.paragraph ⟨q,here ▸ List.mem_append_right _ List.mem_cons_self,kind⟩
  refine ⟨division.tail_ne,division.paragraphs,?_,?_,fun _ => paragraph,closing,held⟩
  · intro x same
    obtain ⟨other,same'⟩ := division.last x same
    refine ⟨other,?_⟩
    rw [here] at same'
    cases after with
    | nil =>
      rw [List.getLast?_concat] at same'
      exact absurd kind (Option.some.inj same' ▸ other)
    | cons c after => simpa using same'
  · intro c member
    have known := division.known c
    rw [here] at known
    simp only [List.mem_append,List.mem_cons] at known member
    rcases member with (member | member) | member
    · exact known (Or.inl member)
    · exact Or.inr (new c member)
    · exact known (Or.inr (Or.inr member))

/-- A paragraph of a cell meets its fate. -/
theorem met {fate : Fate} {q parent : NodeId} {before after : List NodeId}
    (whole : head' ++ tail' = before ++ q :: after) (kind : name q = paragraphName) (old : q < base)
    (cell : name parent = cellName) (left : fate.Leaves name base parent before after ids) :
    ∃ head'' tail'', ids = head'' ++ tail'' ∧ Division name base head tail head'' tail'' := by
  rcases split_middle whole with ⟨between,rfl,rfl⟩ | ⟨between,here,rfl⟩
  · -- the paragraph is in the end of the cell
    obtain ⟨closing,closing'⟩ := division.closing.split old
    cases left with
    | @replaced new later kind =>
      refine ⟨head',between ++ new :: after,List.append_assoc _ _ _,division.retail ?_ (by simp)⟩
      exact closing.append (.paragraph kind closing')
    | table later kind outside => exact absurd cell outside
    | @tableInCell new filler later kind later' kind' inside =>
      refine ⟨head',between ++ new :: filler :: after,List.append_assoc _ _ _,
        division.retail ?_ (by simp)⟩
      exact closing.append (.table later kind' later' closing')
    | removed held =>
      refine ⟨head',between ++ after,List.append_assoc _ _ _,
        division.retail (closing.append closing') fun none => ?_⟩
      obtain ⟨p,member,kind⟩ := held cell
      rw [List.append_assoc,none,List.append_nil] at member
      exact ⟨p,member,kind⟩
    | @refilled filler later kind inside empty =>
      refine ⟨head',between ++ after ++ [filler],by simp,division.retail ?_ (by simp)⟩
      exact (closing.append closing').append (.paragraph kind .nil)
  · -- the paragraph is in the head
    cases left with
    | @replaced new later kind' =>
      refine ⟨before ++ [new] ++ between,tail',by simp,division.rehead here kind (by simpa using later)
        division.closing fun _ => ⟨new,by simp,kind'⟩⟩
    | table later kind outside => exact absurd cell outside
    | @tableInCell new filler later kind₁ later' kind₂ inside =>
      refine ⟨before ++ [new,filler] ++ between,tail',by simp,division.rehead here kind
        (by simp [later,later']) division.closing fun _ => ⟨filler,by simp,kind₂⟩⟩
    | removed held =>
      refine ⟨before ++ [] ++ between,tail',by simp,division.rehead here kind (by simp)
        division.closing fun none => ?_⟩
      obtain ⟨p,member,kind⟩ := held cell
      rw [none,List.append_nil] at member
      exact ⟨p,by simpa using member,kind⟩
    | @refilled filler later kind' inside empty =>
      refine ⟨before ++ [] ++ between,tail' ++ [filler],by simp,division.rehead here kind (by simp)
        (division.closing.append (.paragraph kind' .nil)) (by simp)⟩

/-- Something else is put in front of the children of a cell. -/
theorem grown {new : NodeId} (other : name new ≠ paragraphName) (later : base ≤ new) :
    Division name base head tail (new :: head') tail' := by
  refine ⟨division.tail_ne,division.paragraphs,?_,?_,?_,division.closing,?_⟩
  · intro x same
    obtain ⟨other',same'⟩ := division.last x same
    refine ⟨other',?_⟩
    cases head' with
    | nil => simp at same'
    | cons c head' => simpa using same'
  · intro c member
    rcases List.mem_cons.mp member with rfl | member
    · exact Or.inr later
    · exact division.known c member
  · rintro ⟨p,member,kind⟩
    rcases List.mem_cons.mp member with rfl | member
    · exact absurd kind other
    · exact division.paragraph ⟨p,member,kind⟩
  · intro none
    obtain ⟨p,member,kind⟩ := division.held none
    exact ⟨p,List.mem_cons_of_mem _ member,kind⟩

theorem congr {name' : NodeId → Name} (same : ∀ c ∈ head' ++ tail', name' c = name c)
    (same' : ∀ c ∈ head ++ tail, name' c = name c) :
    Division name' base head tail head' tail' := by
  obtain ⟨same_head',same_tail'⟩ := List.forall_mem_append.mp same
  obtain ⟨same_head,same_tail⟩ := List.forall_mem_append.mp same'
  refine ⟨division.tail_ne,?_,?_,division.known,?_,division.closing.congr same_tail',?_⟩
  · exact fun p member => (same_tail p member).trans (division.paragraphs p member)
  · intro x last
    refine ⟨?_,(division.last x last).2⟩
    rw [same_head x (List.mem_of_getLast? last)]
    exact (division.last x last).1
  · rintro ⟨p,member,kind⟩
    obtain ⟨q,member',kind'⟩ := division.paragraph ⟨p,member,(same_head' p member).symm.trans kind⟩
    exact ⟨q,member',(same_head q member').trans kind'⟩
  · intro none
    obtain ⟨p,member,kind⟩ := division.held none
    exact ⟨p,member,(same_head' p member).trans kind⟩

end Division

end

namespace Plot

variable {part : String} {scope : Scope} {v v' : Plot} {cell : NodeId}

/-- The children of a cell come from those at the beginning, also after a step. -/
theorem Change.comes (change : Change part scope v v')
    (old : ∀ q fate, scope.may q fate → q < scope.base) (based : scope.base ≤ v.forest.nodes.size)
    (branching : v.forest.Branching) (within : v.grove.Within part cell)
    (kind : v.forest.name cell = cellName) (later : Grove.Later v.grove v'.grove)
    {original : List NodeId} (small : ∀ c ∈ original, c < v.forest.nodes.size)
    (comes : Comes v.forest.name scope.base original (v.forest.children cell)) :
    Comes v'.forest.name scope.base original (v'.forest.children cell) := by
  obtain ⟨head,tail,_,_,rfl,ids_eq,division⟩ := comes
  have division : Division v'.forest.name scope.base head tail _ _ := division.congr
    (fun c member => later.name_eq c (branching.below cell c (ids_eq ▸ member)))
    fun c member => later.name_eq c (small c member)
  have kept (same : v'.forest.children cell = v.forest.children cell) :
      Comes v'.forest.name scope.base (head ++ tail) (v'.forest.children cell) :=
    ⟨head,tail,_,_,rfl,same.trans ids_eq,division⟩
  cases change with
  | still same index_eq => exact kept (same cell within)
  | @grown parent new before after inside split now elsewhere new_later plain front index_eq =>
    by_cases here : cell = parent
    · subst here
      obtain rfl := front kind
      refine ⟨head,tail,new :: _,_,rfl,?_,division.grown (plain new new_later)
        (Nat.le_trans based new_later)⟩
      rw [now,List.nil_append,List.cons_append,← ids_eq,split,List.nil_append]
    · exact kept (elsewhere cell within here)
  | taken inside spare now elsewhere apart listed =>
    refine kept (elsewhere cell within ?_)
    rintro rfl
    rcases spare with ⟨other,-⟩ | ⟨other,-⟩ <;> exact absurd (kind.symm.trans other) (by decide)
  | @met fate q parent before after may inside kind_q split left elsewhere apart =>
    by_cases here : cell = parent
    · subst here
      have name_q : v'.forest.name q = paragraphName :=
        (later.name_eq q (branching.below cell q (by rw [split]; simp))).trans kind_q
      obtain ⟨head'',tail'',now,division'⟩ := division.met (ids_eq.symm.trans split) name_q
        (old q fate may) ((later.name_eq cell within.1).trans kind) left
      exact ⟨head,tail,head'',tail'',rfl,now,division'⟩
    · exact kept (elsewhere cell within here)

/-- A cell whose paragraphs are replaced at most goes on to end with a paragraph. -/
theorem Change.endsWithParagraph (change : Change part scope v v')
    (only : ∀ q fate, scope.may q fate → q ∈ v.forest.children cell → fate = .replaced)
    (branching : v.forest.Branching) (within : v.grove.Within part cell)
    (kind : v.forest.name cell = cellName) (later : Grove.Later v.grove v'.grove)
    (ends : v.forest.EndsWithParagraph cell) : v'.forest.EndsWithParagraph cell := by
  have last : ∃ p, (v.forest.children cell).getLast? = some p ∧ v'.forest.name p = paragraphName := by
    rw [EndsWithParagraph,EndsWell,List.getLast?_map,Option.map_eq_some_iff] at ends
    obtain ⟨p,same,kind⟩ := ends
    exact ⟨p,same,(later.name_eq p
      (branching.below cell p (List.mem_of_getLast? same))).trans kind⟩
  suffices ∃ p, (v'.forest.children cell).getLast? = some p ∧ v'.forest.name p = paragraphName by
    rw [EndsWithParagraph,EndsWell,List.getLast?_map,Option.map_eq_some_iff]
    exact this
  cases change with
  | still same index_eq => rwa [same cell within]
  | @grown parent new before after inside split now elsewhere new_later plain front index_eq =>
    by_cases here : cell = parent
    · subst here
      obtain rfl := front kind
      rw [now]
      rw [split] at last
      cases after with
      | nil => simp at last
      | cons c after => simpa using last
    · rwa [elsewhere cell within here]
  | taken inside spare now elsewhere apart listed =>
    rw [elsewhere cell within ?_]
    · exact last
    rintro rfl
    rcases spare with ⟨other,-⟩ | ⟨other,-⟩ <;> exact absurd (kind.symm.trans other) (by decide)
  | @met fate q parent before after may inside kind_q split left elsewhere apart =>
    by_cases here : cell = parent
    · subst here
      obtain rfl := only q fate may (split ▸ by simp)
      generalize v'.forest.children cell = ids at left
      cases left with
      | @replaced new later kind' =>
        rw [split] at last
        cases after with
        | nil => exact ⟨new,by simp,kind'⟩
        | cons c after => simpa using last
    · rwa [elsewhere cell within here]

end Plot

namespace Forest

/-- A cell has lost all the paragraphs after the last other element in it, and as paragraphs before that
element are left, it was not given a new one. -/
def Stranded (f f' : Forest) (cell : NodeId) : Prop :=
  ∃ before x after, f.children cell = before ++ x :: after ∧ f.name x ≠ paragraphName ∧
    after ≠ [] ∧ (∀ p ∈ after, f.name p = paragraphName ∧ p ∉ f'.children cell) ∧
      (∃ p ∈ before, f.name p = paragraphName) ∧ (f'.children cell).getLast? = some x ∧
        ∃ p ∈ f'.children cell, f'.name p = paragraphName

variable {f f' : Forest} {cell : NodeId}

theorem Stranded.not_endsWithParagraph (stranded : f.Stranded f' cell)
    (same : ∀ c ∈ f.children cell, f'.name c = f.name c) : ¬f'.EndsWithParagraph cell := by
  obtain ⟨before,x,after,split,other,-,-,-,last,-⟩ := stranded
  rw [EndsWithParagraph,EndsWell,List.getLast?_map,last,Option.map_some]
  intro kind
  exact other ((same x (by simp [split])).symm.trans (Option.some.inj kind))

/-- A cell whose children have come from those at the beginning ends with a paragraph, or it is
stranded. -/
theorem ends_or_stranded {base : Nat} (comes : Comes f'.name base (f.children cell) (f'.children cell))
    (same : ∀ c ∈ f.children cell, f'.name c = f.name c) (nodup : (f.children cell).Nodup)
    (small : ∀ c ∈ f.children cell, c < base) :
    f'.EndsWithParagraph cell ∨ f.Stranded f' cell := by
  obtain ⟨head,tail,head',tail',split,now,division⟩ := comes
  by_cases none : tail' = []
  · right
    rw [none,List.append_nil] at now
    obtain ⟨p,member,kind⟩ := division.held none
    obtain ⟨q,member',kind'⟩ := division.paragraph ⟨p,member,kind⟩
    obtain ⟨before,x,rfl⟩ := List.eq_nil_or_concat' head |>.resolve_left (List.ne_nil_of_mem member')
    have last := division.last x List.getLast?_concat
    rw [split] at same nodup small
    have name_x : f'.name x = f.name x := same x (by simp)
    refine ⟨before,x,tail,by simpa using split,name_x ▸ last.1,division.tail_ne,?_,?_,now ▸ last.2,
      p,now ▸ member,kind⟩
    · intro p member
      refine ⟨(same p (List.mem_append_right _ member)).symm.trans (division.paragraphs p member),?_⟩
      rw [now]
      intro stays
      rcases division.known p stays with here | later
      · exact (List.nodup_append.mp nodup).2.2 p here p member rfl
      · exact Nat.not_lt.mpr later (small p (List.mem_append_right _ member))
    · rcases List.mem_append.mp member' with member' | member'
      · exact ⟨q,member',(same q (by simp [member'])).symm.trans kind'⟩
      · obtain rfl := List.mem_singleton.mp member'
        exact absurd kind' last.1
  · left
    obtain ⟨p,last,kind⟩ := division.closing.last none
    rw [EndsWithParagraph,EndsWell,List.getLast?_map,now,List.getLast?_append_of_ne_nil _ none,last,
      Option.map_some,kind]

end Forest
end MailMerge
