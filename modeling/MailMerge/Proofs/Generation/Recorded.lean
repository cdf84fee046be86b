import MailMerge.Proofs.Generation.Noted
import MailMerge.Proofs.Tree.Written

/-! What is recorded about the paragraph at work, and what is written into it. A record adds one outcome.
Where no run of a paragraph is inside another, the text that is written is the text that is read afterwards.
-/
namespace MailMerge
open Xml Docx Generation

/-- A paragraph of a tree in which each element has one place, with no run inside another one. -/
structure Forest.Flat (f : Forest) (p : NodeId) : Prop where
  kind : f.name p = paragraphName
  branching : f.Branching
  sorted : ∃ (owner : NodeId → String) (level : NodeId → Nat), f.Sorted owner level
  apart : ∀ r r', f.Below p r → f.name r = runName → f.Below r r' → f.name r' = runName → r' = r

namespace Forest.Flat

variable {f : Forest} {p : NodeId}

theorem not_wrapped (flat : f.Flat p) : ¬ f.Wrapped p := by
  rintro ⟨first,others,-,r,r',different,path,kind,inside,path',kind',inside'⟩
  rcases flat.branching.total inside inside' with below | above
  · exact different (flat.apart r r' path kind below kind').symm
  · exact different (flat.apart r' r path' kind' above kind)

theorem paragraphText_eq (flat : f.Flat p) (text : List Char) :
    (f.setParagraphText p (String.ofList text)).paragraphText p = text := by
  obtain ⟨owner,level,sorted⟩ := flat.sorted
  rw [(Forest.written_setParagraphText sorted flat.branching flat.kind _).paragraphText_eq flat.not_wrapped,
    String.toList_ofList]

end Forest.Flat

def Forest.line (text : String) : Forest :=
  ⟨#[⟨paragraphName,[],none,[1],none⟩,⟨runName,[],none,[2],none⟩,⟨textName,[],some text,[],none⟩]⟩

theorem Forest.flat_line (text : String) : (Forest.line text).Flat 0 := by
  have next (parent child : NodeId) (here : child ∈ (Forest.line text).children parent) :
      child = parent + 1 ∧ child < 3 := by
    match parent with
    | 0 =>
      obtain rfl : child = 1 := List.mem_singleton.mp here
      exact ⟨rfl,by decide⟩
    | 1 =>
      obtain rfl : child = 2 := List.mem_singleton.mp here
      exact ⟨rfl,by decide⟩
    | 2 => exact nomatch here
    | n + 3 =>
      rw [Forest.children_of_size_le _ (Nat.le_add_left 3 n)] at here
      exact nomatch here
  have sorted : (Forest.line text).Sorted (fun _ => "") id :=
    ⟨fun parent child here => ⟨(next parent child here).2,rfl,(next parent child here).1 ▸
      Nat.lt_succ_self parent⟩,fun _ small => small⟩
  have only (r : NodeId) (kind : (Forest.line text).name r = runName) : r = 1 := by
    match r with
    | 0 => exact absurd (show paragraphName = runName from kind) (by decide)
    | 1 => rfl
    | 2 => exact absurd (show textName = runName from kind) (by decide)
    | n + 3 =>
      rw [Forest.name,Forest.node_of_size_le _ (Nat.le_add_left 3 n)] at kind
      exact absurd kind (by decide)
  refine ⟨rfl,⟨fun parent child here => (next parent child here).2,fun parent => ?_,
    fun a b child here here' => ?_⟩,⟨_,_,sorted⟩,fun r r' _ kind _ kind' =>
      (only r' kind').trans (only r kind).symm⟩
  · match parent with
    | 0 | 1 => exact List.nodup_singleton _
    | 2 => exact List.nodup_nil
    | n + 3 =>
      rw [Forest.children_of_size_le _ (Nat.le_add_left 3 n)]
      exact List.nodup_nil
  · exact Nat.succ.inj ((next a child here).1.symm.trans (next b child here').1)

/-- A later session differs in the journal and in the outcomes that were added. -/
structure Session.Records (s : Session) (news : List Outcome) (s' : Session) : Prop
    extends s.Notes s' where
  outcomes_eq : s'.outcomes = s.outcomes ++ news

variable {setup : Setup} {s s' s'' : Session} {news later : List Outcome} {p : NodeId}

namespace Session.Records

theorem refl (s : Session) : s.Records [] s :=
  ⟨.refl s,(List.append_nil _).symm⟩

theorem trans (first : s.Records news s') (second : s'.Records later s'') :
    s.Records (news ++ later) s'' := by
  refine ⟨first.toNotes.trans second.toNotes,?_⟩
  rw [second.outcomes_eq,first.outcomes_eq,List.append_assoc]

end Session.Records

namespace Generation

theorem ofExcept_ok {α : Type} {result : Except Fault α} {a : α} (given : result = .ok a) (setup : Setup)
    (s : Session) : Generation.ofExcept result setup s = .ok a s := by
  rw [given]
  rfl

theorem exists_record (kind : Directive.Kind) (key : Value) (status : Status) (reason : String)
    (setup : Setup) (s : Session) : ∃ s', record kind key status reason setup s = .ok () s' ∧
      s.Records [⟨kind,key,status,reason,s.part⟩] s' := by
  cases status with
  | applied | failed => exact ⟨_,rfl,⟨⟨rfl,rfl,rfl,rfl,rfl⟩,rfl,rfl⟩,rfl⟩
  | skipped =>
    unfold record
    by_cases told : (reason != "") = true
    · simp only [told,if_true]
      exact ⟨_,rfl,⟨⟨rfl,rfl,rfl,rfl,rfl⟩,rfl,rfl⟩,rfl⟩
    · simp only [told]
      exact ⟨_,rfl,⟨⟨rfl,rfl,rfl,rfl,rfl⟩,rfl,rfl⟩,rfl⟩

end Generation

namespace Fill

theorem valueAt_apply (key : String) (setup : Setup) (s : Session) :
    valueAt key setup s = .ok (setup.data.resolve key) s := rfl

theorem exists_write (flat : s.package.forest.Flat p) (text : List Char) (setup : Setup) :
    ∃ s', Target.write ⟨p,s.package.forest.textElements p⟩ text setup s = .ok () s' ∧
      s'.package.forest.paragraphText p = text ∧ s'.index = s.index ∧ s'.outcomes = s.outcomes :=
  ⟨_,rfl,flat.paragraphText_eq text,rfl,rfl⟩

end Fill
end MailMerge
