import MailMerge.Proofs.Directive.Tags
import MailMerge.Proofs.Generation.Recorded
import MailMerge.Proofs.Generation.Told

/-! Resolving conditional blocks. The text is rewritten while it is searched, and the place where the search
goes on moves with it. What is still to be searched is at all times an end of the first text, so that the
blocks are those which one search of that text finds.
-/
namespace MailMerge.Fill
open Directive Generation Relation

def Stands (data : Value) (block : Found Conditional) : Prop :=
  Condition.judge block.value.condition data = .ok (.holds true)

/-- What is recorded for a block. -/
def blockOutcome (part reason : String) (block : Found Conditional) : Outcome :=
  ⟨.conditional,.text block.value.condition,.applied,reason,part⟩

variable {setup : Setup} {w : World} {s s' : Session} {own : NodeId → Prop} {p parent : NodeId} {base : Nat}

/-- The index and the tree agree on the place of a paragraph. -/
structure Seat (w : World) (p parent : NodeId) : Prop where
  ready : w.Ready 0
  paragraph : w.Paragraph p
  known : w.session.index.parent? p = some parent
  listed : p ∈ w.package.forest.children parent

namespace Seat

theorem noted (seat : Seat w p parent) (notes : w.session.Notes s') :
    ∃ w' : World, w'.session = s' ∧ Seat w' p parent := by
  have move : Move {} Scope.all w _ :=
    .serve (.note s'.package.journal s'.outcomes w.session.watermarks)
  have moves : Moves {} Scope.all w _ := ReflTransGen.single move
  exact ⟨_,notes.eq.symm,seat.ready.moves moves,seat.paragraph.moves moves,seat.known,seat.listed⟩

theorem exists_removeParagraph (seat : Seat w p parent) (setup : Setup) :
    ∃ s', removeParagraph p setup w.session = .ok () s' ∧ w.session.Tells own p parent .deleted s' ∧
      s'.outcomes = w.session.outcomes ∧ s'.part = w.session.part := by
  obtain ⟨before,after,split,first⟩ := List.eq_append_cons_of_mem seat.listed
  have removed : Generation.remove p setup w.session = .ok true _ :=
    change_ok (Index.remove_eq seat.known split first (Index.position_of_split split first))
  have goes : ∃ s', removeParagraph p setup w.session = .ok () s' := by
    simp only [removeParagraph,bind_apply,parent?_apply,removed,seat.known,forest_apply]
    split <;> exact ⟨_,rfl⟩
  obtain ⟨s',ran⟩ := goes
  refine ⟨s',ran,tells_removeParagraph seat.ready seat.paragraph seat.known ran,?_⟩
  rcases removeParagraph_cases seat.ready.home p setup with ⟨unknown,-⟩ | ⟨fault,-,failed⟩ |
    ⟨_,_,_,-,-,ran'⟩
  · cases seat.known.symm.trans unknown
  · cases ran.symm.trans failed
  · obtain rfl := (EStateM.Result.ok.inj (ran.symm.trans ran')).2
    exact ⟨rfl,rfl⟩

end Seat

theorem exists_holds {condition : String} {verdict : Condition.Verdict}
    (judged : Condition.judge condition setup.data = .ok verdict) (s : Session) :
    ∃ b s', holds condition setup s = .ok b s' ∧ s.Records [] s' ∧ (b = true ↔ verdict = .holds true) := by
  have given := ofExcept_ok judged setup s
  cases verdict with
  | holds b => exact ⟨b,s,bind_ok given,.refl s,by simp⟩
  | invalid reason => exact ⟨false,_,bind_ok given,⟨⟨⟨rfl,rfl,rfl,rfl,rfl⟩,rfl,rfl⟩,by simp⟩,by simp⟩

/-- How the blocks of a text are resolved. All of them stand, and a text is left; or the first that does not
stand takes the paragraph out, and no later one is looked at. -/
inductive Resolved (data : Value) (s : Session) (own : NodeId → Prop) (p parent : NodeId)
    (blocks : List (Found Conditional)) (text : List Char) (met : Bool) :
    Option (List Char) × Bool → Session → Prop
  | kept {s' : Session} (stand : ∀ b ∈ blocks, Stands data b)
    (records : s.Records (blocks.map (blockOutcome s.part "")) s') :
    Resolved data s own p parent blocks text met (some text,met) s'
  | removed {s' : Session} {before after : List (Found Conditional)} {b : Found Conditional}
    (split : blocks = before ++ b :: after) (stand : ∀ b ∈ before, Stands data b)
    (fails : ¬ Stands data b) (tells : s.Tells own p parent .deleted s')
    (outcomes_eq : s'.outcomes = s.outcomes ++ before.map (blockOutcome s.part "") ++
      [blockOutcome s.part "condition false; paragraph removed" b]) :
    Resolved data s own p parent blocks text met (none,false) s'

private theorem Resolved.cons {data : Value} {b : Found Conditional} {blocks : List (Found Conditional)}
    {text : List Char} {met : Bool} {left : Option (List Char) × Bool} {s₁ : Session}
    (resolved : Resolved data s₁ own p parent blocks text met left s') (stands : Stands data b)
    (records : s.Records [blockOutcome s.part "" b] s₁) :
    Resolved data s own p parent (b :: blocks) text met left s' := by
  have part_eq : s₁.part = s.part := records.part_eq
  cases resolved with
  | kept stand later =>
    rw [part_eq] at later
    exact .kept (List.forall_mem_cons.mpr ⟨stands,stand⟩) (records.trans later)
  | @removed _ before after last split stand fails tells outcomes_eq =>
    have split' : b :: blocks = b :: before ++ last :: after := congrArg _ split
    refine .removed split' (List.forall_mem_cons.mpr ⟨stands,stand⟩) fails (tells_of_notes records.toNotes tells) ?_
    rw [outcomes_eq,records.outcomes_eq,part_eq,List.map_cons]
    simp

/-- Where the text that is left is an end of the text, the search goes on in it. -/
private theorem nextConditional?_append (done rest : List Char) :
    nextConditional? (done ++ rest) done.length = firstFrom conditional? done.length rest := by
  rw [nextConditional?,List.drop_left]

theorem resolveBlocks_pass {c : Char} {rest : List Char}
    (silent : conditional? (c :: rest) = none) (fuel : Nat) (done : List Char) (met : Bool) :
    resolveBlocks fuel p (done ++ c :: rest) done.length met =
      resolveBlocks fuel p (done ++ [c] ++ rest) (done ++ [c]).length met := by
  have same : nextConditional? (done ++ [c] ++ rest) done.length =
      nextConditional? (done ++ [c] ++ rest) (done ++ [c]).length := by
    rw [nextConditional?_append,List.append_assoc,nextConditional?_append,List.singleton_append,
      firstFrom_pass silent,List.length_append,List.length_singleton]
  rw [List.append_cons]
  unfold resolveBlocks
  rw [same]

theorem resolveBlocks_read {value : Conditional} {raw rest : List Char} (some : raw ≠ [])
    (reads : conditional? (raw ++ rest) = Option.some (value,rest)) (fuel : Nat) (done : List Char)
    (met : Bool) : resolveBlocks (fuel + 1) p (done ++ (raw ++ rest)) done.length met = do
      if ← holds value.condition then
        record .conditional (.text value.condition) .applied
        resolveBlocks fuel p (done ++ value.content ++ rest) (done ++ value.content).length true
      else
        removeParagraph p
        record .conditional (.text value.condition) .applied "condition false; paragraph removed"
        return (none,false) := by
  have found : nextConditional? (done ++ (raw ++ rest)) done.length =
      Option.some ⟨value,done.length,raw⟩ := by
    rw [nextConditional?_append,firstFrom_read tag_conditional.proper some reads]
  have left : (done ++ (raw ++ rest)).drop (done.length + raw.length) = rest := by
    rw [← List.append_assoc,← List.length_append,List.drop_left]
  rw [resolveBlocks,found]
  simp only [Found.stop,List.take_left,left,List.length_append]

private theorem resolved {start : Nat} {rest : List Char} {blocks : List (Found Conditional)}
    (finds : Finds conditional? start rest blocks) (seat : Seat w p parent)
    (judged : ∀ b ∈ blocks, ∃ verdict, Condition.judge b.value.condition setup.data = .ok verdict)
    (done : List Char) {fuel : Nat} (enough : rest.length < fuel) (met : Bool) :
    ∃ left s', resolveBlocks fuel p (done ++ rest) done.length met setup w.session = .ok left s' ∧
      Resolved setup.data w.session own p parent blocks
        (done ++ substitute.go start rest (blocks.map fun b => (b,b.value.content)))
        (met || !blocks.isEmpty) left s' := by
  -- on the search of what is left; `done` is what the texts were rewritten to, and is not searched again
  induction finds generalizing w done fuel met with
  | nil start =>
    obtain ⟨fuel,rfl⟩ := Nat.exists_eq_add_of_lt enough
    refine ⟨(some (done ++ []),met),w.session,?_,?_⟩
    · rw [List.length_nil,Nat.zero_add,resolveBlocks,nextConditional?_append]
      rfl
    · rw [List.isEmpty_nil,Bool.not_true,Bool.or_false]
      exact .kept (by simp) (.refl _)
  | @pass start c rest blocks silent more ih =>
    rw [resolveBlocks_pass silent,more.go_pass (List.Subset.refl _) (·.value.content),
      List.append_cons done c (substitute.go _ _ _)]
    exact ih seat judged (done ++ [c]) (Nat.lt_of_succ_lt enough) met
  | @read start value raw rest blocks some reads more ih =>
    obtain ⟨fuel,rfl⟩ := Nat.exists_eq_add_of_lt (Nat.zero_lt_of_lt enough)
    rw [Nat.zero_add] at enough ⊢
    obtain ⟨⟨verdict,here⟩,judged⟩ := List.forall_mem_cons.mp judged
    have shorter : rest.length < fuel := by
      have size := List.length_pos_of_ne_nil some
      rw [List.length_append] at enough
      omega
    obtain ⟨b,s₁,held,quiet,stands⟩ := exists_holds here w.session
    rw [resolveBlocks_read some reads,bind_ok held]
    cases b with
    | true =>
      obtain ⟨s₂,recorded,records⟩ := exists_record .conditional (.text value.condition) .applied "" setup s₁
      rw [quiet.part_eq] at records
      have records : w.session.Records [blockOutcome w.session.part "" ⟨value,start,raw⟩] s₂ :=
        quiet.trans records
      obtain ⟨w₂,rfl,seat₂⟩ := seat.noted records.toNotes
      obtain ⟨left,s',ran,resolved⟩ := ih seat₂ judged (done ++ value.content) shorter true
      refine ⟨left,s',(bind_ok recorded).trans ran,?_⟩
      rw [List.map_cons,go_read,← List.append_assoc,List.isEmpty_cons,Bool.not_false,Bool.or_true]
      exact resolved.cons (here.trans (congrArg _ (stands.mp rfl))) records
    | false =>
      obtain ⟨w₁,rfl,seat₁⟩ := seat.noted quiet.toNotes
      obtain ⟨s₂,removed,tells,outcomes_eq,part_eq⟩ := seat₁.exists_removeParagraph setup
      obtain ⟨s₃,recorded,records⟩ := exists_record .conditional (.text value.condition) .applied
        "condition false; paragraph removed" setup s₂
      refine ⟨(none,false),s₃,(bind_ok removed).trans (bind_ok recorded),.removed (List.nil_append _).symm
        (by simp) (fun holds => ?_) (tells_of_notes quiet.toNotes (tells_noted tells records.toNotes)) ?_⟩
      · exact nomatch stands.mpr (Except.ok.inj (here.symm.trans holds))
      · rw [records.outcomes_eq,outcomes_eq,quiet.outcomes_eq,part_eq,quiet.part_eq]
        rfl

/-- Resolving the blocks of a text comes to what one search of the text finds. -/
theorem resolveBlocks_scan (ready : w.Ready base) (paragraph : w.Paragraph p)
    (known : w.session.index.parent? p = some parent) (listed : p ∈ w.package.forest.children parent)
    (text : List Char) (judged : ∀ b ∈ all conditional? text, ∃ verdict,
      Condition.judge b.value.condition setup.data = .ok verdict)
    {fuel : Nat} (enough : text.length < fuel) :
    ∃ left s', resolveBlocks fuel p text 0 false setup w.session = .ok left s' ∧
      Resolved setup.data w.session w.Owned p parent (all conditional? text)
        (substitute text ((all conditional? text).map fun b => (b,b.value.content)))
        (!(all conditional? text).isEmpty) left s' := by
  have seat : Seat w p parent := ⟨ready.fewer (Nat.zero_le base),paragraph,known,listed⟩
  exact resolved (finds_all tag_conditional.proper text) seat judged [] enough false

/-- Two blocks, of which the first ends with the closing tag of the block inside it. -/
private def nestedText : List Char :=
  "\x7b#if a\x7d\x7b#if b\x7dx\x7b/if\x7d\x7b/if\x7d\x7b#if c\x7dy\x7b/if\x7d".toList

private def nestedSetup : Setup where
  data := .map [(.text "a",.bool true),(.text "c",.int 1)]

private def nestedCheck (_ id : NodeId) (_ s : Session) (_ : List Round) (_ : Session) : Bool :=
  (s.package.forest.named id Docx.paragraphName).any fun p => (s.index.parent? p).any fun parent =>
    (s.package.forest.children parent).contains p &&
      match resolveBlocks 100 p nestedText 0 false nestedSetup s with
      | .ok left _ => left == (some "\x7b#if b\x7dx\x7b/if\x7dy".toList,true)
      | .error _ _ => false

private theorem nested_run : bodyRun {} {} lonelyTemplate nestedCheck = true := by
  decide +kernel

/-- A block in a block is cut at the first closing tag, and what is left of the two is not resolved. -/
theorem resolveBlocks_scan_nested : ∃ (w : World) (root p parent : NodeId) (s₀ s' : Session),
    opening {} {} { package := lonelyTemplate } = .ok root s₀ ∧ prepare root {} s₀ = .ok () w.session ∧
      w.Ready 0 ∧ w.Paragraph p ∧ w.session.index.parent? p = some parent ∧
        p ∈ w.package.forest.children parent ∧
          resolveBlocks 100 p nestedText 0 false nestedSetup w.session =
            .ok (some "\x7b#if b\x7dx\x7b/if\x7dy".toList,true) s' ∧
              Resolved nestedSetup.data w.session w.Owned p parent (all conditional? nestedText)
                (substitute nestedText ((all conditional? nestedText).map fun b => (b,b.value.content)))
                (!(all conditional? nestedText).isEmpty)
                (some "\x7b#if b\x7dx\x7b/if\x7dy".toList,true) s' := by
  obtain ⟨root,id,s₀,_,_,_,opened,ready,found,ran,checked⟩ := exists_bodyRun nested_run
  have fresh : lonelyTemplate.Fresh := ⟨rfl,rfl,rfl,rfl,rfl⟩
  obtain ⟨_,start,_,_,-,rfl,-,-,run⟩ :=
    exists_run fresh rfl opened ready found (body_of_bodyRounds ran)
  obtain ⟨p,member,checked⟩ := List.any_eq_true.mp checked
  obtain ⟨parent,known,checked⟩ := (Option.any_eq_true _ _).mp checked
  obtain ⟨listed,checked⟩ := Bool.and_eq_true_iff.mp checked
  have listed : p ∈ start.package.forest.children parent := List.contains_iff_mem.mp listed
  have owned : start.Owned id := run.site.place_owned ⟨ReflTransGen.refl,Or.inl rfl⟩
  have paragraph : start.Paragraph p :=
    ⟨run.site.ready.sound.sorted.within_named owned member,(Forest.mem_named.mp member).2⟩
  have judged : ∀ b ∈ all conditional? nestedText, ∃ verdict,
      Condition.judge b.value.condition nestedSetup.data = .ok verdict := by
    have each : (all conditional? nestedText).all fun b =>
        (Condition.judge b.value.condition nestedSetup.data).isOk := by decide +kernel
    exact fun b member => exists_of_isOk (List.all_eq_true.mp each b member)
  obtain ⟨left,s',ran',resolved⟩ := resolveBlocks_scan run.site.ready paragraph known listed nestedText
    judged (by decide : nestedText.length < 100)
  rw [ran'] at checked
  obtain rfl := eq_of_beq checked
  exact ⟨start,root,p,parent,s₀,s',opened,ready,run.site.ready.fewer (Nat.zero_le _),paragraph,known,
    listed,ran',resolved⟩

end MailMerge.Fill
